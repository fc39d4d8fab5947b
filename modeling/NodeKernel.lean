import NodeKernel.Process.ForkAtomic
import NodeKernel.Scheduler.Progress
import NodeKernel.Files.PipeReaders
import NodeKernel.Process.Queueing
import NodeKernel.Process.SignalFrames
import NodeKernel.Files.Epoll
import NodeKernel.Scheduler.FutexWake
import NodeKernel.Security.Quarantine
import NodeKernel.Security.Revocation
import NodeKernel.Process.Reclaim
import NodeKernel.Process.FrameReuse
import NodeKernel.Files.BlockDevices
import NodeKernel.Files.HotMapSplit
import NodeKernel.Files.Permissions
import NodeKernel.Files.ReadBack
import NodeKernel.Memory.CacheRaces
import NodeKernel.Net.TcpAccept
import NodeKernel.Net.TcpInjection
import NodeKernel.Net.Dhcp
import NodeKernel.Net.DhcpAreas
import NodeKernel.Net.TcpBacklog
import NodeKernel.Net.TcpFrames
import NodeKernel.Net.TcpWindow
import NodeKernel.Process.ElfLoading
import NodeKernel.Files.FileOffsets
import NodeKernel.Persistence.EmotionalArc
import NodeKernel.Persistence.QuantumEcc
import NodeKernel.Persistence.SelfModel
import NodeKernel.Persistence.StateFile
import NodeKernel.Process.RelocationSoundness
import NodeKernel.Wifi.Receive
import NodeKernel.Wifi.Sha1
import NodeKernel.Process.Ptrace
import NodeKernel.Packages.Sha256
import NodeKernel.Inference.VectorStore
import NodeKernel.Scheduler.Causal
import NodeKernel.Process.MmapPlacement
