import NodeKernel.Lib.Bytes

/-!
# TCP connections

The socket table, the listening ports with their backlogs, and the segments that causal deferral holds back.
A segment is sent as the arguments of `TcpHeader::build`; the Ethernet and IP headers around it are left out.
-/
namespace NodeKernel

open Function

abbrev Ip4 := UInt8 × UInt8 × UInt8 × UInt8

namespace Tcp

def fin : UInt8 := 0x01
def syn : UInt8 := 0x02
def rst : UInt8 := 0x04
def psh : UInt8 := 0x08
def ack : UInt8 := 0x10

def mss : UInt32 := 1460
def iss : UInt32 := 0xDEAD0000
def rtoInitialMs : ℕ := 1000
def rtoMaxMs : ℕ := 60000

end Tcp

structure TcpSocketKey where
  localPort : UInt16
  remoteIp : Ip4
  remotePort : UInt16
  deriving DecidableEq

structure TcpHeader where
  srcPort : UInt16
  dstPort : UInt16
  seq : UInt32
  ack : UInt32
  dataOff : UInt8
  flags : UInt8
  window : UInt16
  deriving DecidableEq

namespace TcpHeader

def fromBeBytes (raw : List UInt8) (i n : ℕ) : ℕ := ofLe ((raw.drop i).take n).reverse

def parse (raw : List UInt8) : Option TcpHeader :=
  if raw.length < 20 then none
  else
    some
      { srcPort := UInt16.ofNat (fromBeBytes raw 0 2)
        dstPort := UInt16.ofNat (fromBeBytes raw 2 2)
        seq := UInt32.ofNat (fromBeBytes raw 4 4)
        ack := UInt32.ofNat (fromBeBytes raw 8 4)
        dataOff := raw.getD 12 0 >>> 4
        flags := raw.getD 13 0
        window := UInt16.ofNat (fromBeBytes raw 14 2) }

def headerLen (h : TcpHeader) : ℕ := h.dataOff.toNat * 4

def has (h : TcpHeader) (flag : UInt8) : Bool := h.flags &&& flag != 0

def key (h : TcpHeader) (src : Ip4) : TcpSocketKey := ⟨h.dstPort, src, h.srcPort⟩

def data (h : TcpHeader) (raw : List UInt8) : List UInt8 := raw.drop (min h.headerLen raw.length)

end TcpHeader

structure TcpSegment where
  srcPort : UInt16
  dstPort : UInt16
  seq : UInt32
  ack : UInt32
  flags : UInt8
  window : UInt16
  dstIp : Ip4
  payload : List UInt8
  deriving DecidableEq

inductive TcpState
  | closed | listen | synSent | synReceived | established | accepted
  | finWait1 | finWait2 | closeWait | closing | lastAck | timeWait
  deriving DecidableEq

structure TcpSocket where
  state : TcpState
  sndNxt : UInt32
  sndUna : UInt32
  rcvNxt : UInt32
  sndWnd : UInt16
  rcvBuf : List UInt8
  cwnd : UInt32
  ssthresh : UInt32
  lastSendMs : ℕ
  rtoMs : ℕ
  retransmitBuf : List UInt8
  ownerPid : ℕ
  aiCwndMul : UInt16
  deriving DecidableEq

/-- What the kernel knows of the owner of a socket when a segment comes in: whether its anomaly score is above
0.5 and above 0.6, and its causal fanout. -/
structure OwnerScore where
  chaotic : Bool
  anomalous : Bool
  fanout : ℕ

def OwnerScore.cwndMul (score : OwnerScore) : UInt16 :=
  if score.anomalous then 70
  else if 4 ≤ score.fanout then 150
  else if 2 ≤ score.fanout then 120
  else 100

def OwnerScore.shouldDefer (score : OwnerScore) (pid : ℕ) : Bool := pid != 0 && score.chaotic

def saturatingAdd (a b : UInt32) : UInt32 := UInt32.ofNat (min (a.toNat + b.toNat) (2 ^ 32 - 1))

def saturatingMul (a b : UInt32) : UInt32 := UInt32.ofNat (min (a.toNat * b.toNat) (2 ^ 32 - 1))

namespace TcpSocket

def newSynReceived (irs : UInt32) : TcpSocket where
  state := .synReceived
  sndNxt := Tcp.iss + 1
  sndUna := Tcp.iss
  rcvNxt := irs + 1
  sndWnd := 65535
  rcvBuf := []
  cwnd := Tcp.mss
  ssthresh := 65535
  lastSendMs := 0
  rtoMs := Tcp.rtoInitialMs
  retransmitBuf := []
  ownerPid := 0
  aiCwndMul := 100

def makeReply (key : TcpSocketKey) (sock : TcpSocket) (flags : UInt8) (payload : List UInt8) : TcpSegment :=
  ⟨key.localPort, key.remotePort, sock.sndNxt, sock.rcvNxt, flags, 65535, key.remoteIp, payload⟩

def grow (sock : TcpSocket) (acked : UInt32) : UInt32 :=
  if sock.cwnd < sock.ssthresh then saturatingAdd sock.cwnd acked
  else saturatingAdd sock.cwnd (max (saturatingMul Tcp.mss acked / max sock.cwnd 1) 1)

/-- The Reno window update, with the factor that depends on the owner. -/
def ackReceived (sock : TcpSocket) (score : OwnerScore) (ack : UInt32) : TcpSocket :=
  if 0 < ack - sock.sndUna ∧ ack - sock.sndUna ≤ 65536 then
    { sock with
      sndUna := ack
      cwnd := min (sock.grow (ack - sock.sndUna)) (max sock.sndWnd.toUInt32 Tcp.mss)
      aiCwndMul := if 0 < sock.ownerPid then score.cwndMul else sock.aiCwndMul }
  else sock

/-- What an established connection notes from the header of every segment. -/
def note (sock : TcpSocket) (score : OwnerScore) (h : TcpHeader) : TcpSocket :=
  if h.has Tcp.ack then { sock with sndWnd := h.window }.ackReceived score h.ack
  else { sock with sndWnd := h.window }

def append (sock : TcpSocket) (data : List UInt8) : TcpSocket :=
  { sock with rcvBuf := sock.rcvBuf ++ data, rcvNxt := sock.rcvNxt + UInt32.ofNat data.length }

def finReceived (sock : TcpSocket) (next : TcpState) : TcpSocket := { sock with rcvNxt := sock.rcvNxt + 1, state := next }

def acknowledge (key : TcpSocketKey) (sock : TcpSocket) : TcpSocket × Option TcpSegment :=
  (sock, some (makeReply key sock Tcp.ack []))

def synSent (key : TcpSocketKey) (sock : TcpSocket) (h : TcpHeader) : TcpSocket × Option TcpSegment :=
  if h.flags &&& (Tcp.syn ||| Tcp.ack) = Tcp.syn ||| Tcp.ack ∧ h.ack = sock.sndNxt then
    acknowledge key
      { sock with rcvNxt := h.seq + 1, sndUna := sock.sndNxt, sndWnd := h.window, state := .established }
  else (sock, none)

def completes (sock : TcpSocket) (h : TcpHeader) : Bool := h.has Tcp.ack && h.ack == sock.sndNxt

def synReceived (sock : TcpSocket) (h : TcpHeader) : TcpSocket × Option TcpSegment :=
  if sock.completes h then ({ sock with state := .established, sndUna := sock.sndNxt, sndWnd := h.window }, none)
  else (sock, none)

def established (key : TcpSocketKey) (score : OwnerScore) (sock : TcpSocket) (h : TcpHeader) (data : List UInt8) :
    TcpSocket × Option TcpSegment :=
  let sock := sock.note score h
  if data ≠ [] ∧ h.seq = sock.rcvNxt then
    if h.has Tcp.fin then acknowledge key ((sock.append data).finReceived .closeWait)
    else acknowledge key (sock.append data)
  else if h.has Tcp.fin then acknowledge key (sock.finReceived .closeWait)
  else (sock, none)

def lastAck (sock : TcpSocket) (h : TcpHeader) : TcpSocket × Option TcpSegment :=
  if h.has Tcp.ack then ({ sock with state := .closed }, none) else (sock, none)

def finWait2 (key : TcpSocketKey) (sock : TcpSocket) (h : TcpHeader) : TcpSocket × Option TcpSegment :=
  if h.has Tcp.fin then acknowledge key (sock.finReceived .timeWait) else (sock, none)

def finWait1 (key : TcpSocketKey) (sock : TcpSocket) (h : TcpHeader) : TcpSocket × Option TcpSegment :=
  if h.has Tcp.ack then finWait2 key { sock with state := .finWait2 } h else finWait2 key sock h

def tcpStateMachine (key : TcpSocketKey) (score : OwnerScore) (sock : TcpSocket) (h : TcpHeader)
    (data : List UInt8) : TcpSocket × Option TcpSegment :=
  match sock.state with
  | .synSent => synSent key sock h
  | .synReceived => synReceived sock h
  | .established => established key score sock h data
  | .lastAck => lastAck sock h
  | .finWait1 => finWait1 key sock h
  | .finWait2 => finWait2 key sock h
  | .closed | .listen | .accepted | .closeWait | .closing | .timeWait => (sock, none)

def allowed (sock : TcpSocket) : ℕ :=
  max (min (sock.cwnd.toUInt64 * sock.aiCwndMul.toUInt64 / 100).toUInt32.toNat sock.sndWnd.toNat) Tcp.mss.toNat

def send (key : TcpSocketKey) (data : List UInt8) (now : ℕ) (sock : TcpSocket) : TcpSocket × Option TcpSegment :=
  if sock.state = .established ∨ sock.state = .accepted then
    let sendData := data.take sock.allowed
    ({ sock with
        sndNxt := sock.sndNxt + UInt32.ofNat sendData.length
        retransmitBuf := sendData
        lastSendMs := now },
      some (makeReply key sock (Tcp.psh ||| Tcp.ack) sendData))
  else (sock, none)

def expired (sock : TcpSocket) (now : ℕ) : Prop :=
  (sock.state = .established ∨ sock.state = .accepted) ∧ sock.retransmitBuf ≠ [] ∧
    sock.sndUna ≠ sock.sndNxt - UInt32.ofNat sock.retransmitBuf.length ∧ sock.lastSendMs ≠ 0 ∧
    sock.rtoMs ≤ now - sock.lastSendMs

instance (sock : TcpSocket) (now : ℕ) : Decidable (sock.expired now) := inferInstanceAs (Decidable (_ ∧ _))

def pollRetransmit (key : TcpSocketKey) (now : ℕ) (sock : TcpSocket) : TcpSocket × Option TcpSegment :=
  if sock.expired now then
    ({ sock with
        ssthresh := max (sock.cwnd / 2) Tcp.mss
        cwnd := Tcp.mss
        rtoMs := min (sock.rtoMs * 2) Tcp.rtoMaxMs
        lastSendMs := now },
      some { makeReply key sock (Tcp.psh ||| Tcp.ack) sock.retransmitBuf with seq := sock.sndUna })
  else (sock, none)

def closeWith (key : TcpSocketKey) (sock : TcpSocket) (next : TcpState) : TcpSocket × Option TcpSegment :=
  ({ sock with sndNxt := sock.sndNxt + 1, state := next }, some (makeReply key sock (Tcp.fin ||| Tcp.ack) []))

def close (key : TcpSocketKey) (sock : TcpSocket) : TcpSocket × Option TcpSegment :=
  match sock.state with
  | .established => closeWith key sock .finWait1
  | .closeWait => closeWith key sock .lastAck
  | _ => (sock, none)

def recv (n : ℕ) (sock : TcpSocket) : TcpSocket × List UInt8 := ({ sock with rcvBuf := sock.rcvBuf.drop n }, sock.rcvBuf.take n)

end TcpSocket

structure TcpWorld where
  sockets : TcpSocketKey → Option TcpSocket
  listeners : UInt16 → Option (List TcpSocketKey)
  deferred : List (Ip4 × List UInt8)

namespace TcpWorld

def listen (w : TcpWorld) (port : UInt16) : TcpWorld :=
  { w with listeners := update w.listeners port (some ((w.listeners port).getD [])) }

/-- The socket has become established, and its listening port hears of it. -/
def pushBacklog (w : TcpWorld) (key : TcpSocketKey) : TcpWorld :=
  { w with
    listeners := update w.listeners key.localPort ((w.listeners key.localPort).map (fun l => l ++ [key])) }

def setSocket (w : TcpWorld) (key : TcpSocketKey) (sock : Option TcpSocket) : TcpWorld :=
  { w with sockets := update w.sockets key sock }

def activeSegment (w : TcpWorld) (key : TcpSocketKey) (score : OwnerScore) (sock : TcpSocket) (h : TcpHeader)
    (raw : List UInt8) : Option TcpSegment × TcpWorld :=
  if score.shouldDefer sock.ownerPid then (none, { w with deferred := w.deferred ++ [(key.remoteIp, raw)] })
  else
    let r := sock.tcpStateMachine key score h (h.data raw)
    let w := w.setSocket key (some r.1)
    (r.2, if sock.state = .synReceived ∧ sock.completes h = true then w.pushBacklog key else w)

def strayHeader (w : TcpWorld) (key : TcpSocketKey) (h : TcpHeader) : Option TcpSegment × TcpWorld :=
  if h.has Tcp.syn && !h.has Tcp.ack && (w.listeners key.localPort).isSome then
    (some ⟨key.localPort, key.remotePort, Tcp.iss, h.seq + 1, Tcp.syn ||| Tcp.ack, 65535, key.remoteIp, []⟩,
      w.setSocket key (some (TcpSocket.newSynReceived h.seq)))
  else if h.has Tcp.syn then
    (some ⟨key.localPort, key.remotePort, 0, h.seq + 1, Tcp.rst ||| Tcp.ack, 0, key.remoteIp, []⟩, w)
  else (none, w)

def handleTcpSegment (w : TcpWorld) (score : OwnerScore) (src : Ip4) (raw : List UInt8) : Option TcpSegment × TcpWorld :=
  match TcpHeader.parse raw with
  | none => (none, w)
  | some h =>
    if h.has Tcp.rst then (none, w.setSocket (h.key src) none)
    else
      match w.sockets (h.key src) with
      | some sock => w.activeSegment (h.key src) score sock h raw
      | none => w.strayHeader (h.key src) h

def flush (w : TcpWorld) (score : OwnerScore) : Option TcpSegment × TcpWorld :=
  match w.deferred with
  | [] => (none, w)
  | (src, raw) :: rest => { w with deferred := rest }.handleTcpSegment score src raw

def onSocket {α : Type} (w : TcpWorld) (key : TcpSocketKey) (default : α) (f : TcpSocket → TcpSocket × α) : α × TcpWorld :=
  match w.sockets key with
  | some sock => ((f sock).2, w.setSocket key (some (f sock).1))
  | none => (default, w)

def send (w : TcpWorld) (key : TcpSocketKey) (data : List UInt8) (now : ℕ) : Option TcpSegment × TcpWorld :=
  w.onSocket key none (TcpSocket.send key data now)

def recv (w : TcpWorld) (key : TcpSocketKey) (n : ℕ) : List UInt8 × TcpWorld :=
  w.onSocket key [] (TcpSocket.recv n)

def close (w : TcpWorld) (key : TcpSocketKey) : Option TcpSegment × TcpWorld :=
  w.onSocket key none (TcpSocket.close key)

def pollRetransmit (w : TcpWorld) (key : TcpSocketKey) (now : ℕ) : Option TcpSegment × TcpWorld :=
  w.onSocket key none (TcpSocket.pollRetransmit key now)

def accept (w : TcpWorld) (port : UInt16) : Option TcpSocketKey × TcpWorld :=
  match w.listeners port with
  | some (key :: rest) =>
    let w := { w with listeners := update w.listeners port (some rest) }
    (some key, (w.onSocket key () (fun sock => ({ sock with state := .accepted }, ()))).2)
  | some [] => (none, w)
  | none => (none, w)

end TcpWorld

inductive TcpEvent
  | segment (score : OwnerScore) (src : Ip4) (raw : List UInt8)
  | flush (score : OwnerScore)
  | send (key : TcpSocketKey) (data : List UInt8) (now : ℕ)
  | recv (key : TcpSocketKey) (n : ℕ)
  | close (key : TcpSocketKey)
  | pollRetransmit (key : TcpSocketKey) (now : ℕ)
  | listen (port : UInt16)
  | accept (port : UInt16)

/-- What the outside sees of a call: the segment it emits and the bytes it hands to an application. -/
structure TcpOutput where
  sent : Option TcpSegment
  received : List UInt8
  deriving DecidableEq

namespace TcpWorld

def call (w : TcpWorld) : TcpEvent → TcpOutput × TcpWorld
  | .segment score src raw => let r := w.handleTcpSegment score src raw; (⟨r.1, []⟩, r.2)
  | .flush score => let r := w.flush score; (⟨r.1, []⟩, r.2)
  | .send key data now => let r := w.send key data now; (⟨r.1, []⟩, r.2)
  | .recv key n => let r := w.recv key n; (⟨none, r.1⟩, r.2)
  | .close key => let r := w.close key; (⟨r.1, []⟩, r.2)
  | .pollRetransmit key now => let r := w.pollRetransmit key now; (⟨r.1, []⟩, r.2)
  | .listen port => (⟨none, []⟩, w.listen port)
  | .accept port => (⟨none, []⟩, (w.accept port).2)

end TcpWorld

end NodeKernel
