import NodeKernel.Lib.Checked
import NodeKernel.Net.Tcp

/-!
# Packets

The headers of `kernel/src/net.rs`, as they are read from the bytes of a packet and put in front of a payload. Every
access to the bytes of a packet can stop the kernel.
-/
namespace NodeKernel

open Checked

abbrev Mac := UInt8 × UInt8 × UInt8 × UInt8 × UInt8 × UInt8

def macBytes : Mac → List UInt8
  | (a, b, c, d, e, f) => [a, b, c, d, e, f]

def ipBytes : Ip4 → List UInt8
  | (a, b, c, d) => [a, b, c, d]

def toMac : List UInt8 → Option Mac
  | [a, b, c, d, e, f] => some (a, b, c, d, e, f)
  | _ => none

def toIp : List UInt8 → Option Ip4
  | [a, b, c, d] => some (a, b, c, d)
  | _ => none

def be16 (raw : List UInt8) (i : ℕ) : Checked UInt16 := do
  let a ← index raw i
  let b ← index raw (i + 1)
  return UInt16.ofNat (ofBe [a, b])

def be32 (raw : List UInt8) (i : ℕ) : Checked UInt32 := do
  let a ← index raw i
  let b ← index raw (i + 1)
  let c ← index raw (i + 2)
  let d ← index raw (i + 3)
  return UInt32.ofNat (ofBe [a, b, c, d])

def ip4At (raw : List UInt8) (i : ℕ) : Checked Ip4 := do
  let a ← index raw i
  let b ← index raw (i + 1)
  let c ← index raw (i + 2)
  let d ← index raw (i + 3)
  return (a, b, c, d)

/-! ## Ethernet -/

def ethertypeArp : UInt16 := 0x0806
def ethertypeIpv4 : UInt16 := 0x0800

structure EthFrame where
  dstMac : Mac
  srcMac : Mac
  ethertype : UInt16
  payload : List UInt8

namespace EthFrame

def parse (raw : List UInt8) : Checked (Option EthFrame) := do
  if raw.length < 14 then return none
  let some dstMac := toMac (← slice raw 0 6) | return none
  let some srcMac := toMac (← slice raw 6 12) | return none
  let ethertype ← be16 raw 12
  let payload ← sliceFrom raw 14
  return some ⟨dstMac, srcMac, ethertype, payload⟩

def build (dst src : Mac) (ethertype : UInt16) (payload : List UInt8) : List UInt8 :=
  macBytes dst ++ macBytes src ++ toBe 2 ethertype.toNat ++ payload

end EthFrame

/-! ## ARP -/

structure ArpPacket where
  op : UInt16
  sha : Mac
  spa : Ip4
  tha : Mac
  tpa : Ip4

namespace ArpPacket

def arpRequest : UInt16 := 1
def arpReply : UInt16 := 2

def parse (raw : List UInt8) : Checked (Option ArpPacket) := do
  if raw.length < 28 then return none
  if (← slice raw 0 2) ≠ [0, 1] then return none
  if (← slice raw 2 4) ≠ [0x08, 0x00] then return none
  let op ← be16 raw 6
  let some sha := toMac (← slice raw 8 14) | return none
  let some spa := toIp (← slice raw 14 18) | return none
  let some tha := toMac (← slice raw 18 24) | return none
  let some tpa := toIp (← slice raw 24 28) | return none
  return some ⟨op, sha, spa, tha, tpa⟩

def buildReply (ourMac : Mac) (ourIp : Ip4) (reqMac : Mac) (reqIp : Ip4) : List UInt8 :=
  [0, 1] ++ [0x08, 0x00] ++ [6, 4] ++ toBe 2 arpReply.toNat ++ macBytes ourMac ++ ipBytes ourIp ++ macBytes reqMac ++
    ipBytes reqIp

end ArpPacket

/-! ## Checksums -/

/-- The sum of the 16-bit words; an odd last byte is the upper half of a word. -/
def wordSum (sum : UInt32) : List UInt8 → UInt32
  | [] => sum
  | [a] => sum + (a.toUInt32 <<< 8)
  | a :: b :: rest => wordSum (sum + UInt32.ofNat (ofBe [a, b])) rest

def foldCarry (sum : ℕ) : ℕ :=
  if sum / 65536 = 0 then sum else foldCarry (sum % 65536 + sum / 65536)
  termination_by sum
  decreasing_by omega

def ipv4Checksum (header : List UInt8) : UInt16 := ~~~ UInt16.ofNat (foldCarry (wordSum 0 header).toNat)

def putChecksum (packet : List UInt8) (i : ℕ) (csum : UInt16) : Checked (List UInt8) := do
  let packet ← set packet i (csum >>> 8).toUInt8
  set packet (i + 1) (csum &&& 0xFF).toUInt8

/-! ## IPv4 -/

def ipProtoIcmp : UInt8 := 1
def ipProtoUdp : UInt8 := 17
def ipProtoTcp : UInt8 := 6

structure Ipv4Header where
  ihl : UInt8
  tos : UInt8
  totalLen : UInt16
  id : UInt16
  flagsFrag : UInt16
  ttl : UInt8
  proto : UInt8
  checksum : UInt16
  src : Ip4
  dst : Ip4

namespace Ipv4Header

def parse (raw : List UInt8) : Checked (Option Ipv4Header) := do
  if raw.length < 20 then return none
  let versionIhl ← index raw 0
  if versionIhl >>> 4 ≠ 4 then return none
  let tos ← index raw 1
  let totalLen ← be16 raw 2
  let id ← be16 raw 4
  let flagsFrag ← be16 raw 6
  let ttl ← index raw 8
  let proto ← index raw 9
  let checksum ← be16 raw 10
  let some src := toIp (← slice raw 12 16) | return none
  let some dst := toIp (← slice raw 16 20) | return none
  return some ⟨versionIhl &&& 0xF, tos, totalLen, id, flagsFrag, ttl, proto, checksum, src, dst⟩

def headerLen (h : Ipv4Header) : ℕ := h.ihl.toNat * 4

def build (proto : UInt8) (src dst : Ip4) (payloadLen : ℕ) : Checked (List UInt8) :=
  let header := [0x45, 0] ++ toBe 2 (20 + payloadLen) ++ [0, 1] ++ [0x40, 0] ++ [64, proto] ++ [0, 0] ++ ipBytes src ++
    ipBytes dst
  putChecksum header 10 (ipv4Checksum header)

/-- `payload.get(ihl..total)` of `handle_ipv4`, which cuts off the padding of the frame. -/
def payload (h : Ipv4Header) (raw : List UInt8) : Option (List UInt8) :=
  if h.headerLen ≤ h.totalLen.toNat ∧ h.totalLen.toNat ≤ raw.length then
    some ((raw.take h.totalLen.toNat).drop h.headerLen)
  else none

end Ipv4Header

/-! ## ICMP -/

def buildIcmpEchoReply (id seq : UInt16) (data : List UInt8) : Checked (List UInt8) :=
  let packet := [0, 0] ++ [0, 0] ++ toBe 2 id.toNat ++ toBe 2 seq.toNat ++ data
  putChecksum packet 2 (ipv4Checksum packet)

def buildIcmpEchoRequest (id seq : UInt16) (data : List UInt8) : Checked (List UInt8) :=
  let packet := [8, 0] ++ [0, 0] ++ toBe 2 id.toNat ++ toBe 2 seq.toNat ++ data
  putChecksum packet 2 (ipv4Checksum packet)

/-! ## UDP -/

structure UdpDatagram where
  srcPort : UInt16
  dstPort : UInt16
  payload : List UInt8

def UdpDatagram.parse (raw : List UInt8) : Checked (Option UdpDatagram) := do
  if raw.length < 8 then return none
  let srcPort ← be16 raw 0
  let dstPort ← be16 raw 2
  let length ← be16 raw 4
  if length.toNat < 8 ∨ raw.length < length.toNat then return none
  let payload ← slice raw 8 length.toNat
  return some ⟨srcPort, dstPort, payload⟩

/-! ## TCP -/

/-- `TcpHeader::parse` with the index of every byte checked. -/
def TcpHeader.parseChecked (raw : List UInt8) : Checked (Option TcpHeader) := do
  if raw.length < 20 then return none
  let dataOff ← index raw 12
  let srcPort ← be16 raw 0
  let dstPort ← be16 raw 2
  let seq ← be32 raw 4
  let ack ← be32 raw 8
  let flags ← index raw 13
  let window ← be16 raw 14
  let _checksum ← be16 raw 16
  let _urgentPtr ← be16 raw 18
  return some ⟨srcPort, dstPort, seq, ack, dataOff >>> 4, flags, window⟩

def tcpChecksum (srcIp dstIp : Ip4) (tcpSeg : List UInt8) : UInt16 :=
  ipv4Checksum (ipBytes srcIp ++ ipBytes dstIp ++ [0, ipProtoTcp] ++ toBe 2 tcpSeg.length ++ tcpSeg)

namespace TcpSegment

def build (seg : TcpSegment) (srcIp : Ip4) : Checked (List UInt8) :=
  let packet := toBe 2 seg.srcPort.toNat ++ toBe 2 seg.dstPort.toNat ++ toBe 4 seg.seq.toNat ++ toBe 4 seg.ack.toNat ++
    [0x50, seg.flags] ++ toBe 2 seg.window.toNat ++ [0, 0] ++ [0, 0] ++ seg.payload
  putChecksum packet 16 (tcpChecksum srcIp seg.dstIp packet)

def frame (seg : TcpSegment) (ourIp : Ip4) (dstMac ourMac : Mac) : Checked (List UInt8) := do
  let tcp ← seg.build ourIp
  let ip ← Ipv4Header.build ipProtoTcp ourIp seg.dstIp tcp.length
  return EthFrame.build dstMac ourMac ethertypeIpv4 (ip ++ tcp)

end TcpSegment

end NodeKernel
