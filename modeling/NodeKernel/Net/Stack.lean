import NodeKernel.Net.Packets

/-!
# The network stack

`handle_frame` of `kernel/src/net.rs` and what it reaches, and the parsers of the two UDP replies that the kernel waits
for. A loop that makes more turns than the packet has bytes counts as endless.
-/
namespace NodeKernel

open Checked

/-! ## DNS -/

/-- The loop over the labels of a name. The one for the question also ends at a compression pointer. -/
def skipLabels (pointers : Bool) (data : List UInt8) : ℕ → ℕ → Checked ℕ
  | 0, _ => .error .endless
  | fuel + 1, pos => do
      if data.length ≤ pos then return pos
      let len ← index data pos
      if len = 0 then add pos 1
      else if pointers ∧ 0xC0 ≤ len then add pos 2
      else
        let next ← add pos (1 + len.toNat)
        skipLabels pointers data fuel next

def skipName (data : List UInt8) (pos : ℕ) : Checked ℕ := do
  let first ← index data pos
  if 0xC0 ≤ first then add pos 2 else skipLabels false data (data.length + 1) pos

/-- The data of an answer record is an address, and is in the packet. -/
def isAddress (data : List UInt8) (rtype rdlength : UInt16) (pos : ℕ) : Checked Bool := do
  if rtype ≠ 1 ∨ rdlength ≠ 4 then return false
  let stop ← add pos 4
  return decide (stop ≤ data.length)

def dnsAnswers (data : List UInt8) : ℕ → ℕ → Checked (Option (Ip4 × UInt32))
  | 0, _ => return none
  | count + 1, pos => do
      let head ← add pos 12
      if data.length < head then return none
      let pos ← skipName data pos
      let head ← add pos 10
      if data.length < head then return none
      let rtype ← be16 data pos
      let ttl ← be32 data (pos + 4)
      let rdlength ← be16 data (pos + 8)
      let pos ← add pos 10
      if (← isAddress data rtype rdlength pos) then
        let ip ← ip4At data pos
        return some (ip, ttl)
      let pos ← add pos rdlength.toNat
      dnsAnswers data count pos

def parseDnsReply (data : List UInt8) : Checked (Option (Ip4 × UInt32)) := do
  if data.length < 12 then return none
  let flags ← be16 data 2
  if flags &&& 0x8000 = 0 then return none
  let ancount ← be16 data 6
  if ancount = 0 then return none
  let pos ← skipLabels true data (data.length + 1) 12
  let pos ← add pos 4
  dnsAnswers data ancount.toNat pos

/-! ## DHCP -/

def dhcpDiscover : UInt8 := 1
def dhcpOffer : UInt8 := 2
def dhcpRequest : UInt8 := 3
def dhcpAck : UInt8 := 5

structure DhcpOffer where
  yourIp : Ip4
  serverIp : Ip4
  subnet : Ip4
  gateway : Ip4
  dns : Ip4
  lease : UInt32
  deriving DecidableEq

structure DhcpOptions where
  subnet : Ip4 := (255, 255, 255, 0)
  gateway : Ip4 := (0, 0, 0, 0)
  dns : Ip4 := (0, 0, 0, 0)
  lease : UInt32 := 86400
  msgType : UInt8 := 0

def magicCookie : List UInt8 := [99, 130, 83, 99]

/-- An option that counts only with at least four bytes. -/
def fourBytes (val : List UInt8) (o : DhcpOptions) (put : Ip4 → DhcpOptions) : Checked DhcpOptions := do
  if val.length < 4 then return o
  let bytes ← ip4At val 0
  return put bytes

def dhcpOption (o : DhcpOptions) (opt : UInt8) (val : List UInt8) : Checked DhcpOptions :=
  if opt = 53 then do
    if val = [] then return o
    let msgType ← index val 0
    return { o with msgType }
  else if opt = 1 then fourBytes val o (fun subnet => { o with subnet })
  else if opt = 3 then fourBytes val o (fun gateway => { o with gateway })
  else if opt = 6 then fourBytes val o (fun dns => { o with dns })
  else if opt = 51 then fourBytes val o (fun b => { o with lease := UInt32.ofNat (ofBe (ipBytes b)) })
  else return o

def dhcpLoop (data : List UInt8) : ℕ → ℕ → DhcpOptions → Checked DhcpOptions
  | 0, _, _ => .error .endless
  | fuel + 1, pos, o => do
      if data.length ≤ pos then return o
      let opt ← index data pos
      if opt = 255 then return o
      let next ← add pos 1
      if opt = 0 then dhcpLoop data fuel next o
      else if data.length ≤ next then return o
      else
        let len ← index data (pos + 1)
        let start ← add pos 2
        let stop ← add start len.toNat
        let val ← slice data start (min stop data.length)
        let o ← dhcpOption o opt val
        let next ← add pos (2 + len.toNat)
        dhcpLoop data fuel next o

def parseDhcpOptions (data : List UInt8) : Checked (Option DhcpOffer) := do
  if data.length < 240 then return none
  if (← slice data 236 240) ≠ magicCookie then return none
  let yourIp ← ip4At data 16
  let serverIp ← ip4At data 20
  let o ← dhcpLoop data (data.length + 1) 240 {}
  if o.msgType = dhcpOffer ∨ o.msgType = dhcpAck then
    return some ⟨yourIp, serverIp, o.subnet, o.gateway, o.dns, o.lease⟩
  else return none

/-! ## Frames -/

structure NetStack where
  ourIp : Ip4
  ourMac : Mac
  wifiIp : Ip4
  wifiMac : Mac
  arpCache : Ip4 → Option (Mac × ℕ)
  rxPackets : ℕ
  rxBytes : ℕ
  pingPending : Bool
  pingId : UInt16
  pingSeq : UInt16
  pingReplyTime : ℕ
  dnsPending : Bool
  dnsReply : Option Ip4
  dhcpPending : Bool
  dhcpReply : Option DhcpOffer
  tcp : TcpWorld

abbrev FrameResult := Option (List UInt8) × NetStack

namespace NetStack

def arpCacheInsert (s : NetStack) (now : ℕ) (ip : Ip4) (mac : Mac) : NetStack :=
  { s with arpCache := Function.update s.arpCache ip (some (mac, now)) }

def handleArp (s : NetStack) (now : ℕ) (srcMac : Mac) (payload : List UInt8) : Checked FrameResult := do
  let some arp ← ArpPacket.parse payload | return (none, s)
  let s := s.arpCacheInsert now arp.spa arp.sha
  if arp.op ≠ ArpPacket.arpRequest then return (none, s)
  if arp.tpa ≠ s.ourIp ∧ arp.tpa ≠ s.wifiIp then return (none, s)
  let replyMac := if arp.tpa = s.wifiIp ∧ s.wifiIp ≠ (0, 0, 0, 0) then s.wifiMac else s.ourMac
  let reply := ArpPacket.buildReply replyMac arp.tpa srcMac arp.spa
  return (some (EthFrame.build srcMac replyMac ethertypeArp reply), s)

def handleIcmp (s : NetStack) (now : ℕ) (srcMac : Mac) (src : Ip4) (ipPayload : List UInt8) : Checked FrameResult := do
  if ipPayload.length < 8 then return (none, s)
  let icmpType ← index ipPayload 0
  if icmpType = 0 ∧ s.pingPending then
    let id ← be16 ipPayload 4
    let seq ← be16 ipPayload 6
    if id = s.pingId ∧ seq = s.pingSeq then return (none, { s with pingReplyTime := now })
    return (none, s)
  if icmpType ≠ 8 then return (none, s)
  let id ← be16 ipPayload 4
  let seq ← be16 ipPayload 6
  let data ← sliceFrom ipPayload 8
  let icmpReply ← buildIcmpEchoReply id seq data
  let ip ← Ipv4Header.build ipProtoIcmp s.ourIp src icmpReply.length
  return (some (EthFrame.build srcMac s.ourMac ethertypeIpv4 (ip ++ icmpReply)), s)

def dnsArrives (s : NetStack) (payload : List UInt8) : Checked NetStack := do
  match ← parseDnsReply payload with
  | some (ip, _) => return { s with dnsReply := some ip }
  | none => return s

def dhcpArrives (s : NetStack) (payload : List UInt8) : Checked NetStack := do
  match ← parseDhcpOptions payload with
  | some offer => return { s with dhcpReply := some offer }
  | none => return s

def handleUdp (s : NetStack) (payload : List UInt8) : Checked FrameResult := do
  let some udp ← UdpDatagram.parse payload | return (none, s)
  let s ← if udp.srcPort = 53 ∧ s.dnsPending then s.dnsArrives udp.payload else pure s
  let s ← if udp.srcPort = 67 ∧ udp.dstPort = 68 ∧ s.dhcpPending then s.dhcpArrives udp.payload else pure s
  return (none, s)

def handleTcp (s : NetStack) (score : OwnerScore) (srcMac : Mac) (src : Ip4) (raw : List UInt8) : Checked FrameResult := do
  let some h ← TcpHeader.parseChecked raw | return (none, s)
  let _data ← sliceFrom raw (min h.headerLen raw.length)
  match s.tcp.handleTcpSegment score src raw with
  | (none, tcp) => return (none, { s with tcp })
  | (some seg, tcp) =>
    let frame ← seg.frame s.ourIp srcMac s.ourMac
    return (some frame, { s with tcp })

def handleIpv4 (s : NetStack) (now : ℕ) (score : OwnerScore) (srcMac : Mac) (payload : List UInt8) : Checked FrameResult := do
  let some iph ← Ipv4Header.parse payload | return (none, s)
  if iph.dst ≠ s.ourIp ∧ iph.dst ≠ s.wifiIp ∧ iph.dst ≠ (255, 255, 255, 255) then return (none, s)
  let s := { s.arpCacheInsert now iph.src srcMac with
    rxPackets := s.rxPackets + 1
    rxBytes := s.rxBytes + payload.length }
  let some ipPayload := iph.payload payload | return (none, s)
  if iph.proto = ipProtoIcmp then s.handleIcmp now srcMac iph.src ipPayload
  else if iph.proto = ipProtoUdp then s.handleUdp ipPayload
  else if iph.proto = ipProtoTcp then s.handleTcp score srcMac iph.src ipPayload
  else return (none, s)

def handleFrame (s : NetStack) (now : ℕ) (score : OwnerScore) (raw : List UInt8) : Checked FrameResult := do
  let some eth ← EthFrame.parse raw | return (none, s)
  if eth.ethertype = ethertypeArp then s.handleArp now eth.srcMac eth.payload
  else if eth.ethertype = ethertypeIpv4 then s.handleIpv4 now score eth.srcMac eth.payload
  else return (none, s)

end NetStack

end NodeKernel
