import Mathlib.Data.List.GetD
import NodeKernel.Net.Stack

/-!
# No packet stops the kernel

Every parser that `handle_frame` reaches ends with a result, for the bytes that the parsers before it let through.
-/
namespace NodeKernel

open Checked List TcpHeader Nat Ipv4Header

variable {raw data val packet : List UInt8} {i pos fuel : ℕ}

lemma be16_eq (h : i + 2 ≤ raw.length) : be16 raw i = .ok (UInt16.ofNat (fromBeBytes raw i 2)) := by
  have hbytes : (raw.drop i).take 2 = [raw[i], raw[i + 1]] := by
    rw [drop_eq_getElem_cons (by omega), drop_eq_getElem_cons (by omega)]
    rfl
  unfold be16 fromBeBytes
  rw [index_of_lt (by omega), index_of_lt (by omega), hbytes]
  rfl

lemma be32_eq (h : i + 4 ≤ raw.length) : be32 raw i = .ok (UInt32.ofNat (fromBeBytes raw i 4)) := by
  have hbytes : (raw.drop i).take 4 = [raw[i], raw[i + 1], raw[i + 2], raw[i + 3]] := by
    rw [drop_eq_getElem_cons (by omega), drop_eq_getElem_cons (by omega),
      drop_eq_getElem_cons (by omega), drop_eq_getElem_cons (by omega)]
    rfl
  unfold be32 fromBeBytes
  rw [index_of_lt (by omega), index_of_lt (by omega), index_of_lt (by omega), index_of_lt (by omega), hbytes]
  rfl

lemma Checked.Ensures.be16 {α : Type} {f : UInt16 → Checked α} {Q : α → Prop} (h : i + 2 ≤ raw.length)
    (hf : ∀ v, Ensures (f v) Q) : Ensures (be16 raw i >>= f) Q := by
  rw [be16_eq h]
  exact hf _

lemma be32_runs (h : i + 4 ≤ raw.length) : Ensures (be32 raw i) (fun _ => True) := ⟨_, be32_eq h, trivial⟩

lemma ip4At_runs (h : i + 4 ≤ raw.length) : Ensures (ip4At raw i) (fun _ => True) := by
  refine .index (by omega) (fun a => ?_)
  refine .index (by omega) (fun b => ?_)
  refine .index (by omega) (fun c => ?_)
  refine .index (by omega) (fun d => ?_)
  exact .pure trivial

/-! ## Headers -/

lemma EthFrame.parse_runs (raw : List UInt8) :
    Ensures (EthFrame.parse raw) (fun o => ∀ eth, o = some eth → eth.payload.length ≤ raw.length) := by
  refine .guard nofun (fun h => ?_)
  refine .slice (by omega) (by omega) (fun dst _ => ?_)
  split
  · refine .slice (by omega) (by omega) (fun src _ => ?_)
    split
    · refine .be16 (by omega) (fun ethertype => ?_)
      refine .sliceFrom (by omega) (fun payload hpay => ?_)
      refine .pure ?_
      rintro eth heq
      rw [← Option.some.inj heq]
      exact le_trans (le_of_eq hpay) (sub_le _ _)
    · exact .pure nofun
  · exact .pure nofun

lemma ArpPacket.parse_runs (raw : List UInt8) : Ensures (ArpPacket.parse raw) (fun _ => True) := by
  refine .guard trivial (fun h => ?_)
  refine .slice (by omega) (by omega) (fun htype _ => ?_)
  refine .guard trivial (fun _ => ?_)
  refine .slice (by omega) (by omega) (fun ptype _ => ?_)
  refine .guard trivial (fun _ => ?_)
  refine .be16 (by omega) (fun op => ?_)
  refine .slice (by omega) (by omega) (fun sha _ => ?_)
  split
  · refine .slice (by omega) (by omega) (fun spa _ => ?_)
    split
    · refine .slice (by omega) (by omega) (fun tha _ => ?_)
      split
      · refine .slice (by omega) (by omega) (fun tpa _ => ?_)
        split
        · exact .pure trivial
        · exact .pure trivial
      · exact .pure trivial
    · exact .pure trivial
  · exact .pure trivial

lemma Ipv4Header.parse_runs (raw : List UInt8) : Ensures (Ipv4Header.parse raw) (fun _ => True) := by
  refine .guard trivial (fun h => ?_)
  refine .index (by omega) (fun versionIhl => ?_)
  refine .guard trivial (fun _ => ?_)
  refine .index (by omega) (fun tos => ?_)
  refine .be16 (by omega) (fun totalLen => ?_)
  refine .be16 (by omega) (fun id => ?_)
  refine .be16 (by omega) (fun flagsFrag => ?_)
  refine .index (by omega) (fun ttl => ?_)
  refine .index (by omega) (fun proto => ?_)
  refine .be16 (by omega) (fun checksum => ?_)
  refine .slice (by omega) (by omega) (fun src _ => ?_)
  split
  · refine .slice (by omega) (by omega) (fun dst _ => ?_)
    split
    · exact .pure trivial
    · exact .pure trivial
  · exact .pure trivial

lemma Ipv4Header.payload_length {h : Ipv4Header} {ipPayload : List UInt8} (hp : h.payload raw = some ipPayload) :
    ipPayload.length ≤ raw.length := by
  unfold payload at hp
  split at hp
  · rw [← Option.some.inj hp, length_drop, length_take]
    omega
  · cases hp

lemma UdpDatagram.parse_runs (raw : List UInt8) :
    Ensures (UdpDatagram.parse raw) (fun o => ∀ udp, o = some udp → udp.payload.length ≤ raw.length) := by
  refine .guard nofun (fun h => ?_)
  refine .be16 (by omega) (fun srcPort => ?_)
  refine .be16 (by omega) (fun dstPort => ?_)
  refine .be16 (by omega) (fun length => ?_)
  refine .guard nofun (fun hl => ?_)
  refine .slice (by omega) (by omega) (fun payload hpay => ?_)
  refine .pure ?_
  rintro udp heq
  rw [← Option.some.inj heq]
  dsimp only
  omega

lemma TcpHeader.parseChecked_eq (raw : List UInt8) : parseChecked raw = .ok (TcpHeader.parse raw) := by
  unfold parseChecked parse
  split
  · rfl
  · rw [index_of_lt (by omega), be16_eq (by omega), be16_eq (by omega), be32_eq (by omega), be32_eq (by omega),
      index_of_lt (by omega), be16_eq (by omega), be16_eq (by omega), be16_eq (by omega),
      getD_eq_getElem _ _ (by omega), getD_eq_getElem _ _ (by omega)]
    rfl

lemma TcpHeader.parseChecked_runs (raw : List UInt8) : Ensures (parseChecked raw) (fun _ => True) :=
  ⟨_, parseChecked_eq raw, trivial⟩

/-! ## Builders -/

lemma putChecksum_runs (h : i + 2 ≤ packet.length) (csum : UInt16) :
    Ensures (putChecksum packet i csum) (fun p => p.length = packet.length) := by
  unfold putChecksum
  rw [set_of_lt (by omega)]
  refine ⟨_, set_of_lt ?_, ?_⟩
  · rw [length_set]
    omega
  · dsimp only
    rw [length_set, length_set]

lemma ipBytes_length (ip : Ip4) : (ipBytes ip).length = 4 := rfl

lemma Ipv4Header.build_runs (proto : UInt8) (src dst : Ip4) (payloadLen : ℕ) :
    Ensures (Ipv4Header.build proto src dst payloadLen) (fun p => p.length = 20) := by
  refine (putChecksum_runs ?_ _).mono (fun p hp => hp.trans ?_)
  · simp [ipBytes_length]
  · simp [ipBytes_length]

lemma buildIcmpEchoReply_runs (id seq : UInt16) (data : List UInt8) :
    Ensures (buildIcmpEchoReply id seq data) (fun _ => True) := by
  exact (putChecksum_runs (by simp) _).mono (fun _ _ => trivial)

lemma TcpSegment.build_runs (seg : TcpSegment) (srcIp : Ip4) :
    Ensures (seg.build srcIp) (fun p => p.length = 20 + seg.payload.length) := by
  refine (putChecksum_runs ?_ _).mono (fun p hp => hp.trans ?_)
  · simp
    omega
  · simp
    omega

lemma TcpSegment.frame_runs (seg : TcpSegment) (ourIp : Ip4) (dstMac ourMac : Mac) :
    Ensures (seg.frame ourIp dstMac ourMac) (fun _ => True) := by
  refine (seg.build_runs ourIp).bind (fun tcp _ => ?_)
  refine (Ipv4Header.build_runs ..).bind (fun ip _ => ?_)
  exact .pure trivial

/-! ## DNS replies -/

section Dns
variable (hlen : data.length < 2 ^ 63)
include hlen

lemma skipLabels_runs (pointers : Bool) (hpos : pos ≤ data.length) (hfuel : data.length < pos + fuel) :
    Ensures (skipLabels pointers data fuel pos) (fun p => p ≤ data.length + 256) := by
  induction fuel generalizing pos with
  | zero => omega
  | succ fuel ih =>
    refine .guard (by omega) (fun h => ?_)
    refine .index (by omega) (fun len => ?_)
    have hbyte : len.toNat < 256 := len.toNat_lt
    refine .ite (fun _ => (ensures_add (by omega)).mono (fun p hp => by omega)) (fun _ => ?_)
    refine .ite (fun _ => (ensures_add (by omega)).mono (fun p hp => by omega)) (fun _ => ?_)
    refine .add (by omega) (fun next hnext => ?_)
    by_cases hin : next ≤ data.length
    · exact ih hin (by omega)
    · -- the label reaches behind the packet, and the next turn is the last
      cases fuel with
      | zero => omega
      | succ fuel =>
        unfold skipLabels
        rw [if_pos (by omega)]
        exact .pure (by omega)

lemma skipName_runs (hpos : pos < data.length) : Ensures (skipName data pos) (fun p => p ≤ data.length + 256) := by
  refine .index hpos (fun first => ?_)
  refine .ite (fun _ => (ensures_add (by omega)).mono (fun p hp => by omega)) (fun _ => ?_)
  exact skipLabels_runs hlen false (le_of_lt hpos) (by omega)

lemma isAddress_runs (rtype rdlength : UInt16) (hpos : pos ≤ data.length) :
    Ensures (isAddress data rtype rdlength pos) (fun b => b = true → pos + 4 ≤ data.length) := by
  refine .guard nofun (fun _ => ?_)
  refine .add (by omega) (fun stop hstop => ?_)
  refine .pure (fun hb => ?_)
  rw [← hstop]
  exact of_decide_eq_true hb

lemma dnsAnswers_runs (count : ℕ) (hpos : pos ≤ data.length + 65536) : Ensures (dnsAnswers data count pos) (fun _ => True) := by
  induction count generalizing pos with
  | zero => exact .pure trivial
  | succ count ih =>
    refine .add (by omega) (fun head hhead => ?_)
    refine .guard trivial (fun h => ?_)
    refine (skipName_runs hlen (by omega)).bind (fun pos hpos => ?_)
    refine .add (by omega) (fun head hhead => ?_)
    refine .guard trivial (fun h => ?_)
    refine .be16 (by omega) (fun rtype => ?_)
    refine (be32_runs (by omega)).bind (fun ttl _ => ?_)
    refine .be16 (by omega) (fun rdlength => ?_)
    have hrd : rdlength.toNat < 65536 := rdlength.toNat_lt
    refine .add (by omega) (fun pos hpos => ?_)
    refine (isAddress_runs hlen rtype rdlength (by omega)).bind (fun isAddr haddr => ?_)
    refine .ite (fun hb => ?_) (fun _ => ?_)
    · exact (ip4At_runs (haddr hb)).bind (fun ip _ => .pure trivial)
    · exact .add (by omega) (fun next hnext => ih (by omega))

lemma parseDnsReply_runs : Ensures (parseDnsReply data) (fun _ => True) := by
  refine .guard trivial (fun h => ?_)
  refine .be16 (by omega) (fun flags => ?_)
  refine .guard trivial (fun _ => ?_)
  refine .be16 (by omega) (fun ancount => ?_)
  refine .guard trivial (fun _ => ?_)
  refine (skipLabels_runs hlen true (by omega) (by omega)).bind (fun pos hpos => ?_)
  refine .add (by omega) (fun pos hpos => ?_)
  exact dnsAnswers_runs hlen ancount.toNat (by omega)

end Dns

/-! ## DHCP replies -/

lemma fourBytes_runs (o : DhcpOptions) (put : Ip4 → DhcpOptions) : Ensures (fourBytes val o put) (fun _ => True) := by
  refine .guard trivial (fun h => ?_)
  exact (ip4At_runs (by omega)).bind (fun bytes _ => .pure trivial)

lemma dhcpOption_runs (o : DhcpOptions) (opt : UInt8) (val : List UInt8) : Ensures (dhcpOption o opt val) (fun _ => True) := by
  refine .ite (fun _ => ?_) (fun _ => ?_)
  · refine .guard trivial (fun h => ?_)
    exact .index (length_pos_iff.mpr h) (fun msgType => .pure trivial)
  refine .ite (fun _ => fourBytes_runs o _) (fun _ => ?_)
  refine .ite (fun _ => fourBytes_runs o _) (fun _ => ?_)
  refine .ite (fun _ => fourBytes_runs o _) (fun _ => ?_)
  exact .ite (fun _ => fourBytes_runs o _) (fun _ => .pure trivial)

lemma dhcpLoop_runs (hlen : data.length < 2 ^ 63) (o : DhcpOptions) (hpos : pos ≤ data.length + 257)
    (hfuel : data.length < pos + fuel) (hone : 0 < fuel) : Ensures (dhcpLoop data fuel pos o) (fun _ => True) := by
  induction fuel generalizing pos o with
  | zero => omega
  | succ fuel ih =>
    refine .guard trivial (fun h => ?_)
    refine .index (by omega) (fun opt => ?_)
    refine .guard trivial (fun _ => ?_)
    refine .add (by omega) (fun next hnext => ?_)
    refine .ite (fun _ => ih o (by omega) (by omega) (by omega)) (fun _ => ?_)
    refine .guard trivial (fun h => ?_)
    refine .index (by omega) (fun len => ?_)
    have hbyte : len.toNat < 256 := len.toNat_lt
    refine .add (by omega) (fun start hstart => ?_)
    refine .add (by omega) (fun stop hstop => ?_)
    refine .slice (by omega) (by omega) (fun val _ => ?_)
    refine (dhcpOption_runs o opt val).bind (fun o _ => ?_)
    refine .add (by omega) (fun next hnext => ?_)
    exact ih o (by omega) (by omega) (by omega)

lemma parseDhcpOptions_runs (hlen : data.length < 2 ^ 63) : Ensures (parseDhcpOptions data) (fun _ => True) := by
  refine .guard trivial (fun h => ?_)
  refine .slice (by omega) (by omega) (fun cookie _ => ?_)
  refine .guard trivial (fun _ => ?_)
  refine (ip4At_runs (by omega)).bind (fun yourIp _ => ?_)
  refine (ip4At_runs (by omega)).bind (fun serverIp _ => ?_)
  refine (dhcpLoop_runs hlen _ (by omega) (by omega) (by omega)).bind (fun o _ => ?_)
  exact Ensures.guard trivial (fun _ => .pure trivial)

/-! ## Frames -/

namespace NetStack

variable (s : NetStack) (now : ℕ) (score : OwnerScore) (srcMac : Mac) (src : Ip4)

lemma handleArp_runs (payload : List UInt8) : Ensures (s.handleArp now srcMac payload) (fun _ => True) := by
  refine (ArpPacket.parse_runs payload).bind (fun o _ => ?_)
  split
  · refine .guard trivial (fun _ => ?_)
    exact Ensures.guard trivial (fun _ => .pure trivial)
  · exact .pure trivial

lemma handleIcmp_runs (ipPayload : List UInt8) : Ensures (s.handleIcmp now srcMac src ipPayload) (fun _ => True) := by
  refine .guard trivial (fun h => ?_)
  refine .index (by omega) (fun icmpType => ?_)
  refine .ite (fun _ => ?_) (fun _ => ?_)
  · refine .be16 (by omega) (fun id => ?_)
    refine .be16 (by omega) (fun seq => ?_)
    exact Ensures.guard trivial (fun _ => .pure trivial)
  · refine .guard trivial (fun _ => ?_)
    refine .be16 (by omega) (fun id => ?_)
    refine .be16 (by omega) (fun seq => ?_)
    refine .sliceFrom (by omega) (fun data _ => ?_)
    refine (buildIcmpEchoReply_runs id seq data).bind (fun icmpReply _ => ?_)
    exact (build_runs ..).bind (fun ip _ => .pure trivial)

lemma dnsArrives_runs (hlen : data.length < 2 ^ 63) : Ensures (s.dnsArrives data) (fun _ => True) := by
  refine (parseDnsReply_runs hlen).bind (fun o _ => ?_)
  split
  · exact .pure trivial
  · exact .pure trivial

lemma dhcpArrives_runs (hlen : data.length < 2 ^ 63) : Ensures (s.dhcpArrives data) (fun _ => True) := by
  refine (parseDhcpOptions_runs hlen).bind (fun o _ => ?_)
  split
  · exact .pure trivial
  · exact .pure trivial

lemma handleUdp_runs (hlen : data.length < 2 ^ 63) : Ensures (s.handleUdp data) (fun _ => True) := by
  refine (UdpDatagram.parse_runs data).bind (fun o ho => ?_)
  split
  · next udp =>
    have hpay : udp.payload.length < 2 ^ 63 := lt_of_le_of_lt (ho udp rfl) hlen
    have hdhcp : ∀ s : NetStack, Ensures
        (do let s ← if udp.srcPort = 67 ∧ udp.dstPort = 68 ∧ s.dhcpPending then s.dhcpArrives udp.payload else pure s
            return ((none, s) : FrameResult)) (fun _ => True) := by
      intro s
      refine .ite (fun _ => ?_) (fun _ => .pure trivial)
      exact (s.dhcpArrives_runs hpay).bind (fun _ _ => .pure trivial)
    refine .ite (fun _ => ?_) (fun _ => ?_)
    · exact (s.dnsArrives_runs hpay).bind (fun s _ => hdhcp s)
    · exact hdhcp s
  · exact .pure trivial

lemma handleTcp_runs (raw : List UInt8) : Ensures (s.handleTcp score srcMac src raw) (fun _ => True) := by
  refine (parseChecked_runs raw).bind (fun o _ => ?_)
  split
  · next h =>
    refine .sliceFrom (min_le_right _ _) (fun _ _ => ?_)
    split
    · exact .pure trivial
    · next seg tcp _ => exact (seg.frame_runs ..).bind (fun frame _ => .pure trivial)
  · exact .pure trivial

lemma handleIpv4_runs (hlen : data.length < 2 ^ 63) : Ensures (s.handleIpv4 now score srcMac data) (fun _ => True) := by
  refine (parse_runs data).bind (fun o _ => ?_)
  split
  · next iph =>
    refine .guard trivial (fun _ => ?_)
    split
    · next ipPayload hp =>
      have hpay : ipPayload.length < 2 ^ 63 := lt_of_le_of_lt (payload_length hp) hlen
      refine .ite (fun _ => handleIcmp_runs ..) (fun _ => ?_)
      refine .ite (fun _ => handleUdp_runs _ hpay) (fun _ => ?_)
      exact .ite (fun _ => handleTcp_runs ..) (fun _ => .pure trivial)
    · exact .pure trivial
  · exact .pure trivial

lemma handleFrame_runs (hlen : raw.length < 2 ^ 63) : Ensures (s.handleFrame now score raw) (fun _ => True) := by
  refine (EthFrame.parse_runs raw).bind (fun o ho => ?_)
  split
  · next eth =>
    refine .ite (fun _ => handleArp_runs ..) (fun _ => ?_)
    refine .ite (fun _ => ?_) (fun _ => .pure trivial)
    exact handleIpv4_runs _ _ _ _ (lt_of_le_of_lt (ho eth rfl) hlen)
  · exact .pure trivial

/-- No access to the bytes of a frame is out of range, no index overflows and every loop ends. -/
theorem handleFrame_completes (frame : ByteSlice) : ∃ result, s.handleFrame now score frame.1 = .ok result := by
  obtain ⟨result, hok, -⟩ := s.handleFrame_runs now score frame.2
  exact ⟨result, hok⟩

end NetStack

end NodeKernel
