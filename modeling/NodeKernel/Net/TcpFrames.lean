import NodeKernel.Lib.OnesComplement
import NodeKernel.Net.PacketSafety
import NodeKernel.Net.TcpDelivery

/-!
# The frames of `tcp::send`

The frame of a segment is read back by the parsers on the way of an incoming frame. The length field of the IPv4 header
has 16 bits, and `send` does not leave room for the two headers.
-/
namespace NodeKernel

open Checked EthFrame TcpHeader

section Frames
open List

/-- What the parsers of an incoming frame make of it. -/
structure TcpFrame where
  eth : EthFrame
  ip : Ipv4Header
  tcp : TcpHeader
  data : List UInt8

/-- The way of a TCP frame through `handle_frame`, `handle_ipv4` and `handle_tcp_segment`. -/
def TcpFrame.parse (raw : List UInt8) : Checked (Option TcpFrame) := do
  let some eth ← EthFrame.parse raw | return none
  let some ip ← Ipv4Header.parse eth.payload | return none
  let some ipPayload := ip.payload eth.payload | return none
  let some tcp ← TcpHeader.parseChecked ipPayload | return none
  let data ← sliceFrom ipPayload (min tcp.headerLen ipPayload.length)
  return some ⟨eth, ip, tcp, data⟩

section Parse
variable {raw ipPayload data : List UInt8} {eth : EthFrame} {ip : Ipv4Header} {tcp : TcpHeader}
  (heth : EthFrame.parse raw = .ok (some eth)) (hip : Ipv4Header.parse eth.payload = .ok (some ip))
include heth hip

lemma TcpFrame.parse_of (hp : ip.payload eth.payload = some ipPayload)
    (htcp : TcpHeader.parseChecked ipPayload = .ok (some tcp))
    (hdata : sliceFrom ipPayload (min tcp.headerLen ipPayload.length) = .ok data) :
    TcpFrame.parse raw = .ok (some ⟨eth, ip, tcp, data⟩) := by
  simp only [TcpFrame.parse, heth, hip, hp, htcp, hdata, bind, Except.bind]
  rfl

lemma TcpFrame.parse_of_short (hp : ∀ ipPayload, ip.payload eth.payload = some ipPayload → ipPayload.length < 20) :
    TcpFrame.parse raw = .ok none := by
  simp only [TcpFrame.parse, heth, hip, bind, Except.bind]
  cases hpay : ip.payload eth.payload with
  | none => rfl
  | some ipPayload =>
    have htcp : parseChecked ipPayload = .ok none := by
      unfold parseChecked
      rw [if_pos (hp ipPayload hpay)]
      rfl
    simp only [htcp]
    rfl

end Parse

/-! ## Numbers -/

lemma ofBe_toBe_word (v : ℕ) : UInt16.ofNat (ofBe (toBe 2 v)) = UInt16.ofNat v := by
  rw [ofBe_toBe]
  exact UInt16.ofNat_mod_size

lemma ofBe_toBe_uint16 (v : UInt16) : UInt16.ofNat (ofBe (toBe 2 v.toNat)) = v := by
  rw [ofBe_toBe_word, UInt16.ofNat_toNat]

lemma ofBe_toBe_uint32 (v : UInt32) : UInt32.ofNat (ofBe (toBe 4 v.toNat)) = v := by
  rw [ofBe_toBe]
  exact UInt32.ofNat_mod_size.trans UInt32.ofNat_toNat

lemma toBe_two (v : ℕ) : ∃ a b, toBe 2 v = [a, b] := ⟨_, _, rfl⟩

lemma toBe_four (v : ℕ) : ∃ a b c d, toBe 4 v = [a, b, c, d] := ⟨_, _, _, _, rfl⟩

lemma putChecksum_append {front : List UInt8} {n : ℕ} (hn : front.length = n) (a b : UInt8) (rest : List UInt8)
    (csum : UInt16) : putChecksum (front ++ [a, b] ++ rest) n csum =
      .ok (front ++ [(csum >>> 8).toUInt8, (csum &&& 0xFF).toUInt8] ++ rest) := by
  subst hn
  rw [append_assoc, append_assoc]
  unfold putChecksum
  rw [set_of_lt (by simp)]
  change Checked.set _ _ _ = _
  rw [set_of_lt (by simp), set_append_right _ _ (Nat.le_refl _), Nat.sub_self, set_append_right _ _ (by omega),
    Nat.add_sub_cancel_left]
  rfl

/-! ## Headers -/

lemma EthFrame.parse_build (dst src : Mac) (ethertype : UInt16) (payload : List UInt8) :
    EthFrame.parse (EthFrame.build dst src ethertype payload) = .ok (some ⟨dst, src, ethertype, payload⟩) := by
  have hlen : (build dst src ethertype payload).length = 14 + payload.length := by
    simp [build, macBytes]
    omega
  unfold parse
  rw [if_neg (by omega), slice_of_le (by omega) (by omega), slice_of_le (by omega) (by omega), sliceFrom_of_le (by omega)]
  exact congrArg (fun code => Except.ok (some (⟨dst, src, code, payload⟩ : EthFrame))) (ofBe_toBe_uint16 ethertype)

def Ipv4Header.bytes (proto c d : UInt8) (src dst : Ip4) (total : ℕ) : List UInt8 :=
  [0x45, 0] ++ toBe 2 total ++ [0, 1] ++ [0x40, 0] ++ [64, proto] ++ [c, d] ++ ipBytes src ++ ipBytes dst

lemma Ipv4Header.bytes_length (proto c d : UInt8) (src dst : Ip4) (total : ℕ) :
    (Ipv4Header.bytes proto c d src dst total).length = 20 := rfl

lemma Ipv4Header.build_eq (proto : UInt8) (src dst : Ip4) (n : ℕ) :
    ∃ c d, Ipv4Header.build proto src dst n = .ok (Ipv4Header.bytes proto c d src dst (20 + n)) := ⟨_, _, rfl⟩

lemma Ipv4Header.parse_bytes (proto c d : UInt8) (src dst : Ip4) (total : ℕ) (rest : List UInt8) :
    Ipv4Header.parse (Ipv4Header.bytes proto c d src dst total ++ rest) =
      .ok (some ⟨5, 0, UInt16.ofNat total, 1, 0x4000, 64, proto, UInt16.ofNat (ofBe [c, d]), src, dst⟩) := by
  have hlen : (Ipv4Header.bytes proto c d src dst total ++ rest).length = 20 + rest.length := by
    rw [length_append, Ipv4Header.bytes_length]
  have htotal := ofBe_toBe_word total
  obtain ⟨t₀, t₁, ht⟩ := toBe_two total
  unfold Ipv4Header.parse
  rw [if_neg (by omega), slice_of_le (by omega) (by omega), slice_of_le (by omega) (by omega)]
  unfold Ipv4Header.bytes
  rw [ht] at htotal ⊢
  rw [← htotal]
  rfl

namespace TcpSegment

def bytes (seg : TcpSegment) (c d : UInt8) : List UInt8 :=
  toBe 2 seg.srcPort.toNat ++ toBe 2 seg.dstPort.toNat ++ toBe 4 seg.seq.toNat ++ toBe 4 seg.ack.toNat ++
    [0x50, seg.flags] ++ toBe 2 seg.window.toNat ++ [c, d] ++ [0, 0] ++ seg.payload

lemma bytes_length (seg : TcpSegment) (c d : UInt8) : (seg.bytes c d).length = 20 + seg.payload.length := by
  simp [bytes]
  omega

lemma build_eq (seg : TcpSegment) (srcIp : Ip4) : ∃ c d, seg.build srcIp = .ok (seg.bytes c d) := by
  unfold build bytes
  simp only [append_assoc _ [0, 0] seg.payload]
  exact ⟨_, _, putChecksum_append (by simp) 0 0 _ _⟩

def header (seg : TcpSegment) : TcpHeader := ⟨seg.srcPort, seg.dstPort, seg.seq, seg.ack, 5, seg.flags, seg.window⟩

lemma parse_bytes (seg : TcpSegment) (c d : UInt8) : TcpHeader.parseChecked (seg.bytes c d) = .ok (some seg.header) := by
  have hlen := seg.bytes_length c d
  have hsrc := ofBe_toBe_uint16 seg.srcPort
  have hdst := ofBe_toBe_uint16 seg.dstPort
  have hseq := ofBe_toBe_uint32 seg.seq
  have hack := ofBe_toBe_uint32 seg.ack
  have hwindow := ofBe_toBe_uint16 seg.window
  unfold parseChecked header
  rw [if_neg (by omega)]
  unfold bytes
  obtain ⟨s₀, s₁, hs⟩ := toBe_two seg.srcPort.toNat
  obtain ⟨d₀, d₁, hd⟩ := toBe_two seg.dstPort.toNat
  obtain ⟨q₀, q₁, q₂, q₃, hq⟩ := toBe_four seg.seq.toNat
  obtain ⟨a₀, a₁, a₂, a₃, ha⟩ := toBe_four seg.ack.toNat
  obtain ⟨w₀, w₁, hw⟩ := toBe_two seg.window.toNat
  rw [hs] at hsrc ⊢
  rw [hd] at hdst ⊢
  rw [hq] at hseq ⊢
  rw [ha] at hack ⊢
  rw [hw] at hwindow ⊢
  rw [← hsrc, ← hdst, ← hseq, ← hack, ← hwindow]
  rfl

end TcpSegment

/-! ## Whole frames -/

def TcpSegment.ipHeader (seg : TcpSegment) (ourIp : Ip4) (c d : UInt8) : Ipv4Header :=
  ⟨5, 0, UInt16.ofNat (40 + seg.payload.length), 1, 0x4000, 64, ipProtoTcp, UInt16.ofNat (ofBe [c, d]), ourIp, seg.dstIp⟩

section Frames
variable (seg : TcpSegment) (ourIp : Ip4) (dstMac ourMac : Mac) (c d c' d' : UInt8)

def TcpSegment.packet : List UInt8 :=
  Ipv4Header.bytes ipProtoTcp c d ourIp seg.dstIp (40 + seg.payload.length) ++ seg.bytes c' d'

lemma TcpSegment.frame_eq : ∃ c d c' d', seg.frame ourIp dstMac ourMac =
    .ok (EthFrame.build dstMac ourMac ethertypeIpv4 (seg.packet ourIp c d c' d')) := by
  obtain ⟨c', d', htcp⟩ := seg.build_eq ourIp
  obtain ⟨c, d, hip⟩ := Ipv4Header.build_eq ipProtoTcp ourIp seg.dstIp (seg.bytes c' d').length
  have htotal : 20 + (seg.bytes c' d').length = 40 + seg.payload.length := by
    rw [seg.bytes_length]
    omega
  rw [htotal] at hip
  refine ⟨c, d, c', d', ?_⟩
  simp only [frame, htcp, hip, bind, Except.bind]
  rfl

lemma TcpSegment.packet_length : (seg.packet ourIp c d c' d').length = 40 + seg.payload.length := by
  rw [packet, length_append, Ipv4Header.bytes_length, seg.bytes_length]
  omega

lemma TcpSegment.parse_packet : Ipv4Header.parse (seg.packet ourIp c d c' d') = .ok (some (seg.ipHeader ourIp c d)) :=
  Ipv4Header.parse_bytes ..

lemma TcpSegment.ipHeader_totalLen :
    (seg.ipHeader ourIp c d).totalLen.toNat = (40 + seg.payload.length) % 65536 := UInt16.toNat_ofNat'

lemma TcpSegment.parse_frame (hfit : seg.payload.length ≤ 65495) :
    ∃ frame f, seg.frame ourIp dstMac ourMac = .ok frame ∧ TcpFrame.parse frame = .ok (some f) ∧
      f.eth.dstMac = dstMac ∧ f.eth.srcMac = ourMac ∧ f.eth.ethertype = ethertypeIpv4 ∧ f.ip.proto = ipProtoTcp ∧
      f.ip.src = ourIp ∧ f.ip.dst = seg.dstIp ∧ f.tcp = seg.header ∧ f.data = seg.payload := by
  obtain ⟨c, d, c', d', hframe⟩ := seg.frame_eq ourIp dstMac ourMac
  have hlen := seg.bytes_length c' d'
  have hpayload : (seg.ipHeader ourIp c d).payload (seg.packet ourIp c d c' d') = some (seg.bytes c' d') := by
    have hhead : (seg.ipHeader ourIp c d).headerLen = 20 := rfl
    have hpacket := seg.packet_length ourIp c d c' d'
    unfold Ipv4Header.payload
    rw [seg.ipHeader_totalLen, Nat.mod_eq_of_lt (by omega), hhead, if_pos ⟨by omega, by omega⟩, take_of_length_le (by omega)]
    rfl
  have hdata : sliceFrom (seg.bytes c' d') (min seg.header.headerLen (seg.bytes c' d').length) = .ok seg.payload := by
    have hhead : seg.header.headerLen = 20 := rfl
    rw [hhead, Nat.min_eq_left (by omega), sliceFrom_of_le (by omega)]
    rfl
  exact ⟨_, _, hframe, TcpFrame.parse_of (parse_build ..) (seg.parse_packet ..) hpayload (seg.parse_bytes c' d')
    hdata, rfl, rfl, rfl, rfl, rfl, rfl, rfl, rfl⟩

lemma TcpSegment.parse_frame_of_long (hlong : 65495 < seg.payload.length) (hmax : seg.payload.length ≤ 65535) :
    ∃ frame, seg.frame ourIp dstMac ourMac = .ok frame ∧ TcpFrame.parse frame = .ok none := by
  obtain ⟨c, d, c', d', hframe⟩ := seg.frame_eq ourIp dstMac ourMac
  refine ⟨_, hframe, TcpFrame.parse_of_short (parse_build ..) (seg.parse_packet ..) ?_⟩
  intro ipPayload hp
  have hhead : (seg.ipHeader ourIp c d).headerLen = 20 := rfl
  unfold Ipv4Header.payload at hp
  rw [seg.ipHeader_totalLen, hhead] at hp
  split at hp
  · rw [← Option.some.inj hp, length_drop, length_take]
    omega
  · cases hp

end Frames

namespace TcpSocket

/-- The frame of a call of `send` is read back as the segment that was meant, with the bytes that `send` reports as
sent. -/
def SendReadsBack (key : TcpSocketKey) (sock : TcpSocket) (data : List UInt8) (now : ℕ) (ourIp : Ip4)
    (dstMac ourMac : Mac) : Prop :=
  ∀ seg, (sock.send key data now).2 = some seg →
    ∃ frame f, seg.frame ourIp dstMac ourMac = .ok frame ∧ TcpFrame.parse frame = .ok (some f) ∧
      f.eth.dstMac = dstMac ∧ f.eth.srcMac = ourMac ∧ f.eth.ethertype = ethertypeIpv4 ∧ f.ip.proto = ipProtoTcp ∧
      f.ip.src = ourIp ∧ f.ip.dst = key.remoteIp ∧ f.tcp.srcPort = key.localPort ∧ f.tcp.dstPort = key.remotePort ∧
      f.tcp.seq = sock.sndNxt ∧ f.tcp.ack = sock.rcvNxt ∧ f.data = data.take seg.payload.length

variable {key : TcpSocketKey} {sock : TcpSocket} {data : List UInt8} {now : ℕ} {ourIp : Ip4} {dstMac ourMac : Mac}

lemma length_take_allowed (data : List UInt8) : (data.take sock.allowed).length ≤ 65495 ↔
    data.length ≤ 65495 ∨ sock.aiCwnd ≤ 65495 ∨ sock.sndWnd.toNat ≤ 65495 := by
  have hmss : Tcp.mss.toNat = 1460 := rfl
  rw [length_take]
  unfold allowed aiCwnd
  omega

lemma send_of_up (hup : sock.state = .established ∨ sock.state = .accepted) :
    (sock.send key data now).2 = some (makeReply key sock (Tcp.psh ||| Tcp.ack) (data.take sock.allowed)) := by
  unfold send
  rw [if_pos hup]

lemma sendReadsBack_of_fits (h : (data.take sock.allowed).length ≤ 65495) :
    sock.SendReadsBack key data now ourIp dstMac ourMac := by
  intro seg hseg
  unfold send at hseg
  split at hseg
  · obtain rfl := Option.some.inj hseg
    obtain ⟨frame, f, hframe, hf, hdst, hsrc, hcode, hproto, hfrom, hto, htcp, hdata⟩ :=
      (makeReply key sock (Tcp.psh ||| Tcp.ack) (data.take sock.allowed)).parse_frame ourIp dstMac ourMac h
    refine ⟨frame, f, hframe, hf, hdst, hsrc, hcode, hproto, hfrom, hto, ?_, ?_, ?_, ?_, ?_⟩
    · rw [htcp]; rfl
    · rw [htcp]; rfl
    · rw [htcp]; rfl
    · rw [htcp]; rfl
    · rw [hdata]
      change data.take sock.allowed = data.take (data.take sock.allowed).length
      rw [length_take, ← take_eq_take_min]
  · cases hseg

lemma not_sendReadsBack_of_long (hup : sock.state = .established ∨ sock.state = .accepted)
    (h : 65495 < (data.take sock.allowed).length) : ¬ sock.SendReadsBack key data now ourIp dstMac ourMac := by
  intro hr
  obtain ⟨frame, f, hframe, hf, -⟩ := hr _ (send_of_up hup)
  obtain ⟨frame', hframe', hnone⟩ := (makeReply key sock (Tcp.psh ||| Tcp.ack) (data.take sock.allowed)).parse_frame_of_long
    ourIp dstMac ourMac h (Nat.le_trans (length_take_le _ _) sock.allowed_le)
  rw [hframe] at hframe'
  rw [← Except.ok.inj hframe', hf] at hnone
  cases hnone

theorem sendReadsBack_iff (key : TcpSocketKey) (sock : TcpSocket) (data : List UInt8) (now : ℕ) (ourIp : Ip4)
    (dstMac ourMac : Mac) : sock.SendReadsBack key data now ourIp dstMac ourMac ↔
      ¬ (sock.state = .established ∨ sock.state = .accepted) ∨
        data.length ≤ 65495 ∨ sock.aiCwnd ≤ 65495 ∨ sock.sndWnd.toNat ≤ 65495 := by
  rw [← length_take_allowed data]
  constructor
  · intro hr
    by_contra hc
    rw [not_or, not_not, Nat.not_le] at hc
    exact not_sendReadsBack_of_long hc.1 hc.2 hr
  · rintro (hdown | hfit)
    · intro seg hseg
      unfold send at hseg
      rw [if_neg hdown] at hseg
      cases hseg
    · exact sendReadsBack_of_fits hfit

def wideOpen : TcpSocket where
  state := .established
  sndNxt := 1
  sndUna := 1
  rcvNxt := 1
  sndWnd := 65535
  rcvBuf := []
  cwnd := 65535
  ssthresh := 65535
  lastSendMs := 0
  rtoMs := 1000
  retransmitBuf := []
  ownerPid := 0
  aiCwndMul := 100

/-- A buffer as long as the windows allow. -/
theorem wideOpen_not_read_back : ¬ wideOpen.SendReadsBack ⟨80, (10, 0, 2, 2), 4000⟩ (List.replicate 65535 0) 1
    (10, 0, 2, 15) (255, 255, 255, 255, 255, 255) (0, 0, 0, 0, 0, 1) := by
  refine not_sendReadsBack_of_long (.inl rfl) ?_
  have hallowed : wideOpen.allowed = 65535 := by decide
  rw [hallowed, length_take, length_replicate]
  decide

end TcpSocket

end Frames

/-! ## Checksums -/

open OnesComplement

lemma wordSum_eq (s : UInt32) (l : List UInt8) : wordSum s l = s + UInt32.ofNat (words l).sum := by
  fun_induction wordSum s l with
  | case1 => exact (UInt32.add_zero _).symm
  | case2 s a =>
    refine congrArg (s + ·) (UInt32.toNat_inj.mp ?_)
    have := a.toNat_lt
    simp [words, ofBe_pair, Nat.shiftLeft_eq]
  | case3 s a b rest ih => rw [ih, words, List.sum_cons, UInt32.ofNat_add, UInt32.add_assoc]

lemma foldCarry_eq (n : ℕ) : foldCarry n = fold n := by
  fun_induction foldCarry n with
  | case1 n h => exact (fold_of_lt (by omega)).symm
  | case2 n _ ih => rw [ih, fold_carry]

lemma ipv4Checksum_toNat {packet : List UInt8} (h : packet.length < 65536) :
    (ipv4Checksum packet).toNat = 65535 - fold (words packet).sum := by
  have hle := sum_words_le packet
  have hlt := fold_lt (words packet).sum
  unfold ipv4Checksum
  rw [wordSum_eq, UInt32.zero_add, UInt32.toNat_ofNat_of_lt' (by change _ < 4294967296; omega), foldCarry_eq, UInt16.toNat_not,
    UInt16.toNat_ofNat_of_lt' (by exact hlt)]
  rfl

lemma ofBe_halves (v : UInt16) : ofBe [(v >>> 8).toUInt8, (v &&& 0xFF).toUInt8] = v.toNat := by
  have := v.toNat_lt
  rw [ofBe_pair]
  simp [Nat.shiftRight_eq_div_pow, Nat.and_two_pow_sub_one_eq_mod _ 8]
  omega

/-- A checksum over what is put in front of a packet and the packet, put at an even place, makes the sum all ones. -/
theorem putChecksum_sum (pseudo front rest : List UInt8) {packet : List UInt8} {n : ℕ} (hp : packet = front ++ [0, 0] ++ rest)
    (hn : front.length = n) (heven : (pseudo ++ front).length % 2 = 0) (hlen : (pseudo ++ packet).length < 65536) :
    ∃ p, putChecksum packet n (ipv4Checksum (pseudo ++ packet)) = .ok p ∧ p.length = packet.length ∧
      sum (pseudo ++ p) = 0xFFFF := by
  have hcsum := ipv4Checksum_toNat hlen
  refine ⟨_, by rw [hp]; exact putChecksum_append hn 0 0 rest _, by simp [hp], ?_⟩
  have hwords (c d : UInt8) : (words (pseudo ++ (front ++ [c, d] ++ rest))).sum =
      (words (pseudo ++ front)).sum + (words rest).sum + ofBe [c, d] := by
    rw [List.append_assoc front, ← List.append_assoc pseudo, words_append heven, List.sum_append]
    simp only [List.cons_append, List.nil_append, words, List.sum_cons]
    omega
  rw [sum_eq, hwords, ofBe_halves, ← hp, hcsum, hp, hwords, ofBe_pair]
  exact fold_complement _

def pseudoHeader (srcIp dstIp : Ip4) (length : ℕ) : List UInt8 :=
  ipBytes srcIp ++ ipBytes dstIp ++ [0, ipProtoTcp] ++ toBe 2 length

/-- The headers, messages and segments of a datagram that has a length of 16 bits pass the check of a receiver. -/
theorem checksums_valid : (∀ proto src dst n, ∃ h, Ipv4Header.build proto src dst n = .ok h ∧ sum h = 0xFFFF) ∧
      (∀ id seq data, 28 + data.length < 65536 → (∃ p, buildIcmpEchoReply id seq data = .ok p ∧ sum p = 0xFFFF) ∧
        ∃ p, buildIcmpEchoRequest id seq data = .ok p ∧ sum p = 0xFFFF) ∧
      ∀ (seg : TcpSegment) srcIp, 40 + seg.payload.length < 65536 →
        ∃ p, seg.build srcIp = .ok p ∧ sum (pseudoHeader srcIp seg.dstIp p.length ++ p) = 0xFFFF := by
  refine ⟨fun proto src dst n => ?_, fun id seq data hdata => ⟨?_, ?_⟩, fun seg srcIp hseg => ?_⟩
  · obtain ⟨h, hbuild, -, hsum⟩ := putChecksum_sum [] ([0x45, 0] ++ toBe 2 (20 + n) ++ [0, 1, 0x40, 0, 64, proto])
      (ipBytes src ++ ipBytes dst) rfl rfl (by simp) (by simp [ipBytes])
    exact ⟨h, hbuild, hsum⟩
  · obtain ⟨p, hbuild, -, hsum⟩ := putChecksum_sum [] [0, 0] (toBe 2 id.toNat ++ toBe 2 seq.toNat ++ data) rfl rfl rfl
      (by simp; omega)
    exact ⟨p, hbuild, hsum⟩
  · obtain ⟨p, hbuild, -, hsum⟩ := putChecksum_sum [] [8, 0] (toBe 2 id.toNat ++ toBe 2 seq.toNat ++ data) rfl rfl rfl
      (by simp; omega)
    exact ⟨p, hbuild, hsum⟩
  · obtain ⟨p, hbuild, hlen, hsum⟩ := putChecksum_sum (pseudoHeader srcIp seg.dstIp (seg.bytes 0 0).length)
      (toBe 2 seg.srcPort.toNat ++ toBe 2 seg.dstPort.toNat ++ toBe 4 seg.seq.toNat ++ toBe 4 seg.ack.toNat ++
        [0x50, seg.flags] ++ toBe 2 seg.window.toNat) ([0, 0] ++ seg.payload) (rfl : seg.bytes 0 0 = _) rfl
      (by simp [pseudoHeader, ipBytes]) (by simp [pseudoHeader, ipBytes, TcpSegment.bytes]; omega)
    exact ⟨p, hbuild, by rw [hlen]; exact hsum⟩

end NodeKernel
