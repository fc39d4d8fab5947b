import NodeKernel.Lib.Run
import NodeKernel.Net.PacketSafety

/-!
# The DHCP client

`dhcp_request` of `kernel/src/net.rs` with the datagrams that come in while it waits. It takes whatever stands in the
mailbox for the answer to its last message.
-/
namespace NodeKernel

open Checked List

def dhcpXid : UInt32 := 0x4E4F4445

def buildDhcpMsg (msgType : UInt8) (ourMac : Mac) (requestedIp : Option Ip4) : List UInt8 :=
  let packet := [1, 1, 6, 0] ++ toBe 4 dhcpXid.toNat ++ [0, 0] ++ [0x80, 0x00] ++ List.replicate 16 0 ++ macBytes ourMac ++
    List.replicate 10 0 ++ List.replicate 64 0 ++ List.replicate 128 0 ++ magicCookie ++ [53, 1, msgType] ++
    requestedIp.elim [] (fun ip => [50, 4] ++ ipBytes ip) ++ [55, 4, 1, 3, 6, 51] ++ [255]
  packet ++ List.replicate (300 - packet.length) 0

structure RouteEntry where
  destination : Ip4
  netmask : Ip4
  gateway : Ip4
  iface : String
  deriving DecidableEq

/-- Where `dhcp_request` stands: not running, or waiting for the answer to its first or its second message. -/
inductive DhcpPhase
  | idle
  | offer
  | ack (requested : Ip4)
  deriving DecidableEq

structure DhcpClient where
  stack : NetStack
  routes : List RouteEntry
  dnsServer : Ip4
  phase : DhcpPhase
  /-- The DHCP messages that have come in since the client sent its last one. -/
  heard : List (List UInt8)

inductive DhcpEvent
  | request
  | datagram (raw : ByteSlice)
  | check
  | deadline

def dhcpMessage (raw : List UInt8) : Option (List UInt8) :=
  match UdpDatagram.parse raw with
  | .ok (some udp) => if udp.srcPort = 67 ∧ udp.dstPort = 68 then some udp.payload else none
  | _ => none

namespace DhcpClient

def maskIp : Ip4 → Ip4 → Ip4
  | (a, b, c, d), (a', b', c', d') => (a &&& a', b &&& b', c &&& c', d &&& d')

def configureStaticIp (c : DhcpClient) (ip netmask gateway : Ip4) : DhcpClient :=
  { c with
    stack := { c.stack with ourIp := ip }
    routes := [⟨(0, 0, 0, 0), (0, 0, 0, 0), gateway, "eth0"⟩, ⟨maskIp ip netmask, netmask, (0, 0, 0, 0), "eth0"⟩] }

def apply (c : DhcpClient) (a : DhcpOffer) : DhcpClient :=
  let c := c.configureStaticIp a.yourIp a.subnet a.gateway
  if a.dns ≠ (0, 0, 0, 0) then { c with dnsServer := a.dns } else c

def proceed (c : DhcpClient) (phase : DhcpPhase) (pending : Bool) : DhcpClient :=
  { c with stack := { c.stack with dhcpReply := none, dhcpPending := pending }, phase, heard := [] }

def request (c : DhcpClient) : Option (List UInt8) × DhcpClient :=
  (some (buildDhcpMsg dhcpDiscover c.stack.ourMac none), c.proceed .offer true)

def datagram (c : DhcpClient) (raw : List UInt8) : DhcpClient :=
  match c.stack.handleUdp raw with
  | .ok (_, stack) => { c with stack, heard := c.heard ++ (dhcpMessage raw).toList }
  | .error _ => c

def check (c : DhcpClient) : Option (List UInt8) × DhcpClient :=
  match c.phase, c.stack.dhcpReply with
  | .offer, some o =>
    (some (buildDhcpMsg dhcpRequest c.stack.ourMac (some o.yourIp)), c.proceed (.ack o.yourIp) c.stack.dhcpPending)
  | .ack _, some a => (none, (c.proceed .idle false).apply a)
  | _, _ => (none, c)

def deadline (c : DhcpClient) : DhcpClient :=
  { c with stack := { c.stack with dhcpPending := false }, phase := .idle }

def step (c : DhcpClient) : DhcpEvent → Option (List UInt8) × DhcpClient
  | .request => if c.phase = .idle then c.request else (none, c)
  | .datagram raw => (none, c.datagram raw.1)
  | .check => c.check
  | .deadline => (none, if c.phase = .idle then c else c.deadline)

def applied (c : DhcpClient) : DhcpEvent → Option DhcpOffer
  | .check => match c.phase with
    | .ack _ => c.stack.dhcpReply
    | _ => none
  | _ => none

def config (c : DhcpClient) : Ip4 × List RouteEntry × Ip4 := (c.stack.ourIp, c.routes, c.dnsServer)

end DhcpClient

/-! ## What a step does -/

namespace NetStack

variable {s s' : NetStack} {raw payload : List UInt8} {r : Option (List UInt8)}

lemma dnsArrives_cases (h : s.dnsArrives payload = .ok s') : ∃ reply, s' = { s with dnsReply := reply } := by
  obtain ⟨o, -, ho⟩ := bind_eq_ok.mp h
  split at ho
  · exact ⟨_, (Except.ok.inj ho).symm⟩
  · exact ⟨_, (Except.ok.inj ho).symm⟩

lemma dhcpArrives_cases (h : s.dhcpArrives payload = .ok s') :
    s' = s ∨ ∃ a, parseDhcpOptions payload = .ok (some a) ∧ s' = { s with dhcpReply := some a } := by
  obtain ⟨o, hparse, ho⟩ := bind_eq_ok.mp h
  split at ho
  · exact .inr ⟨_, hparse, (Except.ok.inj ho).symm⟩
  · exact .inl (Except.ok.inj ho).symm

lemma handleUdp_dhcp {udp : UdpDatagram} {t : NetStack}
    (h : (do let s ← if udp.srcPort = 67 ∧ udp.dstPort = 68 ∧ t.dhcpPending then t.dhcpArrives udp.payload else pure t
             return ((none, s) : FrameResult)) = .ok (r, s')) :
    s' = t ∨ ∃ a, (udp.srcPort = 67 ∧ udp.dstPort = 68) ∧ parseDhcpOptions udp.payload = .ok (some a) ∧
      s' = { t with dhcpReply := some a } := by
  split at h
  · next hports =>
    obtain ⟨t', hdhcp, ht'⟩ := bind_eq_ok.mp h
    obtain ⟨-, rfl⟩ := Prod.mk.inj (Except.ok.inj ht')
    obtain rfl | ⟨a, hparse, rfl⟩ := dhcpArrives_cases hdhcp
    · exact .inl rfl
    · exact .inr ⟨a, ⟨hports.1, hports.2.1⟩, hparse, rfl⟩
  · exact .inl (Prod.mk.inj (Except.ok.inj h)).2.symm

lemma handleUdp_cases (h : s.handleUdp raw = .ok (r, s')) :
    s'.ourIp = s.ourIp ∧ s'.ourMac = s.ourMac ∧ (s'.dhcpReply = s.dhcpReply ∨
      ∃ m a, dhcpMessage raw = some m ∧ parseDhcpOptions m = .ok (some a) ∧ s'.dhcpReply = some a) := by
  obtain ⟨o, hparse, ho⟩ := bind_eq_ok.mp h
  split at ho
  · next udp =>
    have hafter : ∃ reply, s' = { s with dnsReply := reply } ∨
        ∃ a, (udp.srcPort = 67 ∧ udp.dstPort = 68) ∧ parseDhcpOptions udp.payload = .ok (some a) ∧
          s' = { s with dnsReply := reply, dhcpReply := some a } := by
      split at ho
      · obtain ⟨t, hdns, ht⟩ := bind_eq_ok.mp ho
        obtain ⟨reply, rfl⟩ := dnsArrives_cases hdns
        exact ⟨reply, handleUdp_dhcp ht⟩
      · exact ⟨s.dnsReply, handleUdp_dhcp ho⟩
    obtain ⟨reply, rfl | ⟨a, hports, ha, rfl⟩⟩ := hafter
    · exact ⟨rfl, rfl, .inl rfl⟩
    · refine ⟨rfl, rfl, .inr ⟨udp.payload, a, ?_, ha, rfl⟩⟩
      unfold dhcpMessage
      rw [hparse]
      exact if_pos hports
  · obtain ⟨-, rfl⟩ := Prod.mk.inj (Except.ok.inj ho)
    exact ⟨rfl, rfl, .inl rfl⟩

end NetStack

def dhcpMsgType (m : List UInt8) : Option UInt8 :=
  match dhcpLoop m (m.length + 1) 240 {} with
  | .ok o => some o.msgType
  | .error _ => none

/-- The message is the ACK for an address that the client has asked for. -/
def IsAckFor (ourMac : Mac) (requested : Ip4) (m : List UInt8) : Prop :=
  dhcpMsgType m = some dhcpAck ∧ (m.drop 4).take 4 = toBe 4 dhcpXid.toNat ∧ (m.drop 28).take 6 = macBytes ourMac ∧
    (m.drop 16).take 4 = ipBytes requested

namespace DhcpClient

/-- The answer is that of an ACK for the address of the last message of the client. -/
def Justified (c : DhcpClient) (a : DhcpOffer) : Prop :=
  ∃ requested, c.phase = .ack requested ∧
    ∃ m ∈ c.heard, parseDhcpOptions m = .ok (some a) ∧ IsAckFor c.stack.ourMac requested m

/-- The step changes the configuration only to that of a justified answer. -/
def AppliesOnlyAcks (c : DhcpClient) (e : DhcpEvent) : Prop :=
  match c.applied e with
  | some a => c.Justified a ∧ (c.step e).2.config = (c.apply a).config
  | none => (c.step e).2.config = c.config

/-- A message that comes in while the client waits for the ACK, and that the parser accepts, is the ACK. -/
def OnlyAcksArrive (c : DhcpClient) (e : DhcpEvent) : Prop :=
  ∀ raw m a requested, e = .datagram raw → c.phase = .ack requested → dhcpMessage raw.1 = some m →
    parseDhcpOptions m = .ok (some a) → IsAckFor c.stack.ourMac requested m

/-- What the mailbox holds during the second wait is justified. -/
def Trusted (c : DhcpClient) : Prop :=
  ∀ requested a, c.phase = .ack requested → c.stack.dhcpReply = some a → c.Justified a

variable {c : DhcpClient} {raw : List UInt8} {e : DhcpEvent}

lemma datagram_phase : (c.datagram raw).phase = c.phase := by
  unfold datagram
  split
  · rfl
  · rfl

lemma datagram_config : (c.datagram raw).config = c.config := by
  unfold datagram
  split
  · next hudp =>
    unfold config
    rw [← (NetStack.handleUdp_cases hudp).1]
  · rfl

lemma Trusted.datagram (ht : c.Trusted) {raw : ByteSlice} (ha : c.OnlyAcksArrive (.datagram raw)) :
    (c.datagram raw.1).Trusted := by
  intro requested a hphase hreply
  rw [datagram_phase] at hphase
  refine ⟨requested, datagram_phase.trans hphase, ?_⟩
  unfold DhcpClient.datagram at hreply ⊢
  split
  · next stack hudp =>
    rw [hudp] at hreply
    obtain ⟨-, hmac, hold | ⟨m, a', hm, hparse, hnew⟩⟩ := NetStack.handleUdp_cases hudp
    · obtain ⟨requested', hphase', m, hmem, hparse, hack⟩ := ht requested a hphase (hold.symm.trans hreply)
      rw [hphase] at hphase'
      cases hphase'
      refine ⟨m, mem_append_left _ hmem, hparse, ?_⟩
      rw [hmac]
      exact hack
    · have heq : a' = a := Option.mem_unique hnew hreply
      subst heq
      refine ⟨m, ?_, hparse, ?_⟩
      · rw [hm]
        exact mem_append_right _ (mem_singleton_self m)
      · rw [hmac]
        exact ha raw m a' requested rfl hphase hm hparse
  · next hudp =>
    rw [hudp] at hreply
    obtain ⟨requested', hphase', hjust⟩ := ht requested a hphase hreply
    rw [hphase] at hphase'
    cases hphase'
    exact hjust

lemma Trusted.of_phase (h : c.phase = .idle ∨ c.phase = .offer) : c.Trusted := by
  intro requested a hphase _
  rw [hphase] at h
  obtain h | h := h
  · cases h
  · cases h

lemma apply_phase (a : DhcpOffer) : (c.apply a).phase = c.phase := by
  unfold apply
  split
  · rfl
  · rfl

lemma apply_config_congr {c' : DhcpClient} (h : c'.config = c.config) (a : DhcpOffer) :
    (c'.apply a).config = (c.apply a).config := by
  have hdns : c'.dnsServer = c.dnsServer := congrArg (fun x => x.2.2) h
  unfold apply
  split
  · rfl
  · exact congrArg (fun dns => (a.yourIp, _, dns)) hdns

lemma Trusted.check (ht : c.Trusted) : c.check.2.Trusted := by
  unfold DhcpClient.check
  split
  · exact fun _ _ _ hreply => nomatch hreply
  · exact Trusted.of_phase (.inl (apply_phase _))
  · exact ht

lemma Trusted.step (ht : c.Trusted) (ha : c.OnlyAcksArrive e) : (c.step e).2.Trusted := by
  cases e with
  | request =>
    change (if c.phase = .idle then c.request else (none, c)).2.Trusted
    split
    · exact Trusted.of_phase (.inr rfl)
    · exact ht
  | datagram raw => exact ht.datagram ha
  | check => exact ht.check
  | deadline =>
    change (if c.phase = .idle then c else c.deadline).Trusted
    split
    · exact ht
    · exact Trusted.of_phase (.inl rfl)

lemma applied_check {a : DhcpOffer} :
    c.applied .check = some a ↔ ∃ requested, c.phase = .ack requested ∧ c.stack.dhcpReply = some a := by
  unfold applied
  cases c.phase with
  | idle | offer => exact iff_of_false nofun (fun ⟨_, h, _⟩ => nomatch h)
  | ack requested => exact ⟨fun h => ⟨requested, rfl, h⟩, fun ⟨_, _, h⟩ => h⟩

lemma check_config (h : c.applied .check = none) : c.check.2.config = c.config := by
  unfold check
  split
  · rfl
  · next requested a hphase hreply =>
    rw [applied_check.mpr ⟨requested, hphase, hreply⟩] at h
    cases h
  · rfl

lemma Trusted.appliesOnlyAcks (ht : c.Trusted) (e : DhcpEvent) : c.AppliesOnlyAcks e := by
  cases e with
  | request =>
    change (if c.phase = .idle then c.request else (none, c)).2.config = c.config
    split
    · rfl
    · rfl
  | datagram raw => exact datagram_config
  | check =>
    unfold AppliesOnlyAcks
    split
    · next a ha =>
      obtain ⟨requested, hphase, hreply⟩ := applied_check.mp ha
      refine ⟨ht requested a hphase hreply, ?_⟩
      change c.check.2.config = _
      unfold DhcpClient.check
      rw [hphase, hreply]
      exact apply_config_congr (show (c.proceed .idle false).config = c.config from rfl) a
    · next ha => exact check_config ha
  | deadline =>
    change (if c.phase = .idle then c else c.deadline).config = c.config
    split
    · rfl
    · rfl

def start (stack : NetStack) (routes : List RouteEntry) (dnsServer : Ip4) : DhcpClient where
  stack := stack
  routes := routes
  dnsServer := dnsServer
  phase := .idle
  heard := []

abbrev Reaches : DhcpClient → List (DhcpClient × DhcpEvent) → DhcpClient → Prop := Run (fun c e c' => c' = (c.step e).2)

/-- Where nothing but the ACK comes in during the second wait, the configuration comes from ACKs only. -/
theorem appliesOnlyAcks_of_run (stack : NetStack) (routes : List RouteEntry) (dnsServer : Ip4)
    {tr : List (DhcpClient × DhcpEvent)} (hrun : (start stack routes dnsServer).Reaches tr c)
    (ha : ∀ x ∈ tr, x.1.OnlyAcksArrive x.2) : ∀ x ∈ tr, x.1.AppliesOnlyAcks x.2 := by
  have htrusted := (hrun.invariant_of (I := Trusted) (C := OnlyAcksArrive) (Trusted.of_phase (.inl rfl))
    (fun c e c' ht hc hstep => by rw [hstep]; exact ht.step hc) ha).1
  exact fun x hx => (htrusted x hx).appliesOnlyAcks x.2

/-! ## An exchange -/

def serverMessage (msgType : UInt8) (xid : UInt32) (mac : Mac) (yourIp gateway : Ip4) : List UInt8 :=
  [2, 1, 6, 0] ++ toBe 4 xid.toNat ++ List.replicate 8 0 ++ ipBytes yourIp ++ List.replicate 8 0 ++ macBytes mac ++
    List.replicate 202 0 ++ magicCookie ++ [53, 1, msgType] ++ [3, 4] ++ ipBytes gateway ++ [255]

lemma serverMessage_length (msgType : UInt8) (xid : UInt32) (mac : Mac) (yourIp gateway : Ip4) :
    (serverMessage msgType xid mac yourIp gateway).length = 250 := by
  rfl

def serverDatagram (msgType : UInt8) (xid : UInt32) (mac : Mac) (yourIp gateway : Ip4) : ByteSlice :=
  ⟨toBe 2 67 ++ toBe 2 68 ++ toBe 2 258 ++ [0, 0] ++ serverMessage msgType xid mac yourIp gateway, by
    rw [length_append, serverMessage_length]
    decide⟩

def freshStack : NetStack where
  ourIp := (0, 0, 0, 0)
  ourMac := (2, 0, 0, 0, 0, 1)
  wifiIp := (0, 0, 0, 0)
  wifiMac := (2, 0, 0, 0, 0, 2)
  arpCache := fun _ => none
  rxPackets := 0
  rxBytes := 0
  pingPending := false
  pingId := 0
  pingSeq := 0
  pingReplyTime := 0
  dnsPending := false
  dnsReply := none
  dhcpPending := false
  dhcpReply := none
  tcp := ⟨fun _ => none, fun _ => none, []⟩

def exchange (first second : ByteSlice) : List DhcpEvent := [.request, .datagram first, .check, .datagram second, .check]

def exchangeTrace (first second : ByteSlice) : List (DhcpClient × DhcpEvent) :=
  traceOf (fun c e => (c.step e).2) (start freshStack [] (0, 0, 0, 0)) (exchange first second)

def offered : ByteSlice := serverDatagram dhcpOffer dhcpXid freshStack.ourMac (10, 0, 2, 15) (10, 0, 2, 2)

def acknowledged : ByteSlice := serverDatagram dhcpAck dhcpXid freshStack.ourMac (10, 0, 2, 15) (10, 0, 2, 2)

def foreignOffer : ByteSlice := serverDatagram dhcpOffer 7 (2, 0, 0, 0, 0, 9) (10, 0, 2, 99) (10, 0, 2, 66)

def beforeLast (second : ByteSlice) : DhcpClient :=
  ((exchange offered second).take 4).foldl (fun c e => (c.step e).2) (start freshStack [] (0, 0, 0, 0))

theorem exchange_applies_ack : ((beforeLast acknowledged).step .check).2.config =
      ((10, 0, 2, 15), [⟨(0, 0, 0, 0), (0, 0, 0, 0), (10, 0, 2, 2), "eth0"⟩,
        ⟨(10, 0, 2, 0), (255, 255, 255, 0), (0, 0, 0, 0), "eth0"⟩], (0, 0, 0, 0)) ∧
    ∀ x ∈ exchangeTrace offered acknowledged, x.1.AppliesOnlyAcks x.2 := by
  refine ⟨by decide +kernel, appliesOnlyAcks_of_run freshStack [] (0, 0, 0, 0) (Run.traceOf _ _ _) ?_⟩
  intro x hx raw m a requested heq hphase hm _
  simp only [exchangeTrace, exchange, traceOf, mem_cons, not_mem_nil, or_false] at hx
  obtain rfl | rfl | rfl | rfl | rfl := hx
  · cases heq
  · cases hphase
  · cases heq
  · cases heq
    have hmessage : dhcpMessage acknowledged.1 =
        some (serverMessage dhcpAck dhcpXid freshStack.ourMac (10, 0, 2, 15) (10, 0, 2, 2)) := by decide +kernel
    have hrequested : ((((start freshStack [] (0, 0, 0, 0)).step .request).2.step (.datagram offered)).2.step .check).2.phase =
        .ack (10, 0, 2, 15) := by decide +kernel
    dsimp only at hphase
    rw [hrequested] at hphase
    cases hphase
    rw [hmessage] at hm
    rw [← Option.some.inj hm]
    exact ⟨by decide +kernel, by decide +kernel, by decide +kernel, by decide +kernel⟩
  · cases heq

/-- The offer of another server to another client is taken for the ACK. -/
theorem foreignOffer_is_applied : (exchangeTrace offered foreignOffer).getLast? = some (beforeLast foreignOffer, .check) ∧
    ((beforeLast foreignOffer).step .check).2.config.1 = (10, 0, 2, 99) ∧
      ¬ (beforeLast foreignOffer).AppliesOnlyAcks .check := by
  have happlied : (beforeLast foreignOffer).applied .check =
      some ⟨(10, 0, 2, 99), (0, 0, 0, 0), (255, 255, 255, 0), (10, 0, 2, 66), (0, 0, 0, 0), 86400⟩ := by decide +kernel
  have hheard : (beforeLast foreignOffer).heard =
      [serverMessage dhcpOffer 7 (2, 0, 0, 0, 0, 9) (10, 0, 2, 99) (10, 0, 2, 66)] := by decide +kernel
  have htype : dhcpMsgType (serverMessage dhcpOffer 7 (2, 0, 0, 0, 0, 9) (10, 0, 2, 99) (10, 0, 2, 66)) =
      some dhcpOffer := by decide +kernel
  refine ⟨rfl, by decide +kernel, ?_⟩
  unfold AppliesOnlyAcks
  rw [happlied]
  rintro ⟨⟨requested, -, m, hm, -, hack, -⟩, -⟩
  rw [hheard, mem_singleton] at hm
  rw [hm, htype] at hack
  cases hack

end DhcpClient

end NodeKernel
