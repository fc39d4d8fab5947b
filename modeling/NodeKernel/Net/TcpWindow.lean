import NodeKernel.Net.TcpSender

/-!
# The windows of a connection

What is in flight stays within the windows only if the application, the peer and the timer leave it there: `send` looks
at the windows without looking at what is in flight, and an acknowledgement may go beyond what has been sent.
-/
namespace NodeKernel

open PeerStream Nat List Option Tcp

namespace TcpSocket

def inFlight (sock : TcpSocket) : ℕ := (sock.sndNxt - sock.sndUna).toNat

/-- `snd_una` is not beyond `snd_nxt`, and what is in flight fits in the windows or in one segment. -/
structure WindowKept (sock : TcpSocket) : Prop where
  ordered : sock.inFlight < 2 ^ 31
  bounded : sock.inFlight ≤ max (min sock.aiCwnd sock.sndWnd.toNat) Tcp.mss.toNat

def factor (sock : TcpSocket) (score : OwnerScore) : ℕ :=
  (if 0 < sock.ownerPid then score.cwndMul else sock.aiCwndMul).toNat

def AckTaken (sock : TcpSocket) (h : TcpHeader) : Prop :=
  h.has Tcp.ack = true ∧ 0 < h.ack - sock.sndUna ∧ h.ack - sock.sndUna ≤ 65536

instance (sock : TcpSocket) (h : TcpHeader) : Decidable (sock.AckTaken h) := inferInstanceAs (Decidable (_ ∧ _))

/-- What the event leaves in flight fits in the windows that it leaves. -/
def Respects (sock : TcpSocket) : ConnEvent → Prop
  | .send data _ => sock.inFlight + min data.length sock.allowed ≤ sock.allowed
  | .segment score h _ => sock.state = .established →
      if sock.AckTaken h then (sock.sndNxt - h.ack).toNat ≤
        max (min (min sock.cwnd.toNat (max h.window.toNat 1460) * sock.factor score / 100) h.window.toNat) 1460
      else sock.inFlight ≤ max (min sock.aiCwnd h.window.toNat) 1460
  | .pollRetransmit now => sock.expired now →
      sock.inFlight ≤ max (min (1460 * sock.aiCwndMul.toNat / 100) sock.sndWnd.toNat) 1460
  | .recv _ | .close | .accept => True

variable {key : TcpSocketKey} {sock sock' : TcpSocket} {score : OwnerScore} {h : TcpHeader} {data : List UInt8} {now : ℕ}

lemma windowKept_iff : sock.WindowKept ↔ sock.inFlight ≤ sock.allowed := by
  refine ⟨fun hw => hw.bounded, fun hle => ⟨?_, hle⟩⟩
  have hmax := sock.allowed_le
  omega

lemma SameSender.inFlight (hs : SameSender sock sock') : sock'.inFlight = sock.inFlight := by
  unfold TcpSocket.inFlight
  rw [hs.sndNxt, hs.sndUna]

lemma SameSender.allowed (hs : SameSender sock sock') : sock'.allowed = sock.allowed := by
  unfold TcpSocket.allowed
  rw [hs.cwnd, hs.aiCwndMul, hs.sndWnd]

lemma WindowKept.of_same (hw : sock.WindowKept) (hs : SameSender sock sock') : sock'.WindowKept := by
  rw [windowKept_iff] at hw ⊢
  rwa [hs.inFlight, hs.allowed]

lemma windowKept_of_all_acked (hs : sock.sndUna = sock.sndNxt) : sock.WindowKept := by
  have hzero : sock.inFlight = 0 := by
    unfold inFlight
    rw [hs, UInt32.sub_self]
    rfl
  rw [windowKept_iff, hzero]
  exact zero_le _

lemma aiCwnd_eq (hc : sock.cwnd.toNat ≤ 65535) : sock.aiCwnd = sock.cwnd.toNat * sock.aiCwndMul.toNat / 100 := by
  have hm : sock.aiCwndMul.toNat ≤ 65535 := le_of_lt_succ sock.aiCwndMul.toNat_lt
  have hprod : sock.cwnd.toNat * sock.aiCwndMul.toNat ≤ 65535 * 65535 := Nat.mul_le_mul hc hm
  unfold aiCwnd
  rw [UInt64.toNat_toUInt32, UInt64.toNat_div, UInt64.toNat_mul, UInt32.toNat_toUInt64, UInt16.toNat_toUInt64]
  have hhundred : (100 : UInt64).toNat = 100 := rfl
  rw [hhundred, mod_eq_of_lt (by omega : sock.cwnd.toNat * sock.aiCwndMul.toNat < 2 ^ 64)]
  exact mod_eq_of_lt (by omega)

lemma le_saturatingAdd (a b : UInt32) : a.toNat ≤ (saturatingAdd a b).toNat := by
  have ha : a.toNat < 2 ^ 32 := a.toNat_lt
  unfold saturatingAdd
  rw [UInt32.toNat_ofNat']
  omega

lemma le_grow (sock : TcpSocket) (acked : UInt32) : sock.cwnd.toNat ≤ (sock.grow acked).toNat := by
  unfold grow
  split
  · exact le_saturatingAdd _ _
  · exact le_saturatingAdd _ _

lemma toNat_min (a b : UInt32) : (min a b).toNat = min a.toNat b.toNat := by
  change (if a ≤ b then a else b).toNat = _
  split
  · next hab => exact (min_eq_left (UInt32.le_iff_toNat_le.mp hab)).symm
  · next hab => exact (Nat.min_eq_right (Nat.le_of_not_le (fun hle => hab (UInt32.le_iff_toNat_le.mpr hle)))).symm

lemma toNat_max (a b : UInt32) : (max a b).toNat = max a.toNat b.toNat := by
  change (if a ≤ b then b else a).toNat = _
  split
  · next hab => exact (max_eq_right (UInt32.le_iff_toNat_le.mp hab)).symm
  · next hab => exact (Nat.max_eq_left (Nat.le_of_not_le (fun hle => hab (UInt32.le_iff_toNat_le.mpr hle)))).symm

lemma note_of_ackTaken (ht : sock.AckTaken h) : sock.note score h =
    { sock with
      sndWnd := h.window
      sndUna := h.ack
      cwnd := min ({ sock with sndWnd := h.window }.grow (h.ack - sock.sndUna)) (max h.window.toUInt32 mss)
      aiCwndMul := if 0 < sock.ownerPid then score.cwndMul else sock.aiCwndMul } := by
  unfold note ackReceived
  rw [if_pos ht.1, if_pos ht.2]

lemma note_of_not_ackTaken (ht : ¬ sock.AckTaken h) : sock.note score h = { sock with sndWnd := h.window } := by
  unfold note ackReceived
  split
  · next hack => exact if_neg (fun hnew => ht ⟨hack, hnew⟩)
  · rfl

lemma note_cwnd (score : OwnerScore) (ht : sock.AckTaken h) : (sock.note score h).cwnd.toNat =
    min ({ sock with sndWnd := h.window }.grow (h.ack - sock.sndUna)).toNat (max h.window.toNat 1460) := by
  rw [note_of_ackTaken ht, toNat_min, toNat_max, UInt16.toNat_toUInt32]
  rfl

lemma le_aiCwnd_note (score : OwnerScore) (ht : sock.AckTaken h) :
    min sock.cwnd.toNat (max h.window.toNat 1460) * sock.factor score / 100 ≤ (sock.note score h).aiCwnd := by
  have hwnd : h.window.toNat < 65536 := h.window.toNat_lt
  have hcwnd := note_cwnd score ht
  have hgrow := le_grow { sock with sndWnd := h.window } (h.ack - sock.sndUna)
  dsimp only at hgrow
  have hmul : (sock.note score h).aiCwndMul.toNat = sock.factor score := by rw [note_of_ackTaken ht]; rfl
  rw [aiCwnd_eq (by omega), hmul, hcwnd]
  exact Nat.div_le_div_right (Nat.mul_le_mul_right _ (by omega))

lemma windowKept_note (hs : sock.state = .established) (hr : sock.Respects (.segment score h data)) :
    (sock.note score h).WindowKept := by
  have hroom := hr hs
  have hmss : mss.toNat = 1460 := rfl
  rw [windowKept_iff, allowed_eq, hmss]
  split at hroom
  · next ht =>
    have hcwnd := le_aiCwnd_note score ht
    have hflight : (sock.note score h).inFlight = (sock.sndNxt - h.ack).toNat := by rw [note_of_ackTaken ht]; rfl
    have hwnd : (sock.note score h).sndWnd = h.window := by rw [note_of_ackTaken ht]
    rw [hflight, hwnd]
    omega
  · next ht =>
    rw [note_of_not_ackTaken ht]
    exact hroom

lemma windowKept_segment (hw : sock.WindowKept) (hr : sock.Respects (.segment score h data)) :
    (sock.tcpStateMachine key score h data).1.WindowKept := by
  obtain hs | hs | ⟨hest, hs⟩ := machine_sender key score sock h data
  · exact hw.of_same hs
  · exact (windowKept_of_all_acked rfl).of_same hs
  · exact (windowKept_note hest hr).of_same hs

lemma windowKept_send (hw : sock.WindowKept) (hr : sock.Respects (.send data now)) : (sock.send key data now).1.WindowKept := by
  unfold send
  split
  · have hmax := sock.allowed_le
    have hflight : (sock.sndNxt + UInt32.ofNat (data.take sock.allowed).length - sock.sndUna).toNat =
        sock.inFlight + min data.length sock.allowed := by
      have hroom : sock.inFlight + min data.length sock.allowed ≤ sock.allowed := hr
      have hcomm : sock.sndNxt + UInt32.ofNat (data.take sock.allowed).length - sock.sndUna =
          sock.sndNxt - sock.sndUna + UInt32.ofNat (data.take sock.allowed).length := by
        rw [UInt32.sub_eq_add_neg, UInt32.sub_eq_add_neg, UInt32.add_assoc,
          UInt32.add_comm (UInt32.ofNat _), ← UInt32.add_assoc]
      unfold inFlight at hroom ⊢
      rw [hcomm, UInt32.toNat_add, UInt32.toNat_ofNat', length_take, min_comm]
      omega
    rw [windowKept_iff]
    exact hflight.trans_le hr
  · exact hw

lemma windowKept_poll (hw : sock.WindowKept) (hr : sock.Respects (.pollRetransmit now)) :
    (sock.pollRetransmit key now).1.WindowKept := by
  unfold pollRetransmit
  split
  · next hexp =>
    have hroom := hr hexp
    rw [windowKept_iff, allowed_eq, aiCwnd_eq (show mss.toNat ≤ 65535 by decide)]
    exact hroom
  · exact hw

lemma WindowKept.on (hw : sock.WindowKept) {c : ConnEvent} (hr : sock.Respects c) (hc : c ≠ .close) :
    (sock.on key c).1.WindowKept := by
  cases c with
  | segment score h data => exact windowKept_segment hw hr
  | send data now => exact windowKept_send hw hr
  | recv | accept => exact hw.of_same ⟨rfl, rfl, rfl, rfl, rfl, rfl⟩
  | close => exact absurd rfl hc
  | pollRetransmit now => exact windowKept_poll hw hr

end TcpSocket

namespace TcpWorld

variable {w w' : TcpWorld} {key : TcpSocketKey} {sock : TcpSocket} {e : TcpEvent}

def Step (key : TcpSocketKey) (w : TcpWorld) (e : TcpEvent) (w' : TcpWorld) : Prop :=
  ¬ w.Resets key e ∧ e ≠ .close key ∧ w' = (w.call e).2

def WindowKept (key : TcpSocketKey) (w : TcpWorld) : Prop := ∃ sock, w.sockets key = some sock ∧ sock.WindowKept

/-- What the call is for the connection leaves in flight only what fits in the windows. -/
def RespectsWindows (key : TcpSocketKey) (w : TcpWorld) (e : TcpEvent) : Prop :=
  ∀ sock c, w.sockets key = some sock → w.connEvent key sock e = some c → sock.Respects c

lemma WindowKept.step (hw : w.WindowKept key) (hr : w.RespectsWindows key e) (hs : Step key w e w') : w'.WindowKept key := by
  obtain ⟨sock, hk, hkept⟩ := hw
  obtain ⟨hreset, hclose, rfl⟩ := hs
  have hc := call_concerns hk hreset
  cases he : w.connEvent key sock e with
  | none =>
    rw [he] at hc
    exact ⟨sock, hc.1, hkept⟩
  | some c =>
    rw [he] at hc
    refine ⟨_, hc.1, hkept.on (hr sock c hk he) ?_⟩
    rintro rfl
    exact hclose (connEvent_eq he)

/-- In every run whose calls leave room in the windows, the windows are kept. -/
theorem windowKept_of_run (hk : w.sockets key = some sock) (hkept : sock.WindowKept) {tr : List (TcpWorld × TcpEvent)}
    (hrun : Run (Step key) w tr w') (hr : ∀ x ∈ tr, x.1.RespectsWindows key x.2) :
    (∀ x ∈ tr, x.1.WindowKept key) ∧ w'.WindowKept key :=
  hrun.invariant_of ⟨sock, hk, hkept⟩ (fun _ _ _ hw hc hs => hw.step hc hs) hr

/-! ## A connection that has just been set up -/

def zeros (n : ℕ) : TcpEvent := .send twoBytes.key (List.replicate n 0) 1

def earlyAck : TcpEvent := .segment ⟨false, false, 0⟩ (10, 0, 2, 2)
  [15, 160, 0, 80, 0, 0, 0, 1, 0xDE, 0xAD, 0, 5, 0x50, Tcp.ack, 255, 255, 0, 0, 0, 0]

lemma step_zeros (w : TcpWorld) (n : ℕ) : Step twoBytes.key w (zeros n) (w.call (zeros n)).2 :=
  ⟨fun ⟨_, _, _, _, ha, _⟩ => (nomatch ha), nofun, rfl⟩

lemma not_windowKept (h : (w.sockets key).map (fun sock => decide (sock.inFlight ≤ sock.allowed)) = some false) :
    ¬ w.WindowKept key := by
  rintro ⟨sock, hk, hkept⟩
  rw [hk] at h
  exact of_decide_eq_false (Option.some.inj h) (TcpSocket.windowKept_iff.mp hkept)

theorem windowKept_of_run_zeros : (∀ x ∈ [(twoBytesStart.world, zeros 1000)], x.1.WindowKept twoBytes.key) ∧
      (twoBytesStart.world.call (zeros 1000)).2.WindowKept twoBytes.key := by
  refine windowKept_of_run twoBytesStart_socket (TcpSocket.windowKept_iff.mpr (by decide))
    (Run.nil.snoc (step_zeros _ 1000)) ?_
  intro x hx sock c hk hc
  obtain rfl := mem_singleton.mp hx
  obtain rfl := mem_unique twoBytesStart_socket hk
  have hsend : twoBytesStart.world.connEvent twoBytes.key twoBytesSocket (zeros 1000) = some (.send (replicate 1000 0) 1) := by
    change (if twoBytes.key = twoBytes.key then _ else none) = _
    exact if_pos rfl
  obtain rfl := mem_unique hsend hc
  change _ + min (replicate 1000 0).length _ ≤ _
  rw [length_replicate]
  decide

/-- Two calls of `send` put more in flight than the congestion window of one segment, and an acknowledgement of bytes
that have not been sent takes `snd_una` beyond `snd_nxt`. -/
theorem windows_not_kept : twoBytesStart.world.WindowKept twoBytes.key ∧
      (∃ tr w, Run (Step twoBytes.key) twoBytesStart.world tr w ∧
        tr.map Prod.snd = [zeros 1000, zeros 1000] ∧ ¬ w.WindowKept twoBytes.key) ∧
      ∃ w, Run (Step twoBytes.key) twoBytesStart.world [(twoBytesStart.world, earlyAck)] w ∧ ¬ w.WindowKept twoBytes.key := by
  have hack : Step twoBytes.key twoBytesStart.world earlyAck
      (twoBytesStart.world.call earlyAck).2 := by
    refine ⟨?_, nofun, rfl⟩
    rintro ⟨score, src, raw, h, ha, hp, -, hrst⟩
    obtain ⟨-, -, rfl⟩ : _ ∧ _ ∧ _ := by simpa [earlyAck, arriving] using ha
    obtain rfl := mem_unique (by decide : TcpHeader.parse
      [15, 160, 0, 80, 0, 0, 0, 1, 0xDE, 0xAD, 0, 5, 0x50, ack, 255, 255, 0, 0, 0, 0] =
        some ⟨4000, 80, 1, 0xDEAD0005, 5, ack, 65535⟩) hp
    exact absurd hrst (by decide)
  refine ⟨⟨_, twoBytesStart_socket, TcpSocket.windowKept_iff.mpr (by decide)⟩, ?_, ?_⟩
  · refine ⟨_, _, (Run.nil.snoc (step_zeros _ 1000)).snoc (step_zeros _ 1000), rfl, not_windowKept ?_⟩
    decide +kernel
  · exact ⟨_, Run.nil.snoc hack, not_windowKept (by decide)⟩

end TcpWorld

/-! ## The bounds of the congestion control -/

/-- A connection is opened by the SYN of a peer or by `connect`. -/
inductive TcpOpening
  | passive (irs : UInt32)
  | active (iss : UInt32) (pid : ℕ)

def TcpOpening.socket : TcpOpening → TcpSocket
  | passive irs => TcpSocket.newSynReceived irs
  | active iss pid =>
    { state := .synSent, sndNxt := iss + 1, sndUna := iss, rcvNxt := 0, sndWnd := 65535, rcvBuf := [], cwnd := Tcp.mss
      ssthresh := 65535, lastSendMs := 0, rtoMs := Tcp.rtoInitialMs, retransmitBuf := [], ownerPid := pid, aiCwndMul := 100 }

namespace TcpSocket

structure CongestionKept (sock : TcpSocket) : Prop where
  cwnd : 1460 ≤ sock.cwnd.toNat ∧ sock.cwnd.toNat ≤ 65535
  ssthresh : 1460 ≤ sock.ssthresh.toNat ∧ sock.ssthresh.toNat ≤ 65535
  rto : 1000 ≤ sock.rtoMs ∧ sock.rtoMs ≤ 60000

/-- What the next update computes fits in its type, for every acknowledgement that is taken for new. -/
structure NoOverflow (sock : TcpSocket) : Prop where
  slowStart : ∀ acked ≤ 65536, sock.cwnd.toNat + acked < 2 ^ 32
  product : ∀ acked ≤ 65536, 1460 * acked < 2 ^ 32
  avoidance : ∀ acked ≤ 65536, sock.cwnd.toNat + max (1460 * acked / max sock.cwnd.toNat 1) 1 < 2 ^ 32
  backoff : sock.rtoMs * 2 < 2 ^ 64

variable {key : TcpSocketKey} {sock : TcpSocket}

lemma mss_bounds : 1460 ≤ Tcp.mss.toNat ∧ Tcp.mss.toNat ≤ 65535 := by decide

lemma CongestionKept.start (o : TcpOpening) : o.socket.CongestionKept := by
  have hthresh : 1460 ≤ (65535 : UInt32).toNat ∧ (65535 : UInt32).toNat ≤ 65535 := by decide
  have hrto : 1000 ≤ rtoInitialMs ∧ rtoInitialMs ≤ 60000 := by decide
  cases o <;> exact ⟨mss_bounds, hthresh, hrto⟩

section
variable (h : sock.CongestionKept)
include h

lemma CongestionKept.noOverflow : sock.NoOverflow := by
  obtain ⟨hcwnd, -, hrto⟩ := h
  refine ⟨fun acked _ => by omega, fun acked _ => by omega, fun acked hacked => ?_, by omega⟩
  have hdiv := div_le_self (1460 * acked) (max sock.cwnd.toNat 1)
  omega

lemma CongestionKept.note_cwnd (score : OwnerScore) (hd : TcpHeader) :
    1460 ≤ (sock.note score hd).cwnd.toNat ∧ (sock.note score hd).cwnd.toNat ≤ 65535 := by
  by_cases ht : sock.AckTaken hd
  · have hgrow : sock.cwnd.toNat ≤ _ := le_grow { sock with sndWnd := hd.window } (hd.ack - sock.sndUna)
    have hwnd := hd.window.toNat_lt
    have hcwnd := h.cwnd
    rw [TcpSocket.note_cwnd score ht]
    omega
  · rw [note_of_not_ackTaken ht]
    exact h.cwnd

lemma CongestionKept.machine (score : OwnerScore) (hd : TcpHeader) (data : List UInt8) :
    (sock.tcpStateMachine key score hd data).1.CongestionKept := by
  obtain ⟨-, hthresh, hrto⟩ := machine_steady key score sock hd data
  refine ⟨?_, by rw [hthresh]; exact h.ssthresh, by rw [hrto]; exact h.rto⟩
  rcases machine_sender key score sock hd data with hs | hs | ⟨-, hs⟩
  · rw [hs.cwnd]
    exact h.cwnd
  · rw [hs.cwnd]
    exact h.cwnd
  · rw [hs.cwnd]
    exact h.note_cwnd score hd

lemma CongestionKept.pollRetransmit (now : ℕ) : (sock.pollRetransmit key now).1.CongestionKept := by
  unfold TcpSocket.pollRetransmit
  split
  · obtain ⟨hcwnd, -, hrto⟩ := h
    refine ⟨mss_bounds, ?_, ?_⟩
    · rw [toNat_max, UInt32.toNat_div]
      change 1460 ≤ max (sock.cwnd.toNat / 2) 1460 ∧ max (sock.cwnd.toNat / 2) 1460 ≤ 65535
      omega
    · unfold rtoMaxMs
      dsimp only
      omega
  · exact h

lemma CongestionKept.on (c : ConnEvent) : (sock.on key c).1.CongestionKept := by
  cases c with
  | segment score hd data => exact h.machine score hd data
  | send data now =>
    change (sock.send key data now).1.CongestionKept
    unfold send
    split <;> exact ⟨h.cwnd, h.ssthresh, h.rto⟩
  | recv | accept => exact ⟨h.cwnd, h.ssthresh, h.rto⟩
  | close =>
    change (sock.close key).1.CongestionKept
    unfold close
    split <;> exact ⟨h.cwnd, h.ssthresh, h.rto⟩
  | pollRetransmit now => exact h.pollRetransmit now

end

/-- In every state of a connection the bounds hold and the next update does not overflow. -/
theorem congestion_bounded (key : TcpSocketKey) (o : TcpOpening) (l : List ConnEvent) :
    (l.foldl (fun sock c => (sock.on key c).1) o.socket).CongestionKept ∧
      (l.foldl (fun sock c => (sock.on key c).1) o.socket).NoOverflow := by
  have hkept : (l.foldl (fun sock c => (sock.on key c).1) o.socket).CongestionKept := by
    induction l using reverseRecOn with
    | nil => exact .start o
    | append_singleton l c ih =>
      rw [foldl_append]
      exact ih.on c
  exact ⟨hkept, hkept.noOverflow⟩

end TcpSocket

end NodeKernel
