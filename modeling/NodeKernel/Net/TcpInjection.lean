import NodeKernel.Net.TcpDelivery

/-!
# Segments from outside the receive window

A reset removes a connection whatever its sequence number, and so does a FIN end it. All other segments from outside
of the window leave the receiving side alone.
-/
namespace NodeKernel

open PeerStream

namespace TcpSocket

def rcvWnd : ℕ := 65535

/-- The sequence numbers that a segment takes up; an empty one stands for its own number. -/
def seqLen (h : TcpHeader) (data : List UInt8) : ℕ :=
  max 1 (data.length + (if h.has Tcp.syn then 1 else 0) + (if h.has Tcp.fin then 1 else 0))

def OutsideWindow (sock : TcpSocket) (h : TcpHeader) (data : List UInt8) : Prop :=
  ∀ i < seqLen h data, rcvWnd ≤ (h.seq + UInt32.ofNat i - sock.rcvNxt).toNat

instance (sock : TcpSocket) (h : TcpHeader) (data : List UInt8) : Decidable (sock.OutsideWindow h data) :=
  inferInstanceAs (Decidable (∀ i < seqLen h data, _))

def Unmoved (sock sock' : TcpSocket) : Prop :=
  sock'.state = sock.state ∧ sock'.rcvNxt = sock.rcvNxt ∧ sock'.rcvBuf = sock.rcvBuf

variable {sock : TcpSocket} {h : TcpHeader} {data : List UInt8}

lemma OutsideWindow.not_inOrder (ho : sock.OutsideWindow h data) : ¬ sock.InOrder h data := by
  rintro ⟨-, -, hseq⟩
  have hfirst := ho 0 (Nat.lt_of_lt_of_le Nat.one_pos (Nat.le_max_left _ _))
  have hzero : h.seq + UInt32.ofNat 0 - sock.rcvNxt = 0 := by
    rw [hseq]
    change sock.rcvNxt + 0 - sock.rcvNxt = 0
    rw [UInt32.add_zero, UInt32.sub_self]
  rw [hzero] at hfirst
  exact absurd hfirst (by decide)

/-- An established connection obeys a FIN from outside of the window, and nothing else. -/
theorem machine_outside (key : TcpSocketKey) (score : OwnerScore) (ho : sock.OutsideWindow h data)
    (hs : sock.state = .established) :
    if h.has Tcp.fin then (sock.tcpStateMachine key score h data).1.state = .closeWait
    else sock.Unmoved (sock.tcpStateMachine key score h data).1 ∧ (sock.tcpStateMachine key score h data).2 = none := by
  cases hfin : h.has Tcp.fin with
  | true => exact (machine_of_fin key score sock h data hfin hs).1
  | false =>
    have hno : ¬ (data ≠ [] ∧ h.seq = (sock.note score h).rcvNxt) := by
      rw [(note_spec score sock h).2.2.1]
      exact fun hin => ho.not_inOrder ⟨hs, hin⟩
    have hreply : (sock.tcpStateMachine key score h data).2 = none := by
      rw [machine_established key score sock h data hs]
      simp only [established, if_neg hno, hfin]
      rfl
    have hkeep := (machine_of_no_fin key score sock h data hfin (by rw [hs]; exact nofun)).2
    rw [if_neg ho.not_inOrder] at hkeep
    exact ⟨⟨(machine_stays key score sock h data hfin hs).trans hs.symm, hkeep.2, hkeep.1⟩, hreply⟩

end TcpSocket

open TcpSocket

namespace TcpWorld

/-- The segment leaves the connection as it was, and is answered by an acknowledgement at most. -/
def Resists (w : TcpWorld) (key : TcpSocketKey) (sock : TcpSocket) (score : OwnerScore) (src : Ip4) (raw : List UInt8) : Prop :=
  (∃ sock', (w.handleTcpSegment score src raw).2.sockets key = some sock' ∧ sock.Unmoved sock') ∧
    ∀ seg, (w.handleTcpSegment score src raw).1 = some seg → seg.flags = Tcp.ack ∧ seg.payload = []

variable {w : TcpWorld} {score : OwnerScore} {src : Ip4} {raw : List UInt8} {h : TcpHeader} {sock : TcpSocket}

lemma handleTcpSegment_of_rst (hp : TcpHeader.parse raw = some h) (hrst : h.has Tcp.rst = true) :
    w.handleTcpSegment score src raw = (none, w.setSocket (h.key src) none) := by
  unfold handleTcpSegment
  rw [hp]
  exact if_pos hrst

section
variable (hk : w.sockets (h.key src) = some sock) (hp : TcpHeader.parse raw = some h) (hrst : h.has Tcp.rst = false)
include hk hp hrst

lemma resists_of_deferred (hd : score.shouldDefer sock.ownerPid = true) : w.Resists (h.key src) sock score src raw := by
  unfold Resists
  rw [handleTcpSegment_of_active hp hrst hk, activeSegment_output, activeSegment_sockets, if_pos hd, if_pos hd]
  exact ⟨⟨sock, hk, rfl, rfl, rfl⟩, fun seg hseg => by cases hseg⟩

lemma resists_of_machine (hd : score.shouldDefer sock.ownerPid = false)
    (hm : sock.Unmoved (sock.tcpStateMachine (h.key src) score h (h.data raw)).1 ∧
      (sock.tcpStateMachine (h.key src) score h (h.data raw)).2 = none) : w.Resists (h.key src) sock score src raw := by
  have hdefer : ¬ score.shouldDefer sock.ownerPid = true := by rw [hd]; exact Bool.false_ne_true
  unfold Resists
  rw [handleTcpSegment_of_active hp hrst hk, activeSegment_output, activeSegment_sockets, if_neg hdefer, if_neg hdefer,
    setSocket_self, hm.2]
  exact ⟨⟨_, rfl, hm.1⟩, fun seg hseg => by cases hseg⟩

end

theorem resists_iff (hp : TcpHeader.parse raw = some h) (hk : w.sockets (h.key src) = some sock)
    (hup : sock.state = .established ∨ sock.state = .accepted) (ho : sock.OutsideWindow h (h.data raw)) :
    w.Resists (h.key src) sock score src raw ↔ h.has Tcp.rst = false ∧
      (h.has Tcp.fin = true → sock.state = .accepted ∨ score.shouldDefer sock.ownerPid = true) := by
  cases hrst : h.has Tcp.rst with
  | true =>
    refine iff_of_false (fun hr => ?_) (fun hc => Bool.noConfusion hc.1)
    obtain ⟨⟨sock', hs, -⟩, -⟩ := hr
    rw [handleTcpSegment_of_rst hp hrst, setSocket_self] at hs
    cases hs
  | false =>
    rw [and_iff_right rfl]
    cases hd : score.shouldDefer sock.ownerPid with
    | true => exact iff_of_true (resists_of_deferred hk hp hrst hd) (fun _ => .inr rfl)
    | false =>
      rcases hup with hs | hs
      · have hm := machine_outside (h.key src) score ho hs
        cases hfin : h.has Tcp.fin with
        | true =>
          rw [hfin, if_pos rfl] at hm
          refine iff_of_false (fun hr => ?_) (fun hc => ?_)
          · obtain ⟨⟨sock', hs', hstate, -⟩, -⟩ := hr
            rw [handleTcpSegment_of_active hp hrst hk, activeSegment_sockets, hd, if_neg Bool.false_ne_true,
              setSocket_self] at hs'
            rw [← Option.some.inj hs', hm, hs] at hstate
            cases hstate
          · rw [hs] at hc
            obtain hc | hc := hc rfl
            · cases hc
            · cases hc
        | false =>
          rw [hfin, if_neg Bool.false_ne_true] at hm
          exact iff_of_true (resists_of_machine hk hp hrst hd hm) (fun hc => Bool.noConfusion hc)
      · refine iff_of_true (resists_of_machine hk hp hrst hd ?_) (fun _ => .inl hs)
        have hsame : sock.tcpStateMachine (h.key src) score h (h.data raw) = (sock, none) := by
          unfold tcpStateMachine
          rw [hs]
        rw [hsame]
        exact ⟨⟨rfl, rfl, rfl⟩, rfl⟩

theorem resists_iff_old_ack : twoBytesStart.world.Resists twoBytes.key twoBytesSocket ⟨false, false, 0⟩
        (10, 0, 2, 2) (twoBytesRaw 0 Tcp.ack []) ↔
      (⟨4000, 80, 0, 0xDEAD0001, 5, Tcp.ack, 65535⟩ : TcpHeader).has Tcp.rst = false ∧
        ((⟨4000, 80, 0, 0xDEAD0001, 5, Tcp.ack, 65535⟩ : TcpHeader).has Tcp.fin = true → twoBytesSocket.state = .accepted ∨
            OwnerScore.shouldDefer ⟨false, false, 0⟩ twoBytesSocket.ownerPid = true) :=
  resists_iff (h := ⟨4000, 80, 0, 0xDEAD0001, 5, Tcp.ack, 65535⟩) (by decide) twoBytesStart_socket (.inl rfl)
    (by decide)

/-- A reset with an old sequence number removes the connection. -/
theorem old_reset_is_obeyed : TcpHeader.parse (twoBytesRaw 0 Tcp.rst []) = some ⟨4000, 80, 0, 0xDEAD0001, 5, Tcp.rst, 65535⟩ ∧
      twoBytesStart.world.sockets twoBytes.key = some twoBytesSocket ∧
      twoBytesSocket.OutsideWindow ⟨4000, 80, 0, 0xDEAD0001, 5, Tcp.rst, 65535⟩ [] ∧
      ¬ twoBytesStart.world.Resists twoBytes.key twoBytesSocket ⟨false, false, 0⟩ (10, 0, 2, 2) (twoBytesRaw 0 Tcp.rst []) := by
  refine ⟨by decide, twoBytesStart_socket, by decide, ?_⟩
  rintro ⟨⟨sock', hs, -⟩, -⟩
  have hgone : (twoBytesStart.world.handleTcpSegment ⟨false, false, 0⟩ (10, 0, 2, 2)
      (twoBytesRaw 0 Tcp.rst [])).2.sockets twoBytes.key = none := by decide
  rw [hgone] at hs
  cases hs

end TcpWorld

end NodeKernel
