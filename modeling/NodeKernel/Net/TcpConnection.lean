import NodeKernel.Net.TcpStream

/-!
# One connection among the others

What a call of the network stack or of an application is for one connection, and that a connection hears of no others
and sends in no others.
-/
namespace NodeKernel

open Nat Option TcpHeader

inductive ConnEvent
  | segment (score : OwnerScore) (h : TcpHeader) (data : List UInt8)
  | send (data : List UInt8) (now : ℕ)
  | recv (n : ℕ)
  | close
  | pollRetransmit (now : ℕ)
  | accept

def TcpSegment.conn (seg : TcpSegment) : TcpSocketKey := ⟨seg.srcPort, seg.dstIp, seg.dstPort⟩

namespace TcpSocket

def on (key : TcpSocketKey) (sock : TcpSocket) : ConnEvent → TcpSocket × Option TcpSegment
  | .segment score h data => sock.tcpStateMachine key score h data
  | .send data now => sock.send key data now
  | .recv n => ((sock.recv n).1, none)
  | .close => sock.close key
  | .pollRetransmit now => sock.pollRetransmit key now
  | .accept => ({ sock with state := .accepted }, none)

variable {key : TcpSocketKey} {sock : TcpSocket} {seg : TcpSegment}

lemma acknowledge_answer (h : (acknowledge key sock).2 = some seg) : seg.conn = key ∧ seg.payload = [] := by
  obtain rfl := Option.some.inj h
  exact ⟨rfl, rfl⟩

lemma finWait2_answer {h : TcpHeader} (hseg : (finWait2 key sock h).2 = some seg) : seg.conn = key ∧ seg.payload = [] := by
  unfold finWait2 at hseg
  split at hseg
  · exact acknowledge_answer hseg
  · cases hseg

lemma established_answer {score : OwnerScore} {h : TcpHeader} {data : List UInt8}
    (hseg : (established key score sock h data).2 = some seg) : seg.conn = key ∧ seg.payload = [] := by
  unfold established at hseg
  dsimp only at hseg
  split at hseg
  · split at hseg
    · exact acknowledge_answer hseg
    · exact acknowledge_answer hseg
  · split at hseg
    · exact acknowledge_answer hseg
    · cases hseg

lemma machine_answer {score : OwnerScore} {h : TcpHeader} {data : List UInt8}
    (hseg : (sock.tcpStateMachine key score h data).2 = some seg) : seg.conn = key ∧ seg.payload = [] := by
  unfold tcpStateMachine at hseg
  split at hseg
  · unfold synSent at hseg
    split at hseg
    · exact acknowledge_answer hseg
    · cases hseg
  · unfold synReceived at hseg
    split at hseg
    · cases hseg
    · cases hseg
  · exact established_answer hseg
  · unfold lastAck at hseg
    split at hseg
    · cases hseg
    · cases hseg
  · unfold finWait1 at hseg
    split at hseg
    · exact finWait2_answer hseg
    · exact finWait2_answer hseg
  · exact finWait2_answer hseg
  all_goals cases hseg

/-- The congestion window, scaled for the owner of the socket. -/
def aiCwnd (sock : TcpSocket) : ℕ := (sock.cwnd.toUInt64 * sock.aiCwndMul.toUInt64 / 100).toUInt32.toNat

lemma allowed_eq (sock : TcpSocket) : sock.allowed = max (min sock.aiCwnd sock.sndWnd.toNat) Tcp.mss.toNat := rfl

lemma allowed_le (sock : TcpSocket) : sock.allowed ≤ 65535 := by
  have hmss : Tcp.mss.toNat = 1460 := rfl
  have hwnd : sock.sndWnd.toNat < 65536 := sock.sndWnd.toNat_lt
  rw [allowed_eq]
  omega

structure SameSender (sock sock' : TcpSocket) : Prop where
  sndNxt : sock'.sndNxt = sock.sndNxt
  sndUna : sock'.sndUna = sock.sndUna
  sndWnd : sock'.sndWnd = sock.sndWnd
  cwnd : sock'.cwnd = sock.cwnd
  aiCwndMul : sock'.aiCwndMul = sock.aiCwndMul
  retransmitBuf : sock'.retransmitBuf = sock.retransmitBuf

lemma SameSender.refl (sock : TcpSocket) : SameSender sock sock := ⟨rfl, rfl, rfl, rfl, rfl, rfl⟩

lemma finWait2_sender (key : TcpSocketKey) (sock : TcpSocket) (h : TcpHeader) : SameSender sock (finWait2 key sock h).1 := by
  unfold finWait2
  split
  · exact ⟨rfl, rfl, rfl, rfl, rfl, rfl⟩
  · exact .refl sock

lemma established_sender (score : OwnerScore) (h : TcpHeader) (data : List UInt8) :
    SameSender (sock.note score h) (established key score sock h data).1 := by
  unfold established
  dsimp only
  split
  · split
    · exact ⟨rfl, rfl, rfl, rfl, rfl, rfl⟩
    · exact ⟨rfl, rfl, rfl, rfl, rfl, rfl⟩
  · split
    · exact ⟨rfl, rfl, rfl, rfl, rfl, rfl⟩
    · exact .refl _

/-- What a segment does to the sending side: nothing, the end of the handshake, or what `note` does. -/
theorem machine_sender (key : TcpSocketKey) (score : OwnerScore) (sock : TcpSocket) (h : TcpHeader) (data : List UInt8) :
    SameSender sock (sock.tcpStateMachine key score h data).1 ∨
      SameSender { sock with sndUna := sock.sndNxt, sndWnd := h.window } (sock.tcpStateMachine key score h data).1 ∨
      sock.state = .established ∧ SameSender (sock.note score h) (sock.tcpStateMachine key score h data).1 := by
  unfold tcpStateMachine
  split
  · unfold synSent
    split
    · exact .inr (.inl ⟨rfl, rfl, rfl, rfl, rfl, rfl⟩)
    · exact .inl (.refl sock)
  · unfold synReceived
    split
    · exact .inr (.inl ⟨rfl, rfl, rfl, rfl, rfl, rfl⟩)
    · exact .inl (.refl sock)
  · exact .inr (.inr ⟨‹_›, established_sender score h data⟩)
  · unfold lastAck
    split
    · exact .inl ⟨rfl, rfl, rfl, rfl, rfl, rfl⟩
    · exact .inl (.refl sock)
  · unfold finWait1
    split
    · obtain ⟨h₁, h₂, h₃, h₄, h₅, h₆⟩ := finWait2_sender key { sock with state := .finWait2 } h
      exact .inl ⟨h₁, h₂, h₃, h₄, h₅, h₆⟩
    · exact .inl (finWait2_sender key sock h)
  · exact .inl (finWait2_sender key sock h)
  all_goals exact .inl (.refl sock)

/-- The owner, the threshold and the timeout are none of its business. -/
theorem machine_steady (key : TcpSocketKey) (score : OwnerScore) (sock : TcpSocket) (h : TcpHeader) (data : List UInt8) :
    (sock.tcpStateMachine key score h data).1.ownerPid = sock.ownerPid ∧
      (sock.tcpStateMachine key score h data).1.ssthresh = sock.ssthresh ∧
      (sock.tcpStateMachine key score h data).1.rtoMs = sock.rtoMs := by
  unfold tcpStateMachine synSent synReceived established lastAck finWait1 finWait2 note ackReceived
  dsimp only
  repeat' split
  all_goals exact ⟨rfl, rfl, rfl⟩

lemma on_conn {c : ConnEvent} (hseg : (sock.on key c).2 = some seg) : seg.conn = key := by
  cases c with
  | segment score h data => exact (machine_answer hseg).1
  | send data now =>
    simp only [on, send] at hseg
    split at hseg
    · obtain rfl := Option.some.inj hseg
      rfl
    · cases hseg
  | recv n => cases hseg
  | close =>
    simp only [on, close] at hseg
    split at hseg
    · obtain rfl := Option.some.inj hseg
      rfl
    · obtain rfl := Option.some.inj hseg
      rfl
    · cases hseg
  | pollRetransmit now =>
    simp only [on, pollRetransmit] at hseg
    split at hseg
    · obtain rfl := Option.some.inj hseg
      rfl
    · cases hseg
  | accept => cases hseg

end TcpSocket

namespace TcpWorld

def seenSegment (key : TcpSocketKey) (sock : TcpSocket) (score : OwnerScore) (src : Ip4) (raw : List UInt8) :
    Option ConnEvent :=
  match TcpHeader.parse raw with
  | some h =>
    if h.key src = key ∧ h.has Tcp.rst = false ∧ score.shouldDefer sock.ownerPid = false then
      some (.segment score h (h.data raw))
    else none
  | none => none

def connEvent (w : TcpWorld) (key : TcpSocketKey) (sock : TcpSocket) : TcpEvent → Option ConnEvent
  | .segment score src raw => seenSegment key sock score src raw
  | .flush score => w.deferred.head?.bind (fun p => seenSegment key sock score p.1 p.2)
  | .send k data now => if k = key then some (.send data now) else none
  | .recv k n => if k = key then some (.recv n) else none
  | .close k => if k = key then some .close else none
  | .pollRetransmit k now => if k = key then some (.pollRetransmit now) else none
  | .listen _ => none
  | .accept port => if (w.listeners port).bind List.head? = some key then some .accept else none

variable {w : TcpWorld} {key : TcpSocketKey} {sock : TcpSocket} {e : TcpEvent}

/-- The call is the event for the connection, or does not touch it. -/
def Concerns (w : TcpWorld) (key : TcpSocketKey) (sock : TcpSocket) (e : TcpEvent) : Option ConnEvent → Prop
  | some c => (w.call e).2.sockets key = some (sock.on key c).1 ∧ (w.call e).1.sent = (sock.on key c).2
  | none => (w.call e).2.sockets key = some sock ∧ ∀ seg, (w.call e).1.sent = some seg → seg.conn ≠ key

lemma handleTcpSegment_conn {score : OwnerScore} {src : Ip4} {raw : List UInt8} {seg : TcpSegment}
    (hseg : (w.handleTcpSegment score src raw).1 = some seg) :
    ∃ h, TcpHeader.parse raw = some h ∧ h.has Tcp.rst = false ∧ seg.conn = h.key src ∧
      ∀ sock, w.sockets (h.key src) = some sock → score.shouldDefer sock.ownerPid = false := by
  unfold handleTcpSegment at hseg
  split at hseg
  · cases hseg
  · next h hp =>
    refine ⟨h, hp, ?_⟩
    split at hseg
    · cases hseg
    · next hrst =>
      refine ⟨Bool.eq_false_of_not_eq_true hrst, ?_⟩
      split at hseg
      · next sock hk =>
        rw [activeSegment_output] at hseg
        split at hseg
        · cases hseg
        · next hd =>
          refine ⟨(TcpSocket.machine_answer hseg).1, fun sock' hk' => ?_⟩
          obtain rfl := mem_unique hk hk'
          exact Bool.eq_false_of_not_eq_true hd
      · next hk =>
        refine ⟨?_, fun sock hk' => absurd (hk.symm.trans hk') nofun⟩
        unfold strayHeader at hseg
        split at hseg
        · obtain rfl := Option.some.inj hseg
          rfl
        · split at hseg
          · obtain rfl := Option.some.inj hseg
            rfl
          · cases hseg

section Arriving
variable {score : OwnerScore} {src : Ip4} {raw : List UInt8} {h : TcpHeader}

lemma concerns_none_of_arriving (hk : w.sockets key = some sock) (ha : w.arriving e = some (score, src, raw))
    (hsock : sock.afterSegment key score src raw = some sock)
    (hother : ∀ h, TcpHeader.parse raw = some h → h.has Tcp.rst = false → h.key src = key →
      score.shouldDefer sock.ownerPid = true) : w.Concerns key sock e none := by
  have hk' : (w.taking e).sockets key = some sock := by rw [taking_sockets, hk]
  refine ⟨?_, ?_⟩
  · rw [call_arriving ha]
    exact (handleTcpSegment_socket hk' score src raw).trans hsock
  · rw [call_arriving ha]
    rintro seg hseg hconn
    obtain ⟨h, hp, hrst, hkey, hdefer⟩ := handleTcpSegment_conn hseg
    rw [hconn] at hkey
    have hd := hother h hp hrst hkey.symm
    rw [hdefer sock (by rw [← hkey, hk'])] at hd
    cases hd

lemma concerns_of_arriving (hk : w.sockets key = some sock) (ha : w.arriving e = some (score, src, raw))
    (hr : ¬ w.Resets key e) : w.Concerns key sock e (seenSegment key sock score src raw) := by
  unfold seenSegment
  cases hp : parse raw with
  | none =>
    refine concerns_none_of_arriving hk ha ?_ (fun h hp' => absurd (hp.symm.trans hp') nofun)
    unfold TcpSocket.afterSegment
    rw [hp]
  | some h =>
    have hk' : (w.taking e).sockets key = some sock := by rw [taking_sockets, hk]
    dsimp only
    split
    · next hc =>
      obtain ⟨rfl, hrst, hdefer⟩ := hc
      have hd : ¬ score.shouldDefer sock.ownerPid = true := by rw [hdefer]; exact Bool.false_ne_true
      unfold Concerns
      rw [call_arriving ha, handleTcpSegment_of_active hp hrst hk', activeSegment_sockets, activeSegment_output,
        if_neg hd, if_neg hd]
      exact ⟨setSocket_self _, rfl⟩
    · next hc =>
      refine concerns_none_of_arriving hk ha ?_ ?_
      · unfold TcpSocket.afterSegment
        rw [hp]
        dsimp only
        split
        · rfl
        · next hkey =>
          have hrst : h.has Tcp.rst = false := by
            by_contra hne
            exact hr ⟨score, src, raw, h, ha, hp, not_not.mp hkey, Bool.eq_true_of_not_eq_false hne⟩
          have hdefer : score.shouldDefer sock.ownerPid = true :=
            Bool.eq_true_of_not_eq_false (fun hd => hc ⟨not_not.mp hkey, hrst, hd⟩)
          rw [hrst, hdefer]
          rfl
      · intro h' hp' hrst hkey
        obtain rfl := mem_unique hp hp'
        exact Bool.eq_true_of_not_eq_false (fun hd => hc ⟨hkey, hrst, hd⟩)

end Arriving

section
variable (hk : w.sockets key = some sock)
include hk

lemma onSocket_sockets {α : Type} (d : α) (f : TcpSocket → TcpSocket × α) :
    (w.onSocket key d f).2.sockets key = some (f sock).1 := by
  rw [onSocket_self hk]
  exact setSocket_self _

lemma onSocket_concerns {k : TcpSocketKey} {c : ConnEvent}
    (hcall : w.call e = let r := w.onSocket k none (fun s => s.on k c); (⟨r.1, []⟩, r.2)) :
    w.Concerns key sock e (if k = key then some c else none) := by
  by_cases hkey : k = key
  · subst hkey
    rw [if_pos rfl]
    unfold Concerns
    rw [hcall, onSocket_self hk]
    exact ⟨setSocket_self _, rfl⟩
  · rw [if_neg hkey]
    refine ⟨?_, ?_⟩
    · rw [hcall]
      exact (onSocket_of_ne (Ne.symm hkey) _ _).trans hk
    · rw [hcall]
      rintro seg hseg rfl
      unfold onSocket at hseg
      split at hseg
      · exact hkey (TcpSocket.on_conn hseg).symm
      · cases hseg

lemma recv_concerns (k : TcpSocketKey) (n : ℕ) :
    w.Concerns key sock (.recv k n) (if k = key then some (.recv n) else none) := by
  have hcall : w.call (.recv k n) = (⟨none, (w.recv k n).1⟩, (w.recv k n).2) := rfl
  by_cases hkey : k = key
  · subst hkey
    rw [if_pos rfl]
    unfold Concerns
    rw [hcall, recv, onSocket_self hk]
    exact ⟨setSocket_self _, rfl⟩
  · rw [if_neg hkey]
    exact ⟨(onSocket_of_ne (Ne.symm hkey) _ _).trans hk, fun _ h => absurd h.symm (some_ne_none _)⟩

lemma accept_concerns (port : UInt16) : w.Concerns key sock (.accept port)
    (if (w.listeners port).bind List.head? = some key then some .accept else none) := by
  have hcall : w.call (.accept port) = (⟨none, []⟩, (w.accept port).2) := rfl
  cases hl : w.listeners port with
  | none =>
    rw [if_neg nofun]
    unfold Concerns
    rw [hcall, accept, hl]
    exact ⟨hk, nofun⟩
  | some backlog =>
    cases backlog with
    | nil =>
      rw [if_neg nofun]
      unfold Concerns
      rw [hcall, accept, hl]
      exact ⟨hk, nofun⟩
    | cons k rest =>
      rw [bind_some, List.head?_cons]
      by_cases hkey : k = key
      · subst hkey
        rw [if_pos rfl]
        have hk' : ({ w with listeners := Function.update w.listeners port (some rest) } : TcpWorld).sockets k = some sock := hk
        unfold Concerns
        rw [hcall, accept, hl]
        exact ⟨onSocket_sockets hk' () _, rfl⟩
      · rw [if_neg (fun h => hkey (Option.some.inj h))]
        unfold Concerns
        rw [hcall, accept, hl]
        exact ⟨(onSocket_of_ne (Ne.symm hkey) _ _).trans hk, nofun⟩

end

lemma seenSegment_eq {score : OwnerScore} {src : Ip4} {raw : List UInt8} {c : ConnEvent}
    (hc : seenSegment key sock score src raw = some c) : ∃ h, TcpHeader.parse raw = some h ∧
      (h.key src = key ∧ h.has Tcp.rst = false ∧ score.shouldDefer sock.ownerPid = false) ∧ c = .segment score h (h.data raw) := by
  unfold seenSegment at hc
  split at hc
  · next h hp =>
    split at hc
    · next hseen => exact ⟨h, hp, hseen, (Option.some.inj hc).symm⟩
    · cases hc
  · cases hc

/-- The calls that can be an event of the connection. -/
def CallFor (w : TcpWorld) (key : TcpSocketKey) (e : TcpEvent) : ConnEvent → Prop
  | .segment score _ _ => ∃ src raw, w.arriving e = some (score, src, raw)
  | .send data now => e = .send key data now
  | .recv n => e = .recv key n
  | .close => e = .close key
  | .pollRetransmit now => e = .pollRetransmit key now
  | .accept => ∃ port, e = .accept port

lemma connEvent_eq {c : ConnEvent} (h : w.connEvent key sock e = some c) : w.CallFor key e c := by
  cases e with
  | segment score src raw =>
    obtain ⟨h', -, -, rfl⟩ := seenSegment_eq h
    exact ⟨_, _, rfl⟩
  | flush score =>
    obtain ⟨p, hp, hseen⟩ := bind_eq_some_iff.mp h
    obtain ⟨h', -, -, rfl⟩ := seenSegment_eq hseen
    refine ⟨p.1, p.2, ?_⟩
    unfold arriving
    rw [hp]
    rfl
  | send k data now | recv k n | close k | pollRetransmit k now =>
    obtain ⟨rfl, hc⟩ := ite_none_right_eq_some.mp h
    obtain rfl := Option.some.inj hc
    rfl
  | listen port => cases h
  | accept port =>
    obtain ⟨-, hc⟩ := ite_none_right_eq_some.mp h
    obtain rfl := Option.some.inj hc
    exact ⟨port, rfl⟩

lemma connEvent_arriving {score : OwnerScore} {src : Ip4} {raw : List UInt8} (ha : w.arriving e = some (score, src, raw)) :
    w.connEvent key sock e = seenSegment key sock score src raw := by
  obtain rfl | ⟨rfl, rest, hd⟩ := arriving_eq ha
  · rfl
  · rw [connEvent, hd]
    rfl

lemma sees_of_connEvent {score : OwnerScore} {h : TcpHeader} {data : List UInt8}
    (hc : w.connEvent key sock e = some (.segment score h data)) : w.Sees key sock e score h data := by
  obtain ⟨src, raw, ha⟩ := connEvent_eq hc
  rw [connEvent_arriving ha] at hc
  obtain ⟨h', hp, ⟨hkey, hrst, hdefer⟩, heq⟩ := seenSegment_eq hc
  obtain ⟨-, rfl, rfl⟩ := ConnEvent.segment.inj heq
  exact ⟨src, raw, ha, hp, hkey, hrst, hdefer, rfl⟩

lemma call_concerns (hk : w.sockets key = some sock) (hr : ¬ w.Resets key e) :
    w.Concerns key sock e (w.connEvent key sock e) := by
  cases ha : w.arriving e with
  | some a =>
    rw [connEvent_arriving ha]
    exact concerns_of_arriving hk ha hr
  | none =>
    cases e with
    | segment => cases ha
    | flush score =>
      have hd : w.deferred = [] := by simpa [arriving] using ha
      unfold connEvent Concerns call flush
      rw [hd]
      exact ⟨hk, fun _ h => by cases h⟩
    | send k data now => exact onSocket_concerns (c := .send data now) hk rfl
    | recv k n => exact recv_concerns hk k n
    | close k => exact onSocket_concerns (c := .close) hk rfl
    | pollRetransmit k now => exact onSocket_concerns (c := .pollRetransmit now) hk rfl
    | listen port => exact ⟨hk, fun _ h => by cases h⟩
    | accept port => exact accept_concerns hk port

end TcpWorld

/-! ## Deferred segments -/

namespace TcpWorld

open List

variable {scores : ℕ → OwnerScore} {w : TcpWorld} {e : Ip4 × List UInt8} {rest : List (Ip4 × List UInt8)} {n : ℕ}

def ownerScore (w : TcpWorld) (scores : ℕ → OwnerScore) (e : Ip4 × List UInt8) : OwnerScore :=
  match TcpHeader.parse e.2 with
  | some h => scores ((w.sockets (h.key e.1)).elim 0 TcpSocket.ownerPid)
  | none => scores 0

def accepts (w : TcpWorld) (scores : ℕ → OwnerScore) (e : Ip4 × List UInt8) : Bool :=
  match TcpHeader.parse e.2 with
  | some h => !h.has Tcp.rst && (w.sockets (h.key e.1)).any (fun sock => !(scores sock.ownerPid).shouldDefer sock.ownerPid)
  | none => false

/-- The loop of `flush` for so many rounds at most: what the state machine was given, and the state. -/
def flushLoop (scores : ℕ → OwnerScore) : ℕ → TcpWorld → List (Ip4 × List UInt8) × TcpWorld
  | 0, w => ([], w)
  | n + 1, w =>
    match w.deferred with
    | [] => ([], w)
    | e :: _ =>
      let r := flushLoop scores n (w.flush (w.ownerScore scores e)).2
      (if w.accepts scores e then e :: r.1 else r.1, r.2)

/-- The loop has emptied the queue after no more rounds than it had segments, each of which was given to the state
machine once. -/
def Drains (w : TcpWorld) (scores : ℕ → OwnerScore) : Prop :=
  ∃ n ≤ w.deferred.length, (flushLoop scores n w).2.deferred = [] ∧ (flushLoop scores n w).1.Perm w.deferred

lemma accepts_iff : w.accepts scores e = true ↔ ∃ h sock, TcpHeader.parse e.2 = some h ∧ h.has Tcp.rst = false ∧
    w.sockets (h.key e.1) = some sock ∧ (scores sock.ownerPid).shouldDefer sock.ownerPid = false := by
  unfold accepts
  cases parse e.2 with
  | none => simp
  | some h => cases hk : w.sockets (h.key e.1) <;> simp [hk]

lemma flush_active {h : TcpHeader} {sock : TcpSocket} (hd : w.deferred = e :: rest) (hp : TcpHeader.parse e.2 = some h)
    (hrst : h.has Tcp.rst = false) (hk : w.sockets (h.key e.1) = some sock) : w.flush (w.ownerScore scores e) =
      { w with deferred := rest }.activeSegment (h.key e.1) (scores sock.ownerPid) sock h e.2 := by
  have hscore : w.ownerScore scores e = scores sock.ownerPid := by
    unfold ownerScore
    simp only [hp, hk, elim_some]
  unfold flush
  rw [hscore, hd]
  exact handleTcpSegment_of_active hp hrst hk

/-- A segment that gets to the state machine is gone from the queue, and nothing changes for the others. -/
theorem flush_accepted (hd : w.deferred = e :: rest) (ha : w.accepts scores e = true) :
    (w.flush (w.ownerScore scores e)).2.deferred = rest ∧
      ∀ e', (w.flush (w.ownerScore scores e)).2.accepts scores e' = w.accepts scores e' := by
  obtain ⟨h, sock, hp, hrst, hk, hdefer⟩ := accepts_iff.mp ha
  rw [flush_active hd hp hrst hk]
  constructor
  · unfold activeSegment
    rw [if_neg (by rw [hdefer]; exact Bool.false_ne_true)]
    split <;> rfl
  · intro e'
    unfold accepts
    rw [activeSegment_sockets, hdefer]
    cases parse e'.2 with
    | none => rfl
    | some h' =>
      by_cases hkey : h'.key e'.1 = h.key e.1
      · simp [hkey, hk, (TcpSocket.machine_steady _ _ sock h _).1]
      · simp [setSocket_of_ne _ hkey]

lemma length_flush (score : OwnerScore) : w.deferred.length ≤ (w.flush score).2.deferred.length + 1 := by
  unfold flush handleTcpSegment activeSegment strayHeader
  repeat' split
  all_goals simp_all [setSocket, pushBacklog]

lemma length_flushLoop (scores : ℕ → OwnerScore) (n : ℕ) (w : TcpWorld) : w.deferred.length ≤ (flushLoop scores n w).2.deferred.length + n ∧
    (flushLoop scores n w).1.length ≤ n := by
  induction n generalizing w with
  | zero => exact ⟨le_refl _, le_refl _⟩
  | succ n ih =>
    unfold flushLoop
    split
    · next hd => simp [hd]
    · next e rest hd =>
      obtain ⟨hqueue, hgiven⟩ := ih (w.flush (w.ownerScore scores e)).2
      have hround := length_flush (w := w) (w.ownerScore scores e)
      dsimp only
      split
      · rw [length_cons]
        omega
      · omega

lemma flushLoop_all_iff (w : TcpWorld) {queue : List (Ip4 × List UInt8)} (hd : w.deferred = queue) :
    ((flushLoop scores queue.length w).2.deferred = [] ∧ (flushLoop scores queue.length w).1.Perm queue) ↔
      ∀ e ∈ queue, w.accepts scores e = true := by
  induction queue generalizing w with
  | nil => simpa [flushLoop] using hd
  | cons e queue ih =>
    rw [length_cons, flushLoop, hd, forall_mem_cons]
    dsimp only
    by_cases ha : w.accepts scores e = true
    · obtain ⟨hrest, hsame⟩ := flush_accepted hd ha
      rw [if_pos ha, perm_cons, ih _ hrest]
      simp only [hsame, ha, true_and]
    · rw [if_neg ha]
      refine iff_of_false (fun h => ?_) (fun h => ha h.1)
      have hlen := h.2.length_eq
      have hle := (length_flushLoop scores queue.length (w.flush (w.ownerScore scores e)).2).2
      rw [length_cons] at hlen
      omega

/-- The queue drains exactly if every segment in it is one that the state machine would get at once. -/
theorem flush_drains_iff (w : TcpWorld) (scores : ℕ → OwnerScore) :
    w.Drains scores ↔ ∀ e ∈ w.deferred, w.accepts scores e = true := by
  rw [← flushLoop_all_iff w rfl]
  constructor
  · rintro ⟨n, hn, hempty, hperm⟩
    have hlen := (length_flushLoop scores n w).1
    rw [hempty, length_nil, zero_add] at hlen
    obtain rfl : n = w.deferred.length := le_antisymm hn hlen
    exact ⟨hempty, hperm⟩
  · exact fun h => ⟨_, le_refl _, h⟩

/-- A connection of process 7, and a segment for it that was deferred. -/
def chaoticOwner : TcpWorld where
  sockets := fun _ => some { TcpSocket.newSynReceived 0 with ownerPid := 7 }
  listeners := fun _ => none
  deferred := [((10, 0, 2, 2), List.replicate 20 0)]

theorem flush_never_ends : ¬ ∃ n, (flushLoop (fun _ => ⟨true, false, 0⟩) n chaoticOwner).2.deferred = [] := by
  rintro ⟨n, hempty⟩
  induction n with
  | zero => exact cons_ne_nil _ _ hempty
  | succ n ih =>
    -- The round defers the segment again, so the state after it is the one before.
    exact ih hempty

end TcpWorld

end NodeKernel
