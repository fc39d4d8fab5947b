import NodeKernel.Net.TcpDelivery

/-!
# What accept does to a connection

The state machine and `close` have no case for an accepted connection, so the run goes on differently after
`accept`. Two runs, one with and one without the call, are compared call by call.
-/
namespace NodeKernel

open PeerStream Option

namespace TcpSocket

variable {key : TcpSocketKey} {score : OwnerScore} {s t : TcpSocket} {h : TcpHeader} {data : List UInt8}

def Answers (s : TcpSocket) (h : TcpHeader) (data : List UInt8) : Prop :=
  match s.state with
  | .synSent => h.flags &&& (Tcp.syn ||| Tcp.ack) = Tcp.syn ||| Tcp.ack ∧ h.ack = s.sndNxt
  | .established => data ≠ [] ∧ h.seq = s.rcvNxt ∨ h.has Tcp.fin = true
  | .finWait1 | .finWait2 => h.has Tcp.fin = true
  | _ => False

/-- The socket `t` of the run with `accept` and the socket `s` of the run without. -/
structure Shadow (s t : TcpSocket) : Prop where
  state : t.state = .accepted
  sndNxt : t.sndNxt = s.sndNxt
  rcvNxt : t.rcvNxt = s.rcvNxt
  rcvBuf : t.rcvBuf = s.rcvBuf
  ownerPid : t.ownerPid = s.ownerPid
  retransmitBuf : t.retransmitBuf = s.retransmitBuf
  lastSendMs : t.lastSendMs = s.lastSendMs
  rtoMs : t.rtoMs = s.rtoMs

lemma machine_accepted (ht : t.state = .accepted) : t.tcpStateMachine key score h data = (t, none) := by
  unfold tcpStateMachine
  rw [ht]

lemma Shadow.note (hsh : Shadow s t) : Shadow (s.note score h) t := by
  obtain ⟨-, nsnd, nnxt, nbuf, npid, nretr, nlast, nrto⟩ := note_spec score s h
  exact ⟨hsh.state, hsh.sndNxt.trans nsnd.symm, hsh.rcvNxt.trans nnxt.symm, hsh.rcvBuf.trans nbuf.symm,
    hsh.ownerPid.trans npid.symm, hsh.retransmitBuf.trans nretr.symm, hsh.lastSendMs.trans nlast.symm,
    hsh.rtoMs.trans nrto.symm⟩

lemma Shadow.machine (hsh : Shadow s t) (hno : ¬ s.Answers h data) :
    (s.tcpStateMachine key score h data).2 = none ∧ Shadow (s.tcpStateMachine key score h data).1 t := by
  obtain ⟨hst, h₁, h₂, h₃, h₄, h₅, h₆, h₇⟩ := id hsh
  unfold Answers at hno
  unfold tcpStateMachine
  cases hs : s.state with
  | synSent =>
    simp only [hs] at hno
    simp only [synSent, if_neg hno]
    exact ⟨trivial, hsh⟩
  | synReceived =>
    dsimp only [synReceived]
    split
    · exact ⟨rfl, hst, h₁, h₂, h₃, h₄, h₅, h₆, h₇⟩
    · exact ⟨rfl, hsh⟩
  | established =>
    simp only [hs, not_or] at hno
    have hnxt : ¬ (data ≠ [] ∧ h.seq = (s.note score h).rcvNxt) := by
      rw [(note_spec score s h).2.2.1]
      exact hno.1
    simp only [established, if_neg hnxt, if_neg hno.2]
    exact ⟨trivial, hsh.note⟩
  | lastAck =>
    dsimp only [lastAck]
    split
    · exact ⟨rfl, hst, h₁, h₂, h₃, h₄, h₅, h₆, h₇⟩
    · exact ⟨rfl, hsh⟩
  | finWait1 =>
    simp only [hs] at hno
    simp only [finWait1, finWait2, if_neg hno]
    split
    · exact ⟨rfl, hst, h₁, h₂, h₃, h₄, h₅, h₆, h₇⟩
    · exact ⟨rfl, hsh⟩
  | finWait2 =>
    simp only [hs] at hno
    simp only [finWait2, if_neg hno]
    exact ⟨trivial, hsh⟩
  | closed | listen | accepted | closeWait | closing | timeWait => exact ⟨rfl, hsh⟩

lemma machine_of_answers (ha : s.Answers h data) : (s.tcpStateMachine key score h data).2 ≠ none := by
  unfold Answers at ha
  unfold tcpStateMachine
  cases hs : s.state with
  | synSent =>
    simp only [hs] at ha
    simp [synSent, if_pos ha, acknowledge]
  | established =>
    simp only [hs] at ha
    dsimp only [established]
    rw [(note_spec score s h).2.2.1]
    split
    · split <;> exact some_ne_none _
    · rename_i hno
      rw [if_pos (ha.resolve_left hno)]
      exact some_ne_none _
  | finWait1 =>
    simp only [hs] at ha
    dsimp only [finWait1]
    split
    · simp [finWait2, if_pos ha, acknowledge]
    · simp [finWait2, if_pos ha, acknowledge]
  | finWait2 =>
    simp only [hs] at ha
    simp [finWait2, if_pos ha, acknowledge]
  | synReceived | lastAck | closed | listen | accepted | closeWait | closing | timeWait =>
    simp only [hs] at ha

lemma Shadow.reply_iff (hsh : Shadow s t) : (s.tcpStateMachine key score h data).2 = none ↔ ¬ s.Answers h data :=
  ⟨fun hnone ha => machine_of_answers ha hnone, fun hno => (hsh.machine hno).1⟩

/-- `send` takes the same bytes in both runs. -/
def SendsAlike (data : List UInt8) (s t : TcpSocket) : Prop :=
  (s.state = .established ∨ s.state = .accepted) ∧ min s.allowed data.length = min t.allowed data.length

lemma Shadow.send_iff (hsh : Shadow s t) (now : ℕ) :
    (send key data now s).2 = (send key data now t).2 ↔ SendsAlike data s t := by
  have ht : t.state = .established ∨ t.state = .accepted := .inr hsh.state
  unfold send SendsAlike
  by_cases hs : s.state = .established ∨ s.state = .accepted
  · simp [hs, ht, makeReply, hsh.sndNxt, hsh.rcvNxt, List.take_eq_take_iff]
  · simp [hs, ht]

lemma Shadow.send (hsh : Shadow s t) (now : ℕ) (hC : SendsAlike data s t) :
    Shadow (send key data now s).1 (send key data now t).1 := by
  have htake : data.take t.allowed = data.take s.allowed := (List.take_eq_take_iff.mpr hC.2).symm
  unfold TcpSocket.send
  rw [if_pos hC.1, if_pos (.inr hsh.state)]
  exact ⟨hsh.state, by simp only [htake, hsh.sndNxt], hsh.rcvNxt, hsh.rcvBuf, hsh.ownerPid, htake, rfl, hsh.rtoMs⟩

/-- `close` does nothing in either run. -/
def ClosesAlike (s : TcpSocket) : Prop := s.state ≠ .established ∧ s.state ≠ .closeWait

lemma close_of_closesAlike (hC : ClosesAlike s) : close key s = (s, none) := by
  unfold close
  split
  · exact absurd ‹_› hC.1
  · exact absurd ‹_› hC.2
  · rfl

variable (hsh : Shadow s t)
include hsh

lemma Shadow.closesAlike : ClosesAlike t := by
  unfold ClosesAlike
  rw [hsh.state]
  exact ⟨nofun, nofun⟩

lemma Shadow.close_iff : (close key s).2 = (close key t).2 ↔ ClosesAlike s := by
  rw [close_of_closesAlike hsh.closesAlike]
  constructor
  · intro hnone
    refine ⟨fun he => ?_, fun he => ?_⟩
    · simp [close, he, closeWith] at hnone
    · simp [close, he, closeWith] at hnone
  · exact fun hC => by rw [close_of_closesAlike hC]

lemma Shadow.close (hC : ClosesAlike s) : Shadow (close key s).1 (close key t).1 := by
  rw [close_of_closesAlike hC, close_of_closesAlike hsh.closesAlike]
  exact hsh

/-- The timers run out in both runs, for the same bytes, or in neither. -/
def ResendsAlike (now : ℕ) (s t : TcpSocket) : Prop :=
  (s.expired now ↔ t.expired now) ∧ (s.expired now → s.sndUna = t.sndUna)

lemma Shadow.pollRetransmit_iff (now : ℕ) :
    (pollRetransmit key now s).2 = (pollRetransmit key now t).2 ↔ ResendsAlike now s t := by
  unfold pollRetransmit ResendsAlike
  split
  · split
    · simp [makeReply, hsh.rcvNxt, hsh.retransmitBuf, *]
    · simp [*]
  · split
    · simp [*]
    · simp [*]

lemma Shadow.pollRetransmit (now : ℕ) (hC : ResendsAlike now s t) :
    Shadow (pollRetransmit key now s).1 (pollRetransmit key now t).1 := by
  unfold TcpSocket.pollRetransmit
  by_cases hx : s.expired now
  · rw [if_pos hx, if_pos (hC.1.mp hx)]
    exact ⟨hsh.state, hsh.sndNxt, hsh.rcvNxt, hsh.rcvBuf, hsh.ownerPid, hsh.retransmitBuf, rfl, by simp [hsh.rtoMs]⟩
  · rw [if_neg hx, if_neg (fun ht => hx (hC.1.mpr ht))]
    exact hsh

lemma Shadow.recv (n : ℕ) : Shadow (recv n s).1 (recv n t).1 :=
  ⟨hsh.state, hsh.sndNxt, hsh.rcvNxt, by simp [TcpSocket.recv, hsh.rcvBuf], hsh.ownerPid, hsh.retransmitBuf,
    hsh.lastSendMs, hsh.rtoMs⟩

end TcpSocket

open TcpSocket

namespace TcpWorld

variable {w v : TcpWorld} {k : TcpSocketKey}

def Paired (a b : Option TcpSocket) : Prop := b = a ∨ ∃ s t, a = some s ∧ b = some t ∧ Shadow s t

/-- The states of the two runs: `v` is that of the run with `accept`. -/
structure Twin (w v : TcpWorld) : Prop where
  sockets : ∀ k, Paired (w.sockets k) (v.sockets k)
  listening : ∀ port, (v.listeners port).isSome = (w.listeners port).isSome
  deferred : v.deferred = w.deferred

lemma Twin.setSocket (hT : Twin w v) {a b : Option TcpSocket} (hab : Paired a b) :
    Twin (w.setSocket k a) (v.setSocket k b) := by
  refine ⟨fun k' => ?_, hT.listening, hT.deferred⟩
  by_cases hk : k' = k
  · subst hk
    rw [setSocket_self, setSocket_self]
    exact hab
  · rw [setSocket_of_ne a hk, setSocket_of_ne b hk]
    exact hT.sockets k'

lemma pushBacklog_listening (port : UInt16) : ((w.pushBacklog k).listeners port).isSome = (w.listeners port).isSome := by
  unfold pushBacklog
  by_cases hp : port = k.localPort
  · subst hp
    simp
  · simp [hp]

/-- `C` holds between the sockets of the two runs while the connection is accepted. -/
def OnAccepted (w v : TcpWorld) (k : TcpSocketKey) (C : TcpSocket → TcpSocket → Prop) : Prop :=
  ∀ s t, w.sockets k = some s → v.sockets k = some t → t.state = .accepted → C s t

lemma Twin.onSocket_iff {α : Type} (hT : Twin w v) (d : α) {f : TcpSocket → TcpSocket × α}
    {C : TcpSocket → TcpSocket → Prop} (hiff : ∀ s t, Shadow s t → ((f s).2 = (f t).2 ↔ C s t))
    (hself : ∀ s, s.state = .accepted → C s s) : (w.onSocket k d f).1 = (v.onSocket k d f).1 ↔ OnAccepted w v k C := by
  obtain heq | ⟨s, t, hs, ht, hsh⟩ := hT.sockets k
  · have hsame : (w.onSocket k d f).1 = (v.onSocket k d f).1 := by
      unfold onSocket
      rw [heq]
      split
      · rfl
      · rfl
    refine iff_of_true hsame (fun s t hs ht hacc => ?_)
    obtain rfl : s = t := mem_unique hs (heq ▸ ht)
    exact hself s hacc
  · rw [onSocket_self hs, onSocket_self ht, hiff s t hsh]
    constructor
    · rintro hC s' t' hs' ht' -
      obtain rfl := mem_unique hs hs'
      obtain rfl := mem_unique ht ht'
      exact hC
    · exact fun hall => hall s t hs ht hsh.state

lemma Twin.onSocket {α : Type} (hT : Twin w v) (d : α) {f : TcpSocket → TcpSocket × α}
    {C : TcpSocket → TcpSocket → Prop} (hkeep : ∀ s t, Shadow s t → C s t → Shadow (f s).1 (f t).1)
    (hC : OnAccepted w v k C) : Twin (w.onSocket k d f).2 (v.onSocket k d f).2 := by
  obtain heq | ⟨s, t, hs, ht, hsh⟩ := hT.sockets k
  · unfold TcpWorld.onSocket
    rw [heq]
    split
    · exact hT.setSocket (.inl rfl)
    · exact hT
  · rw [onSocket_self hs, onSocket_self ht]
    exact hT.setSocket (.inr ⟨_, _, rfl, rfl, hkeep s t hsh (hC s t hs ht hsh.state)⟩)

def Answered (score : OwnerScore) (h : TcpHeader) (raw : List UInt8) (s : TcpSocket) : Prop :=
  h.has Tcp.rst = false ∧ score.shouldDefer s.ownerPid = false ∧ s.Answers h (h.data raw)

def Unanswered (w v : TcpWorld) (score : OwnerScore) (src : Ip4) (raw : List UInt8) : Prop :=
  ∀ h, TcpHeader.parse raw = some h → OnAccepted w v (h.key src) (fun s _ => ¬ Answered score h raw s)

/-- What makes a call come out alike in the two runs. -/
def Alike (w v : TcpWorld) : TcpEvent → Prop
  | .segment score src raw => Unanswered w v score src raw
  | .flush score => ∀ p, w.deferred.head? = some p → Unanswered w v score p.1 p.2
  | .send k data _ => OnAccepted w v k (SendsAlike data)
  | .close k => OnAccepted w v k (fun s _ => ClosesAlike s)
  | .pollRetransmit k now => OnAccepted w v k (ResendsAlike now)
  | .recv .. | .listen .. | .accept .. => True

lemma Twin.activeSegment_iff {score : OwnerScore} {h : TcpHeader} {raw : List UInt8} {s t : TcpSocket} (hsh : Shadow s t) :
    (w.activeSegment k score s h raw).1 = (v.activeSegment k score t h raw).1 ↔
      ¬ (score.shouldDefer s.ownerPid = false ∧ s.Answers h (h.data raw)) := by
  unfold activeSegment
  rw [hsh.ownerPid]
  cases score.shouldDefer s.ownerPid with
  | true => simp
  | false => simp [machine_accepted hsh.state, hsh.reply_iff]

lemma Twin.activeSegment (hT : Twin w v) {score : OwnerScore} {h : TcpHeader} {raw : List UInt8} {s t : TcpSocket}
    (hsh : Shadow s t) (hno : ¬ (score.shouldDefer s.ownerPid = false ∧ s.Answers h (h.data raw))) :
    Twin (w.activeSegment k score s h raw).2 (v.activeSegment k score t h raw).2 := by
  unfold TcpWorld.activeSegment
  rw [hsh.ownerPid]
  cases hd : score.shouldDefer s.ownerPid with
  | true => exact ⟨hT.sockets, hT.listening, by simp [hT.deferred]⟩
  | false =>
    have hT' : Twin (w.setSocket k (some (s.tcpStateMachine k score h (h.data raw)).1)) (v.setSocket k (some t)) :=
      hT.setSocket (.inr ⟨_, _, rfl, rfl, (hsh.machine (fun ha => hno ⟨hd, ha⟩)).2⟩)
    simp only [machine_accepted hsh.state, hsh.state, Bool.false_eq_true, if_false]
    split
    · exact ⟨hT'.sockets, fun port => by simp [pushBacklog_listening, hT'.listening], hT'.deferred⟩
    · exact hT'

lemma Twin.activeSegment_same (hT : Twin w v) (score : OwnerScore) (h : TcpHeader) (raw : List UInt8) (s : TcpSocket) :
    (w.activeSegment k score s h raw).1 = (v.activeSegment k score s h raw).1 ∧
      Twin (w.activeSegment k score s h raw).2 (v.activeSegment k score s h raw).2 := by
  have hT' : Twin (w.setSocket k (some (s.tcpStateMachine k score h (h.data raw)).1)) (v.setSocket k _) :=
    hT.setSocket (.inl rfl)
  unfold TcpWorld.activeSegment
  split
  · exact ⟨rfl, hT.sockets, hT.listening, by simp [hT.deferred]⟩
  · split
    · exact ⟨rfl, hT'.sockets, fun port => by simp [pushBacklog_listening, hT'.listening], hT'.deferred⟩
    · exact ⟨rfl, hT'⟩

lemma Twin.strayHeader (hT : Twin w v) (h : TcpHeader) :
    (w.strayHeader k h).1 = (v.strayHeader k h).1 ∧ Twin (w.strayHeader k h).2 (v.strayHeader k h).2 := by
  unfold TcpWorld.strayHeader
  rw [hT.listening]
  split
  · exact ⟨rfl, hT.setSocket (.inl rfl)⟩
  · split
    · exact ⟨rfl, hT⟩
    · exact ⟨rfl, hT⟩

lemma answers_of_accepted {s : TcpSocket} {h : TcpHeader} {data : List UInt8} (hs : s.state = .accepted) :
    ¬ s.Answers h data := by
  unfold Answers
  rw [hs]
  exact id

lemma Twin.handleTcpSegment (hT : Twin w v) (score : OwnerScore) (src : Ip4) (raw : List UInt8) :
    ((w.handleTcpSegment score src raw).1 = (v.handleTcpSegment score src raw).1 ↔ Unanswered w v score src raw) ∧
      (Unanswered w v score src raw → Twin (w.handleTcpSegment score src raw).2 (v.handleTcpSegment score src raw).2) := by
  unfold TcpWorld.handleTcpSegment Unanswered OnAccepted Answered
  cases TcpHeader.parse raw with
  | none => exact ⟨by simp, fun _ => hT⟩
  | some h =>
    simp only [Option.some.injEq, forall_eq']
    cases h.has Tcp.rst with
    | true => exact ⟨by simp, fun _ => hT.setSocket (.inl rfl)⟩
    | false =>
      simp only [Bool.false_eq_true, if_false, true_and]
      obtain heq | ⟨s, t, hs, ht, hsh⟩ := hT.sockets (h.key src)
      · rw [heq]
        cases w.sockets (h.key src) with
        | none => exact ⟨by simp [(hT.strayHeader h).1], fun _ => (hT.strayHeader h).2⟩
        | some s =>
          obtain ⟨hout, htwin⟩ := hT.activeSegment_same (k := h.key src) score h raw s
          refine ⟨iff_of_true hout ?_, fun _ => htwin⟩
          rintro s' t' hs' ht' hacc ⟨-, hans⟩
          obtain rfl : s = s' := Option.some.inj hs'
          obtain rfl : s = t' := Option.some.inj ht'
          exact answers_of_accepted hacc hans
      · simp only [hs, ht, Option.some.injEq]
        have hone : (∀ s' t', s = s' → t = t' → t'.state = .accepted →
            ¬ (score.shouldDefer s'.ownerPid = false ∧ s'.Answers h (h.data raw))) ↔
            ¬ (score.shouldDefer s.ownerPid = false ∧ s.Answers h (h.data raw)) := by
          constructor
          · exact fun hall => hall s t rfl rfl hsh.state
          · rintro hno s' t' rfl rfl -
            exact hno
        rw [hone]
        exact ⟨Twin.activeSegment_iff hsh, fun hno => hT.activeSegment hsh hno⟩

lemma Twin.flush (hT : Twin w v) (score : OwnerScore) : ((w.flush score).1 = (v.flush score).1 ↔ Alike w v (.flush score)) ∧
      (Alike w v (.flush score) → Twin (w.flush score).2 (v.flush score).2) := by
  unfold TcpWorld.flush Alike
  rw [hT.deferred]
  cases w.deferred with
  | nil => exact ⟨by simp, fun _ => hT⟩
  | cons p rest =>
    have hT' : Twin { w with deferred := rest } { v with deferred := rest } := ⟨hT.sockets, hT.listening, rfl⟩
    simp only [List.head?_cons, Option.some.injEq, forall_eq']
    exact hT'.handleTcpSegment score p.1 p.2

lemma Twin.listen (hT : Twin w v) (port : UInt16) : Twin (w.listen port) (v.listen port) := by
  refine ⟨hT.sockets, fun port' => ?_, hT.deferred⟩
  unfold TcpWorld.listen
  by_cases hp : port' = port
  · subst hp
    simp
  · simp [hp, hT.listening]

def isAccept : TcpEvent → Bool
  | .accept _ => true
  | _ => false

lemma sent_inj {a b : Option TcpSegment} : (⟨a, []⟩ : TcpOutput) = ⟨b, []⟩ ↔ a = b := by simp

lemma Twin.call (hT : Twin w v) {e : TcpEvent} (he : isAccept e = false) :
    ((w.call e).1 = (v.call e).1 ↔ Alike w v e) ∧ (Alike w v e → Twin (w.call e).2 (v.call e).2) := by
  cases e with
  | segment score src raw =>
    obtain ⟨hiff, htwin⟩ := hT.handleTcpSegment score src raw
    exact ⟨sent_inj.trans hiff, htwin⟩
  | flush score =>
    obtain ⟨hiff, htwin⟩ := hT.flush score
    exact ⟨sent_inj.trans hiff, htwin⟩
  | send k data now =>
    refine ⟨sent_inj.trans ?_, hT.onSocket none (fun s t hsh hC => hsh.send now hC)⟩
    exact hT.onSocket_iff (f := TcpSocket.send k data now) none (fun s t hsh => hsh.send_iff now)
      (fun s hs => ⟨.inr hs, rfl⟩)
  | recv k n =>
    have hout : (w.recv k n).1 = (v.recv k n).1 := by
      refine (hT.onSocket_iff (C := fun _ _ => True) [] (fun s t hsh => ?_) (fun _ _ => trivial)).mpr
        (fun _ _ _ _ _ => trivial)
      simp [TcpSocket.recv, hsh.rcvBuf]
    have htwin : Twin (w.recv k n).2 (v.recv k n).2 :=
      hT.onSocket (C := fun _ _ => True) [] (fun s t hsh _ => hsh.recv n) (fun _ _ _ _ _ => trivial)
    exact ⟨iff_of_true (by simp [TcpWorld.call, hout]) trivial, fun _ => htwin⟩
  | close k =>
    refine ⟨sent_inj.trans ?_, hT.onSocket none (fun s t hsh hC => hsh.close hC)⟩
    exact hT.onSocket_iff (f := TcpSocket.close k) none (fun s t hsh => hsh.close_iff)
      (fun s hs => ⟨by simp [hs], by simp [hs]⟩)
  | pollRetransmit k now =>
    refine ⟨sent_inj.trans ?_, hT.onSocket none (fun s t hsh hC => hsh.pollRetransmit now hC)⟩
    exact hT.onSocket_iff (f := TcpSocket.pollRetransmit k now) none (fun s t hsh => hsh.pollRetransmit_iff now)
      (fun s _ => ⟨Iff.rfl, fun _ => rfl⟩)
  | listen port => exact ⟨iff_of_true rfl trivial, fun _ => hT.listen port⟩
  | accept port => cases he

lemma Twin.setRight (hT : Twin w v) {b : Option TcpSocket} (hb : Paired (w.sockets k) b) : Twin w (v.setSocket k b) := by
  have hself : w.setSocket k (w.sockets k) = w := by
    unfold TcpWorld.setSocket
    rw [Function.update_eq_self]
  exact hself ▸ hT.setSocket hb

lemma Twin.accept (w : TcpWorld) (port : UInt16) : Twin w (w.accept port).2 := by
  have hrefl : Twin w w := ⟨fun _ => .inl rfl, fun _ => rfl, rfl⟩
  unfold TcpWorld.accept
  split
  · rename_i key rest hl
    have hT : Twin w { w with listeners := Function.update w.listeners port (some rest) } := by
      refine ⟨fun _ => .inl rfl, fun port' => ?_, rfl⟩
      by_cases hp : port' = port
      · subst hp
        simp [hl]
      · simp [hp]
    unfold TcpWorld.onSocket
    dsimp only
    split
    · rename_i s hs
      exact hT.setRight (.inr ⟨s, _, hs, rfl, rfl, rfl, rfl, rfl, rfl, rfl, rfl, rfl⟩)
    · exact hT
  · exact hrefl
  · exact hrefl

theorem accept_transparent_iff (w : TcpWorld) (port : UInt16) (es : List TcpEvent) (hes : ∀ e ∈ es, isAccept e = false) :
    outputs call w es = outputs call (w.accept port).2 es ↔ Along call Alike w (w.accept port).2 es :=
  outputs_eq_iff (R := Twin) (fun _ _ _ he hT hC => (hT.call he).2 hC) (fun _ _ _ he hT => (hT.call he).1) hes
    (Twin.accept w port)

theorem accept_transparent_iff_recv : outputs call twoBytesStart.world [.recv twoBytes.key 2] =
        outputs call (twoBytesStart.world.accept 80).2 [.recv twoBytes.key 2] ↔
      Along call Alike twoBytesStart.world (twoBytesStart.world.accept 80).2 [.recv twoBytes.key 2] :=
  accept_transparent_iff _ 80 _ (by decide)

/-- After `accept` the data of the peer is neither taken nor acknowledged. -/
theorem accepted_hears_nothing : outputs call twoBytesStart.world [twoBytesSegment 1 Tcp.ack [104, 105], .recv twoBytes.key 2] ≠
      outputs call (twoBytesStart.world.accept 80).2 [twoBytesSegment 1 Tcp.ack [104, 105], .recv twoBytes.key 2] := by decide

end TcpWorld

end NodeKernel
