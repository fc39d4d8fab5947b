import NodeKernel.Lib.Backlog
import NodeKernel.Net.TcpDelivery

/-!
# The accept queue

The table of connections and the backlogs of the ports are two maps. A key stays in a backlog when its connection is
reset, closed or ended by the peer before `accept` takes it out.
-/
namespace NodeKernel

open Backlog (Move)
open Function Option TcpSocket Backlog TcpHeader

def TcpState.phase : TcpState → SessionPhase
  | .synReceived => .opening
  | .established => .ready
  | .closed | .listen | .synSent | .accepted | .finWait1 | .finWait2 | .closeWait | .closing | .lastAck | .timeWait => .other

namespace TcpWorld

def phases (w : TcpWorld) (k : TcpSocketKey) : Option SessionPhase := (w.sockets k).map (fun sock => sock.state.phase)

/-- A change of the state of a connection, as far as the queues see it. -/
def shift (k : TcpSocketKey) (state state' : TcpState) : Move TcpSocketKey UInt16 :=
  if state'.phase = state.phase then .stays else .changes k (some state'.phase)

def segmentMove (w : TcpWorld) (score : OwnerScore) (src : Ip4) (raw : List UInt8) : Move TcpSocketKey UInt16 :=
  match TcpHeader.parse raw with
  | none => .stays
  | some h =>
    if h.has Tcp.rst then .changes (h.key src) none
    else
      match w.sockets (h.key src) with
      | none =>
        if h.has Tcp.syn && !h.has Tcp.ack && (w.listeners (h.key src).localPort).isSome then .opened (h.key src)
        else .stays
      | some sock =>
        if score.shouldDefer sock.ownerPid then .stays
        else if sock.state = .synReceived ∧ sock.completes h = true then .completes (h.key src)
        else shift (h.key src) sock.state (sock.tcpStateMachine (h.key src) score h (h.data raw)).1.state

/-- What a call is for the queues. -/
def move (w : TcpWorld) : TcpEvent → Move TcpSocketKey UInt16
  | .segment score src raw => w.segmentMove score src raw
  | .flush score => match w.deferred with
    | [] => .stays
    | (src, raw) :: _ => w.segmentMove score src raw
  | .close k => match w.sockets k with
    | none => .stays
    | some sock => shift k sock.state (sock.close k).1.state
  | .listen port => .listen port
  | .accept port => .gives port
  | .send .. | .recv .. | .pollRetransmit .. => .stays

end TcpWorld

/-- A run as the listening application sees it. Every connection has a number, also where its key was used before;
`established` has the numbers of those that became established from our side of a SYN, and `returned` the numbers of
those that `accept` has returned the key of. -/
structure AcceptHistory where
  world : TcpWorld
  ident : TcpSocketKey → ℕ
  clock : ℕ
  established : List ℕ
  returned : List ℕ

namespace AcceptHistory

def backlog (h : AcceptHistory) : Backlog TcpSocketKey UInt16 :=
  ⟨h.world.phases, h.world.listeners, h.ident, h.clock, h.established, h.returned⟩

def call (h : AcceptHistory) (e : TcpEvent) : AcceptHistory :=
  let b := h.backlog.step TcpSocketKey.localPort (h.world.move e)
  ⟨(h.world.call e).2, b.ident, b.clock, b.completed, b.given⟩

end AcceptHistory

namespace TcpWorld

variable {w : TcpWorld} {k : TcpSocketKey} {e : TcpEvent} {sock : TcpSocket}

lemma phases_setSocket (o : Option TcpSocket) : (w.setSocket k o).phases =
    update w.phases k (o.map (fun sock => sock.state.phase)) := by
  funext k'
  unfold phases setSocket
  dsimp only
  rw [update_apply, update_apply]
  split
  · rfl
  · rfl

lemma phases_of_some (hk : w.sockets k = some sock) : w.phases k = some sock.state.phase := by
  unfold phases
  rw [hk]
  rfl

/-- The queues after a move, on the two maps alone. -/
def Follows (w w' : TcpWorld) (m : Move TcpSocketKey UInt16) : Prop :=
  ∀ ident clock completed given,
    ((⟨w.phases, w.listeners, ident, clock, completed, given⟩ : Backlog TcpSocketKey UInt16).step
      TcpSocketKey.localPort m).phase = w'.phases ∧
    ((⟨w.phases, w.listeners, ident, clock, completed, given⟩ : Backlog TcpSocketKey UInt16).step
      TcpSocketKey.localPort m).queue = w'.listeners

lemma follows_stays {w' : TcpWorld} (hs : w'.phases = w.phases) (hl : w'.listeners = w.listeners) :
    w.Follows w' .stays := fun _ _ _ _ => ⟨hs.symm, hl.symm⟩

lemma follows_shift (hk : w.sockets k = some sock) (sock' : TcpSocket) :
    w.Follows (w.setSocket k (some sock')) (shift k sock.state sock'.state) := by
  unfold shift
  split
  · next hsame =>
    refine follows_stays ?_ rfl
    rw [phases_setSocket, map_some, hsame, ← phases_of_some hk]
    exact update_eq_self k w.phases
  · exact fun _ _ _ _ => ⟨(phases_setSocket (some sock')).symm, rfl⟩

variable {b : Backlog TcpSocketKey UInt16} {score : OwnerScore} {h : TcpHeader} {data : List UInt8} {raw : List UInt8}

lemma machine_completes {key : TcpSocketKey} (hs : sock.state = .synReceived) (hc : sock.completes h = true) :
    (sock.tcpStateMachine key score h data).1.state = .established := by
  unfold tcpStateMachine synReceived
  rw [hs]
  rw [if_pos hc]

lemma follows_active (hk : w.sockets k = some sock) :
    w.Follows (w.activeSegment k score sock h raw).2 (if score.shouldDefer sock.ownerPid then .stays
      else if sock.state = .synReceived ∧ sock.completes h = true then .completes k
      else shift k sock.state (sock.tcpStateMachine k score h (h.data raw)).1.state) := by
  unfold activeSegment
  split
  · exact follows_stays rfl rfl
  · split
    · next hc =>
      refine fun _ _ _ _ => ⟨?_, rfl⟩
      refine Eq.trans ?_ (phases_setSocket _).symm
      rw [map_some, machine_completes hc.1 hc.2]
      rfl
    · exact follows_shift hk _

lemma follows_stray : w.Follows (w.strayHeader k h).2
    (if h.has Tcp.syn && !h.has Tcp.ack && (w.listeners k.localPort).isSome then .opened k else .stays) := by
  unfold strayHeader
  split
  · exact fun _ _ _ _ => ⟨(phases_setSocket (some (newSynReceived h.seq))).symm, rfl⟩
  · split
    · exact follows_stays rfl rfl
    · exact follows_stays rfl rfl

lemma follows_segment (score : OwnerScore) (src : Ip4) (raw : List UInt8) :
    w.Follows (w.handleTcpSegment score src raw).2 (w.segmentMove score src raw) := by
  unfold handleTcpSegment segmentMove
  cases parse raw with
  | none => exact follows_stays rfl rfl
  | some h =>
    dsimp only
    split
    · exact fun _ _ _ _ => ⟨(phases_setSocket none).symm, rfl⟩
    · cases hk : w.sockets (h.key src) with
      | none => exact follows_stray
      | some sock => exact follows_active hk

lemma follows_onSocket {α : Type} {d : α} {f : TcpSocket → TcpSocket × α} (hf : ∀ sock, (f sock).1.state = sock.state) :
    w.Follows (w.onSocket k d f).2 .stays := by
  cases hk : w.sockets k with
  | none =>
    unfold onSocket
    rw [hk]
    exact follows_stays rfl rfl
  | some sock =>
    rw [onSocket_self hk]
    have hshift := follows_shift hk (f sock).1
    unfold shift at hshift
    rwa [hf, if_pos rfl] at hshift

lemma send_state (key : TcpSocketKey) (data : List UInt8) (now : ℕ) (sock : TcpSocket) :
    (sock.send key data now).1.state = sock.state := by
  unfold TcpSocket.send
  split
  · rfl
  · rfl

lemma poll_state (key : TcpSocketKey) (now : ℕ) (sock : TcpSocket) : (sock.pollRetransmit key now).1.state = sock.state := by
  unfold TcpSocket.pollRetransmit
  split
  · rfl
  · rfl

lemma follows_accept (port : UInt16) : w.Follows (w.accept port).2 (.gives port) := by
  intro ident clock completed given
  simp only [step, give, accept]
  cases w.listeners port with
  | none => exact ⟨rfl, rfl⟩
  | some l =>
    cases l with
    | nil => exact ⟨rfl, rfl⟩
    | cons k rest =>
      unfold onSocket
      dsimp only
      cases hk : w.sockets k with
      | none =>
        refine ⟨?_, rfl⟩
        have hnone : w.phases k = none := by unfold phases; rw [hk]; rfl
        have hself := update_eq_self k w.phases
        rw [hnone] at hself ⊢
        exact hself
      | some sock =>
        refine ⟨?_, rfl⟩
        rw [phases_of_some hk]
        exact (phases_setSocket (w := ⟨w.sockets, update w.listeners port (some rest), w.deferred⟩)
          (some { sock with state := .accepted })).symm

lemma follows_call (e : TcpEvent) : w.Follows (w.call e).2 (w.move e) := by
  cases e with
  | segment score src raw => exact follows_segment score src raw
  | flush score =>
    unfold call flush move
    cases hd : w.deferred with
    | nil => exact follows_stays rfl rfl
    | cons p rest => exact follows_segment (w := { w with deferred := rest }) score p.1 p.2
  | send k data now => exact follows_onSocket (send_state k data now)
  | recv k n => exact follows_onSocket (fun _ => rfl)
  | close k =>
    cases hk : w.sockets k with
    | none =>
      simp only [call, close, move, onSocket, hk]
      exact follows_stays rfl rfl
    | some sock =>
      simp only [call, close, move, onSocket_self hk, hk]
      exact follows_shift hk _
  | pollRetransmit k now => exact follows_onSocket (poll_state k now)
  | listen port => exact fun _ _ _ _ => ⟨rfl, rfl⟩
  | accept port => exact follows_accept port

lemma ready_iff : w.phases k = some .ready ↔ ∃ sock, w.sockets k = some sock ∧ sock.state = .established := by
  unfold phases
  rw [map_eq_some_iff]
  refine exists_congr (fun sock => and_congr_right (fun _ => ?_))
  cases sock.state <;> simp [TcpState.phase]

/-! ## The moves of the calls -/

lemma machine_opening {key : TcpSocketKey}
    (hr : (sock.tcpStateMachine key score h data).1.state = .synReceived) : sock.state = .synReceived := by
  by_contra hne
  have hnote := (note_spec score sock h).1
  unfold tcpStateMachine synSent established lastAck finWait1
    finWait2 acknowledge finReceived append at hr
  dsimp only at hr
  repeat' split at hr
  all_goals simp_all

lemma enabled_shift {state' : TcpState} (hb : b.phase = w.phases)
    (hk : w.sockets k = some sock) (hopen : state' = .synReceived → sock.state = .synReceived) :
    b.Enabled TcpSocketKey.localPort (shift k sock.state state') := by
  have hphase : b.phase k = some sock.state.phase := by rw [hb, phases_of_some hk]
  unfold shift
  split
  · trivial
  · next hne =>
    refine ⟨?_, fun _ => by rw [hphase]; rfl, ?_⟩
    · intro heq
      have hstate : state' = .synReceived := by
        cases state' <;> simp [TcpState.phase] at heq ⊢
      rw [hopen hstate, hstate] at hne
      exact hne rfl
    · intro heq hready
      rw [hphase] at hready
      exact hne (Option.some.inj (heq.trans hready.symm))

lemma enabled_segment (hb : b.phase = w.phases) (hq : b.queue = w.listeners)
    (score : OwnerScore) (src : Ip4) (raw : List UInt8) : b.Enabled TcpSocketKey.localPort (w.segmentMove score src raw) := by
  unfold segmentMove
  cases parse raw with
  | none => trivial
  | some h =>
    dsimp only
    split
    · exact ⟨nofun, nofun, nofun⟩
    · cases hk : w.sockets (h.key src) with
      | none =>
        dsimp only
        split
        · next hsyn =>
          refine ⟨?_, ?_⟩
          · rw [hb, phases, hk]
            rfl
          · rw [hq]
            exact (Bool.and_eq_true_iff.mp hsyn).2
        · trivial
      | some sock =>
        dsimp only
        split
        · trivial
        · split
          · next hc =>
            change b.phase _ = _
            rw [hb, phases_of_some hk, hc.1]
            rfl
          · exact enabled_shift hb hk machine_opening

lemma enabled_move (hb : b.phase = w.phases) (hq : b.queue = w.listeners)
    (e : TcpEvent) : b.Enabled TcpSocketKey.localPort (w.move e) := by
  cases e with
  | segment score src raw => exact enabled_segment hb hq score src raw
  | flush score =>
    cases hd : w.deferred with
    | nil =>
      simp only [move, hd]
      trivial
    | cons p rest =>
      simp only [move, hd]
      exact enabled_segment hb hq score p.1 p.2
  | close k =>
    cases hk : w.sockets k with
    | none =>
      simp only [move, hk]
      trivial
    | some sock =>
      simp only [move, hk]
      refine enabled_shift hb hk (fun hr => ?_)
      unfold TcpSocket.close at hr
      split at hr
      · cases hr
      · cases hr
      · exact hr
  | send | recv | pollRetransmit | listen | accept => trivial

/-- The connections whose keys wait in a backlog are neither reset nor closed, and see no FIN. -/
def LeavesWaiting (w : TcpWorld) (e : TcpEvent) : Prop :=
  ∀ port l k, w.listeners port = some l → k ∈ l → ¬ w.Resets k e ∧ e ≠ .close k ∧
    ∀ sock score h data, w.sockets k = some sock → w.Sees k sock e score h data → h.has Tcp.fin = false

lemma move_of_arriving {src : Ip4} (ha : w.arriving e = some (score, src, raw)) : w.move e = w.segmentMove score src raw := by
  obtain rfl | ⟨rfl, rest, hd⟩ := arriving_eq ha
  · rfl
  · simp only [move, hd]

lemma move_of_resets (hr : w.Resets k e) : w.move e = .changes k none := by
  obtain ⟨score, src, raw, h, ha, hp, rfl, hrst⟩ := hr
  rw [move_of_arriving ha]
  simp only [segmentMove, hp, hrst, if_true]

lemma move_of_sees (hk : w.sockets k = some sock) (hs : sock.state = .established) (hsee : w.Sees k sock e score h data) :
    w.move e = shift k sock.state (sock.tcpStateMachine k score h data).1.state := by
  obtain ⟨src, raw, ha, hp, rfl, hrst, hdefer, rfl⟩ := hsee
  rw [move_of_arriving ha]
  simp [segmentMove, hp, hrst, hk, hdefer, hs]

lemma move_of_close (hk : w.sockets k = some sock) (hs : sock.state = .established) :
    w.move (.close k) = .changes k (some .other) := by
  simp only [move, hk, TcpSocket.close, hs, TcpSocket.closeWith]
  rfl

lemma of_segmentMove_changes {src : Ip4} {ph : Option SessionPhase}
    (ha : w.arriving e = some (score, src, raw)) (hm : w.segmentMove score src raw = .changes k ph)
    (hk : w.sockets k = some sock) (hs : sock.state = .established) :
    w.Resets k e ∨ ∃ h data, w.Sees k sock e score h data ∧ h.has Tcp.fin = true := by
  unfold segmentMove at hm
  cases hp : parse raw with
  | none =>
    rw [hp] at hm
    cases hm
  | some h =>
    rw [hp] at hm
    dsimp only at hm
    split at hm
    · next hrst =>
      obtain ⟨rfl, -⟩ := Move.changes.inj hm
      exact .inl ⟨score, src, raw, h, ha, hp, rfl, hrst⟩
    · next hrst =>
      refine .inr ⟨h, h.data raw, ?_⟩
      cases hk' : w.sockets (h.key src) with
      | none =>
        simp only [hk'] at hm
        split at hm
        · cases hm
        · cases hm
      | some sock' =>
        simp only [hk'] at hm
        split at hm
        · cases hm
        · next hdefer =>
          split at hm
          · cases hm
          · unfold shift at hm
            split at hm
            · cases hm
            · next hne =>
              obtain ⟨rfl, -⟩ := Move.changes.inj hm
              obtain rfl := mem_unique hk hk'
              refine ⟨⟨src, raw, ha, hp, rfl, Bool.eq_false_of_not_eq_true hrst, Bool.eq_false_of_not_eq_true hdefer, rfl⟩, ?_⟩
              by_contra hfin
              rw [sock.machine_stays _ score h _ (Bool.eq_false_of_not_eq_true hfin) hs, hs] at hne
              exact hne rfl

lemma ready_of_listeners (hb : b.phase = w.phases) (hr : b.Right) (hk : b.Waits k) :
    ∃ sock, w.sockets k = some sock ∧ sock.state = .established :=
  ready_iff.mp (hb ▸ hr.ready k hk)

lemma spares_iff (hb : b.phase = w.phases) (hq : b.queue = w.listeners) (hr : b.Right)
    (e : TcpEvent) : b.Spares (w.move e) ↔ w.LeavesWaiting e := by
  constructor
  · intro hsp port l k hl hmem
    have hk : b.Waits k := ⟨port, l, by rw [hq, hl], hmem⟩
    obtain ⟨sock, hsock, hest⟩ := ready_of_listeners hb hr hk
    refine ⟨?_, ?_, ?_⟩
    · intro hreset
      rw [move_of_resets hreset] at hsp
      exact hsp hk
    · rintro rfl
      rw [move_of_close hsock hest] at hsp
      exact hsp hk
    · intro sock' score h data hsock' hsee
      obtain rfl := mem_unique hsock hsock'
      by_contra hfin
      rw [move_of_sees hsock hest hsee,
        (sock.machine_of_fin k score h data (Bool.eq_true_of_not_eq_false hfin) hest).1, hest] at hsp
      exact hsp hk
  · intro hleave
    cases hm : w.move e with
    | changes k ph =>
      rintro hk
      obtain ⟨sock, hsock, hest⟩ := ready_of_listeners hb hr hk
      obtain ⟨port, l, hl, hmem⟩ := hk
      obtain ⟨hreset, hclose, hfin⟩ := hleave port l k (by rw [← hq, hl]) hmem
      cases ha : w.arriving e with
      | some a =>
        obtain ⟨score, src, raw⟩ := a
        rw [move_of_arriving ha] at hm
        obtain h | ⟨h, data, hsee, hset⟩ := of_segmentMove_changes ha hm hsock hest
        · exact hreset h
        · rw [hfin sock score h data hsock hsee] at hset
          cases hset
      | none =>
        cases e with
        | close k' =>
          simp only [move] at hm
          split at hm
          · cases hm
          · unfold shift at hm
            split at hm
            · cases hm
            · exact hclose ((Move.changes.inj hm).1 ▸ rfl)
        | segment => cases ha
        | flush score =>
          have hd : w.deferred = [] := by simpa [arriving] using ha
          simp only [move, hd] at hm
          cases hm
        | send | recv | pollRetransmit | listen | accept => cases hm
    | listen | opened | completes | gives | stays => trivial

end TcpWorld

namespace AcceptHistory

/-- Every key in a backlog is there once and names an established connection, and every connection that became
established on a listening port either waits and has not been returned, or has been returned once. -/
structure Right (h : AcceptHistory) : Prop where
  once : ∀ port l, h.world.listeners port = some l → l.Nodup
  live : ∀ port l k, h.world.listeners port = some l → k ∈ l →
    ∃ sock, h.world.sockets k = some sock ∧ sock.state = .established
  returnedOnce : h.returned.Nodup
  returnedEstablished : ∀ i ∈ h.returned, i ∈ h.established
  waitingEstablished : ∀ port l k, h.world.listeners port = some l → k ∈ l → h.ident k ∈ h.established
  waiting : ∀ i ∈ h.established,
    i ∈ h.returned ↔ ¬ ∃ port l k, h.world.listeners port = some l ∧ k ∈ l ∧ h.ident k = i

lemma right_iff {h : AcceptHistory} : h.Right ↔ h.backlog.Right := by
  have hsome (i : ℕ) : (∃ port l k, h.world.listeners port = some l ∧ k ∈ l ∧ h.ident k = i) ↔
      ∃ k, h.backlog.Waits k ∧ h.backlog.ident k = i :=
    ⟨fun ⟨port, l, k, hl, hk, hi⟩ => ⟨k, ⟨port, l, hl, hk⟩, hi⟩, fun ⟨k, ⟨port, l, hl, hk⟩, hi⟩ => ⟨port, l, k, hl, hk, hi⟩⟩
  constructor
  · intro hr
    refine ⟨hr.once, ?_, hr.returnedOnce, hr.returnedEstablished, ?_, ?_⟩
    · rintro k ⟨port, l, hl, hk⟩
      exact TcpWorld.ready_iff.mpr (hr.live port l k hl hk)
    · rintro k ⟨port, l, hl, hk⟩
      exact hr.waitingEstablished port l k hl hk
    · intro i hi
      exact (hr.waiting i hi).trans (not_congr (hsome i))
  · intro hr
    refine ⟨hr.nodup, ?_, hr.givenOnce, hr.givenCompleted, ?_, ?_⟩
    · exact fun port l k hl hk => TcpWorld.ready_iff.mp (hr.ready k ⟨port, l, hl, hk⟩)
    · exact fun port l k hl hk => hr.waitsCompleted k ⟨port, l, hl, hk⟩
    · intro i hi
      exact (hr.waits i hi).trans (not_congr (hsome i).symm)

lemma call_backlog (h : AcceptHistory) (e : TcpEvent) :
    (h.call e).backlog = h.backlog.step TcpSocketKey.localPort (h.world.move e) := by
  obtain ⟨hphase, hqueue⟩ := TcpWorld.follows_call (w := h.world) e h.ident h.clock h.established h.returned
  unfold backlog call
  rw [← hphase, ← hqueue]
  rfl

lemma call_accept_returned (h : AcceptHistory) (port : UInt16) :
    (h.call (.accept port)).returned = h.returned ++ ((h.world.accept port).1.map h.ident).toList := by
  simp only [call, TcpWorld.move, step, give, TcpWorld.accept, backlog]
  cases h.world.listeners port with
  | none => exact (List.append_nil _).symm
  | some l =>
    cases l with
    | nil => exact (List.append_nil _).symm
    | cons k rest => rfl

abbrev Reaches : AcceptHistory → List (AcceptHistory × TcpEvent) → AcceptHistory → Prop := Run (fun h e h' => h' = h.call e)

def boot : AcceptHistory := ⟨⟨fun _ => none, fun _ => none, []⟩, fun _ => 0, 0, [], []⟩

/-- The accept queues are right in all states of a run exactly if no call of the run resets, closes or ends a connection
that waits. -/
theorem right_iff_leavesWaiting {tr : List (AcceptHistory × TcpEvent)} {h : AcceptHistory} (hrun : boot.Reaches tr h) :
    (∀ x ∈ tr, x.1.Right) ∧ h.Right ↔ ∀ x ∈ tr, x.1.world.LeavesWaiting x.2 := by
  refine hrun.states_iff (I := fun h => h.backlog.Wf TcpSocketKey.localPort)
    (C := fun h e => h.world.LeavesWaiting e) start_wf
    ((right_iff (h := boot)).mpr start_right) ?_ ?_
  · rintro h e h' hw rfl
    rw [call_backlog]
    exact hw.step (TcpWorld.enabled_move rfl rfl e)
  · rintro h e h' hw hr rfl
    rw [right_iff] at hr
    rw [right_iff, call_backlog, hr.step_iff hw (TcpWorld.enabled_move rfl rfl e)]
    exact TcpWorld.spares_iff rfl rfl hr e

def connectAndAccept : List TcpEvent :=
  [.listen 80, PeerStream.twoBytesSegment 0 Tcp.syn [], PeerStream.twoBytesSegment 1 Tcp.ack [], .accept 80]

theorem right_iff_leavesWaiting_accepted :
    (∀ x ∈ traceOf call boot connectAndAccept, x.1.Right) ∧ (connectAndAccept.foldl call boot).Right ↔
      ∀ x ∈ traceOf call boot connectAndAccept, x.1.world.LeavesWaiting x.2 :=
  right_iff_leavesWaiting (Run.traceOf call boot connectAndAccept)

/-- A peer connects, is reset and connects again from the same port, before the application calls `accept`. -/
def connectTwice : List TcpEvent :=
  [.listen 80, PeerStream.twoBytesSegment 0 Tcp.syn [], PeerStream.twoBytesSegment 1 Tcp.ack [],
    PeerStream.twoBytesSegment 1 Tcp.rst [], PeerStream.twoBytesSegment 0 Tcp.syn [],
    PeerStream.twoBytesSegment 1 Tcp.ack []]

/-- The key of the connection is then in the backlog twice, and `accept` returns the second connection twice and the
first one never. -/
theorem key_waits_twice : boot.Reaches (traceOf call boot connectTwice) (connectTwice.foldl call boot) ∧
      (connectTwice.foldl call boot).world.listeners 80 = some [PeerStream.twoBytes.key, PeerStream.twoBytes.key] ∧
      (connectTwice.foldl call boot).established = [0, 1] ∧
      ((connectTwice ++ [TcpEvent.accept 80, TcpEvent.accept 80]).foldl call boot).returned = [1, 1] ∧
      ¬ (connectTwice.foldl call boot).Right := by
  have hqueue : (connectTwice.foldl call boot).world.listeners 80 =
      some [PeerStream.twoBytes.key, PeerStream.twoBytes.key] := by decide
  refine ⟨Run.traceOf .., hqueue, by decide, by decide, fun hr => ?_⟩
  exact absurd (hr.once 80 _ hqueue) (by decide)

end AcceptHistory

end NodeKernel
