import NodeKernel.Lib.Run
import NodeKernel.Net.Tcp

/-!
# The byte stream of a connection

What the segments of one peer put in the receive buffer, whatever the order in which they arrive and whatever
the other connections do meanwhile.
-/
namespace NodeKernel

open List

namespace TcpSocket

variable (key : TcpSocketKey) (score : OwnerScore) (sock : TcpSocket) (h : TcpHeader) (data : List UInt8)

lemma note_spec : (sock.note score h).state = sock.state ∧ (sock.note score h).sndNxt = sock.sndNxt ∧
      (sock.note score h).rcvNxt = sock.rcvNxt ∧ (sock.note score h).rcvBuf = sock.rcvBuf ∧
      (sock.note score h).ownerPid = sock.ownerPid ∧ (sock.note score h).retransmitBuf = sock.retransmitBuf ∧
      (sock.note score h).lastSendMs = sock.lastSendMs ∧ (sock.note score h).rtoMs = sock.rtoMs := by
  unfold note ackReceived
  repeat' split
  all_goals exact ⟨rfl, rfl, rfl, rfl, rfl, rfl, rfl, rfl⟩

/-- The segment is the next one of the stream and brings data. -/
def InOrder : Prop := sock.state = .established ∧ data ≠ [] ∧ h.seq = sock.rcvNxt

instance : Decidable (sock.InOrder h data) := inferInstanceAs (Decidable (_ ∧ _))

lemma machine_established (hs : sock.state = .established) :
    sock.tcpStateMachine key score h data = sock.established key score h data := by
  unfold tcpStateMachine
  rw [hs]

lemma machine_of_not_established (hfin : h.has Tcp.fin = false) (hs : sock.state ≠ .synSent)
    (he : sock.state ≠ .established) : (sock.tcpStateMachine key score h data).1.state ≠ .synSent ∧
      (sock.tcpStateMachine key score h data).1.rcvBuf = sock.rcvBuf ∧
      (sock.tcpStateMachine key score h data).1.rcvNxt = sock.rcvNxt := by
  unfold tcpStateMachine synReceived lastAck finWait1 finWait2
  simp only [hfin, Bool.false_eq_true, if_false]
  split
  · exact absurd ‹_› hs
  · split
    · simp
    · exact ⟨hs, rfl, rfl⟩
  · exact absurd ‹_› he
  all_goals
    repeat' split
    all_goals simp [hs]

lemma machine_of_no_fin (hfin : h.has Tcp.fin = false) (hs : sock.state ≠ .synSent) :
    (sock.tcpStateMachine key score h data).1.state ≠ .synSent ∧
      if sock.InOrder h data then
        (sock.tcpStateMachine key score h data).1.rcvBuf = sock.rcvBuf ++ data ∧
          (sock.tcpStateMachine key score h data).1.rcvNxt = sock.rcvNxt + UInt32.ofNat data.length
      else
        (sock.tcpStateMachine key score h data).1.rcvBuf = sock.rcvBuf ∧
          (sock.tcpStateMachine key score h data).1.rcvNxt = sock.rcvNxt := by
  by_cases he : sock.state = .established
  · obtain ⟨nstate, -, nnxt, nbuf, -⟩ := note_spec score sock h
    rw [machine_established key score sock h data he]
    unfold established InOrder
    simp only [nnxt, hfin, he, true_and]
    split
    · simp [acknowledge, append, nstate, nbuf, nnxt, he]
    · simp [nstate, nbuf, nnxt, he]
  · rw [if_neg (fun hin => he hin.1)]
    exact machine_of_not_established key score sock h data hfin hs he

lemma machine_stays (hfin : h.has Tcp.fin = false) (he : sock.state = .established) :
    (sock.tcpStateMachine key score h data).1.state = .established := by
  have nstate := (note_spec score sock h).1
  rw [machine_established key score sock h data he]
  unfold established
  simp only [hfin, Bool.false_eq_true, if_false]
  split
  · exact nstate.trans he
  · exact nstate.trans he

/-- A FIN ends an established connection wherever it stands; only the data that is due is kept. -/
theorem machine_of_fin (hfin : h.has Tcp.fin = true) (he : sock.state = .established) :
    (sock.tcpStateMachine key score h data).1.state = .closeWait ∧
      if sock.InOrder h data then
        (sock.tcpStateMachine key score h data).1.rcvBuf = sock.rcvBuf ++ data ∧
          (sock.tcpStateMachine key score h data).1.rcvNxt = sock.rcvNxt + UInt32.ofNat data.length + 1
      else
        (sock.tcpStateMachine key score h data).1.rcvBuf = sock.rcvBuf ∧
          (sock.tcpStateMachine key score h data).1.rcvNxt = sock.rcvNxt + 1 := by
  obtain ⟨-, -, nnxt, nbuf, -⟩ := note_spec score sock h
  rw [machine_established key score sock h data he]
  unfold established InOrder
  simp only [nnxt, hfin, he, true_and]
  split
  · simp [acknowledge, append, finReceived, nbuf, nnxt]
  · simp [acknowledge, finReceived, nbuf, nnxt]

def Past (state : TcpState) : Prop := state ≠ .synSent ∧ state ≠ .synReceived ∧ state ≠ .established

lemma machine_past (hp : Past sock.state) : Past (sock.tcpStateMachine key score h data).1.state := by
  unfold tcpStateMachine lastAck finWait1 finWait2 acknowledge finReceived
  obtain ⟨h₁, h₂, h₃⟩ := hp
  split
  · exact absurd ‹_› h₁
  · exact absurd ‹_› h₂
  · exact absurd ‹_› h₃
  all_goals
    repeat' split
    all_goals simp_all [Past]

def afterSegment (src : Ip4) (raw : List UInt8) : Option TcpSocket :=
  match TcpHeader.parse raw with
  | none => some sock
  | some h =>
    if h.key src ≠ key then some sock
    else if h.has Tcp.rst then none
    else if score.shouldDefer sock.ownerPid then some sock
    else some (sock.tcpStateMachine key score h (h.data raw)).1

end TcpSocket

namespace TcpWorld

variable {w : TcpWorld} {key : TcpSocketKey} {sock : TcpSocket}

def arriving (w : TcpWorld) : TcpEvent → Option (OwnerScore × Ip4 × List UInt8)
  | .segment score src raw => some (score, src, raw)
  | .flush score => w.deferred.head?.map (fun p => (score, p))
  | .send .. | .recv .. | .close .. | .pollRetransmit .. | .listen .. | .accept .. => none

def Resets (w : TcpWorld) (key : TcpSocketKey) (e : TcpEvent) : Prop :=
  ∃ score src raw h, w.arriving e = some (score, src, raw) ∧ TcpHeader.parse raw = some h ∧ h.key src = key ∧
    h.has Tcp.rst = true

def Sees (w : TcpWorld) (key : TcpSocketKey) (sock : TcpSocket) (e : TcpEvent) (score : OwnerScore) (h : TcpHeader)
    (data : List UInt8) : Prop :=
  ∃ src raw, w.arriving e = some (score, src, raw) ∧ TcpHeader.parse raw = some h ∧ h.key src = key ∧
    h.has Tcp.rst = false ∧ score.shouldDefer sock.ownerPid = false ∧ data = h.data raw

@[simp] lemma setSocket_self (o : Option TcpSocket) : (w.setSocket key o).sockets key = o := Function.update_self ..

variable {k : TcpSocketKey} {α : Type}

lemma setSocket_of_ne (o : Option TcpSocket) (h : key ≠ k) :
    (w.setSocket k o).sockets key = w.sockets key := Function.update_of_ne h ..

lemma activeSegment_sockets (score : OwnerScore) (h : TcpHeader) (raw : List UInt8) :
    (w.activeSegment key score sock h raw).2.sockets =
      if score.shouldDefer sock.ownerPid then w.sockets
      else (w.setSocket key (some (sock.tcpStateMachine key score h (h.data raw)).1)).sockets := by
  unfold activeSegment
  split
  · rfl
  · split
    · rfl
    · rfl

lemma activeSegment_output (score : OwnerScore) (h : TcpHeader) (raw : List UInt8) : (w.activeSegment key score sock h raw).1 =
    if score.shouldDefer sock.ownerPid then none else (sock.tcpStateMachine key score h (h.data raw)).2 := by
  unfold activeSegment
  split
  · rfl
  · rfl

lemma handleTcpSegment_of_active {score : OwnerScore} {src : Ip4} {raw : List UInt8} {h : TcpHeader}
    (hp : TcpHeader.parse raw = some h) (hrst : h.has Tcp.rst = false) (hk : w.sockets (h.key src) = some sock) :
    w.handleTcpSegment score src raw = w.activeSegment (h.key src) score sock h raw := by
  unfold handleTcpSegment
  rw [hp]
  simp only [hrst, hk]
  rfl

lemma strayHeader_of_ne (h : TcpHeader) (hne : key ≠ k) : (w.strayHeader k h).2.sockets key = w.sockets key := by
  unfold strayHeader
  split
  · exact setSocket_of_ne _ hne
  · split
    · rfl
    · rfl

lemma handleTcpSegment_socket (hk : w.sockets key = some sock) (score : OwnerScore) (src : Ip4) (raw : List UInt8) :
    (w.handleTcpSegment score src raw).2.sockets key = sock.afterSegment key score src raw := by
  unfold handleTcpSegment TcpSocket.afterSegment
  cases TcpHeader.parse raw with
  | none => exact hk
  | some h =>
    dsimp only
    by_cases hkey : h.key src = key
    · rw [if_neg (not_not_intro hkey), hkey, hk]
      split
      · exact setSocket_self none
      · rw [activeSegment_sockets]
        split
        · exact hk
        · exact setSocket_self _
    · rw [if_pos hkey]
      have hne : key ≠ h.key src := Ne.symm hkey
      split
      · rw [setSocket_of_ne none hne, hk]
      · split
        · rw [activeSegment_sockets]
          split
          · exact hk
          · exact (setSocket_of_ne _ hne).trans hk
        · exact (strayHeader_of_ne h hne).trans hk

lemma onSocket_self (hk : w.sockets key = some sock) (d : α) (f : TcpSocket → TcpSocket × α) :
    w.onSocket key d f = ((f sock).2, w.setSocket key (some (f sock).1)) := by
  unfold onSocket
  rw [hk]

lemma onSocket_of_ne (hne : key ≠ k) (d : α) (f : TcpSocket → TcpSocket × α) :
    (w.onSocket k d f).2.sockets key = w.sockets key := by
  unfold onSocket
  split
  · exact setSocket_of_ne _ hne
  · rfl

def taking (w : TcpWorld) : TcpEvent → TcpWorld
  | .flush _ => { w with deferred := w.deferred.tail }
  | _ => w

lemma arriving_eq {e : TcpEvent} {score : OwnerScore} {src : Ip4} {raw : List UInt8} (ha : w.arriving e = some (score, src, raw)) :
    e = .segment score src raw ∨ e = .flush score ∧ ∃ rest, w.deferred = (src, raw) :: rest := by
  cases e with
  | segment score' src' raw' =>
    obtain ⟨rfl, rfl, rfl⟩ : score' = score ∧ src' = src ∧ raw' = raw := by simpa [arriving] using ha
    exact .inl rfl
  | flush score' =>
    obtain ⟨p, hp, heq⟩ := Option.map_eq_some_iff.mp ha
    obtain ⟨rfl, rfl⟩ := Prod.mk.inj heq
    exact .inr ⟨rfl, head?_eq_some_iff.mp hp⟩
  | send | recv | close | pollRetransmit | listen | accept => cases ha

lemma call_arriving {e : TcpEvent} {score : OwnerScore} {src : Ip4} {raw : List UInt8}
    (ha : w.arriving e = some (score, src, raw)) : w.call e = (⟨((w.taking e).handleTcpSegment score src raw).1, []⟩,
      ((w.taking e).handleTcpSegment score src raw).2) := by
  obtain rfl | ⟨rfl, rest, hd⟩ := arriving_eq ha
  · rfl
  · simp [call, flush, taking, hd]

lemma taking_sockets (e : TcpEvent) : (w.taking e).sockets = w.sockets := by
  cases e <;> rfl

lemma handleTcpSegment_deferred (score : OwnerScore) (src : Ip4) (raw : List UInt8) :
    ∀ p ∈ (w.handleTcpSegment score src raw).2.deferred, p ∈ w.deferred ∨ p = (src, raw) := by
  intro p
  unfold handleTcpSegment activeSegment strayHeader
  repeat' split
  all_goals simp_all [TcpHeader.key, setSocket, pushBacklog]

lemma onSocket_deferred (d : α) (f : TcpSocket → TcpSocket × α) : (w.onSocket key d f).2.deferred = w.deferred := by
  unfold onSocket
  split
  · rfl
  · rfl

lemma accept_deferred (port : UInt16) : (w.accept port).2.deferred = w.deferred := by
  unfold accept
  split
  · exact onSocket_deferred _ _
  · rfl
  · rfl

lemma call_deferred (e : TcpEvent) : ∀ p ∈ (w.call e).2.deferred, p ∈ w.deferred ∨ ∃ score, e = .segment score p.1 p.2 := by
  intro p hp
  cases e with
  | segment score src raw =>
    obtain h | rfl := handleTcpSegment_deferred score src raw p hp
    · exact .inl h
    · exact .inr ⟨score, rfl⟩
  | flush score =>
    left
    simp only [call, flush] at hp
    split at hp
    · exact hp
    · rename_i src raw rest hd
      rw [hd]
      obtain h | rfl := handleTcpSegment_deferred score src raw p hp
      · exact mem_cons_of_mem _ h
      · exact mem_cons_self
  | send | recv | close | pollRetransmit => exact .inl ((onSocket_deferred _ _).subst hp)
  | listen => exact .inl hp
  | accept port => exact .inl ((accept_deferred port).subst hp)

end TcpWorld

/-- A run as one connection sees it: the state and the bytes its application has read. -/
structure TcpHistory where
  world : TcpWorld
  taken : List UInt8

namespace TcpHistory

variable {s : TcpHistory} {key : TcpSocketKey} {sock : TcpSocket} {e : TcpEvent}

def call (key : TcpSocketKey) (s : TcpHistory) (e : TcpEvent) : TcpHistory where
  world := (s.world.call e).2
  taken :=
    match e with
    | .recv k _ => if k = key then s.taken ++ (s.world.call e).1.received else s.taken
    | _ => s.taken

end TcpHistory

/-- What the peer of a connection sends: `base` is the sequence number of the first byte. -/
structure PeerStream where
  key : TcpSocketKey
  base : UInt32
  bytes : List UInt8

namespace PeerStream

variable {st : PeerStream}

/-- The segment carries a slice of the stream, and a FIN only at its end. -/
def Carries (st : PeerStream) (h : TcpHeader) (data : List UInt8) : Prop :=
  ∃ off ≤ st.bytes.length, data <+: st.bytes.drop off ∧ h.seq = st.base + UInt32.ofNat off ∧
    (h.has Tcp.fin = true → off + data.length = st.bytes.length)

def Arrival (st : PeerStream) (src : Ip4) (raw : List UInt8) : Prop :=
  ∀ h, TcpHeader.parse raw = some h → h.key src = st.key → h.has Tcp.rst = false ∧ st.Carries h (h.data raw)

def DataArrival (st : PeerStream) (src : Ip4) (raw : List UInt8) : Prop :=
  st.Arrival src raw ∧ ∀ h, TcpHeader.parse raw = some h → h.key src = st.key → h.has Tcp.fin = false

/-- The first `n` bytes of the stream have come in, after those in `old`. -/
structure Received (st : PeerStream) (old : List UInt8) (s : TcpHistory) (sock : TcpSocket) (n : ℕ) : Prop where
  le : n ≤ st.bytes.length
  bytes : s.taken ++ sock.rcvBuf = old ++ st.bytes.take n
  rcvNxt : sock.rcvNxt = st.base + UInt32.ofNat n

lemma ofNat_add_inj {b : UInt32} {m n : ℕ} (hm : m < 2 ^ 32) (hn : n < 2 ^ 32)
    (h : b + UInt32.ofNat m = b + UInt32.ofNat n) : m = n := by
  have := congrArg UInt32.toNat h
  simp only [UInt32.toNat_add, UInt32.toNat_ofNat'] at this
  omega

lemma take_append_slice {data : List UInt8} {n : ℕ} (h : data <+: st.bytes.drop n) :
    st.bytes.take n ++ data = st.bytes.take (n + data.length) := by
  rw [take_add, ← prefix_iff_eq_take.mp h]

lemma received_of_machine {old : List UInt8} {s s' : TcpHistory} {sock : TcpSocket} {n : ℕ} {score : OwnerScore}
    {h : TcpHeader} {data : List UInt8} (hlen : st.bytes.length < 2 ^ 32) (hr : st.Received old s sock n)
    (hs : sock.state ≠ .synSent) (hc : st.Carries h data) (hfin : h.has Tcp.fin = false) (ht : s'.taken = s.taken) :
    ∃ m, st.Received old s' (sock.tcpStateMachine st.key score h data).1 m := by
  obtain ⟨off, hoff, hslice, hseq, -⟩ := hc
  have hm := (sock.machine_of_no_fin st.key score h data hfin hs).2
  split at hm
  · rename_i hin
    have hn : off = n := ofNat_add_inj (by omega) (by have := hr.le; omega) (hseq.symm.trans (hin.2.2.trans hr.rcvNxt))
    subst hn
    refine ⟨off + data.length, ?_, ?_, ?_⟩
    · have hle : data.length ≤ (st.bytes.drop off).length := hslice.length_le
      rw [length_drop] at hle
      omega
    · rw [hm.1, ht, ← append_assoc, hr.bytes, append_assoc, take_append_slice hslice]
    · rw [hm.2, hr.rcvNxt, UInt32.ofNat_add, UInt32.add_assoc]
  · exact ⟨n, hr.le, by rw [hm.1, ht, hr.bytes], by rw [hm.2, hr.rcvNxt]⟩

end PeerStream

namespace TcpHistory

variable {A : Ip4 → List UInt8 → Prop} {s s' : TcpHistory} {key : TcpSocketKey} {sock : TcpSocket} {e : TcpEvent}

/-- A step of the system in which every segment from the network is an `A`. -/
def Step (key : TcpSocketKey) (A : Ip4 → List UInt8 → Prop) (s : TcpHistory) (e : TcpEvent) (s' : TcpHistory) : Prop :=
  (∀ score src raw, e = .segment score src raw → A src raw) ∧ s' = s.call key e

def Held (A : Ip4 → List UInt8 → Prop) (s : TcpHistory) : Prop := ∀ p ∈ s.world.deferred, A p.1 p.2

lemma Held.step (h : s.Held A) (hs : Step key A s e s') : s'.Held A := by
  obtain ⟨hseg, rfl⟩ := hs
  intro p hp
  obtain hp | ⟨score, he⟩ := TcpWorld.call_deferred e p hp
  · exact h p hp
  · exact hseg score p.1 p.2 he

lemma Held.arriving (h : s.Held A) (hs : Step key A s e s') {score : OwnerScore} {src : Ip4} {raw : List UInt8}
    (ha : s.world.arriving e = some (score, src, raw)) : A src raw := by
  obtain rfl | ⟨rfl, rest, hd⟩ := TcpWorld.arriving_eq ha
  · exact hs.1 _ _ _ rfl
  · exact h (src, raw) (hd ▸ mem_cons_self)

end TcpHistory

end NodeKernel
