import NodeKernel.Net.TcpConnection

/-!
# Delivery in order, and the end of the stream

Data reaches the buffer in the order of the peer's stream. A FIN is obeyed wherever it stands, so the end of the
stream is only right for a FIN whose turn it is.
-/
namespace NodeKernel

open List TcpWorld Option Tcp

namespace TcpHistory

variable {s : TcpHistory} {key : TcpSocketKey} {sock : TcpSocket} {e : TcpEvent}

lemma call_sees {score : OwnerScore} {h : TcpHeader} {data : List UInt8} (hk : s.world.sockets key = some sock)
    (hsee : s.world.Sees key sock e score h data) :
    (s.call key e).world.sockets key = some (sock.tcpStateMachine key score h data).1 ∧ (s.call key e).taken = s.taken := by
  obtain ⟨src, raw, ha, hp, rfl, hrst, hdefer, rfl⟩ := hsee
  have hk' : (s.world.taking e).sockets (h.key src) = some sock := by rw [taking_sockets, hk]
  constructor
  · unfold call
    rw [call_arriving ha, handleTcpSegment_of_active hp hrst hk', activeSegment_sockets, hdefer]
    exact setSocket_self _
  · cases e with
    | recv => cases ha
    | segment | flush | send | close | pollRetransmit | listen | accept => rfl

def Still (s : TcpHistory) (key : TcpSocketKey) (sock : TcpSocket) (e : TcpEvent) : Prop :=
  ∃ sock', (s.call key e).world.sockets key = some sock' ∧ sock'.rcvNxt = sock.rcvNxt ∧
    (s.call key e).taken ++ sock'.rcvBuf = s.taken ++ sock.rcvBuf ∧
    (sock'.state = sock.state ∨ sock'.state = .accepted ∨ sock'.state = .finWait1 ∨ sock'.state = .lastAck)

lemma taken_of_connEvent_none (h : s.world.connEvent key sock e = none) : (s.call key e).taken = s.taken := by
  cases e with
  | recv k n => exact if_neg (fun hk => by simp [connEvent, hk] at h)
  | segment | flush | send | close | pollRetransmit | listen | accept => rfl

lemma call_cases (hk : s.world.sockets key = some sock) (e : TcpEvent) :
    (∃ score h data, s.world.Sees key sock e score h data) ∨ s.world.Resets key e ∨ s.Still key sock e := by
  by_cases hr : s.world.Resets key e
  · exact .inr (.inl hr)
  have hcall := call_concerns hk hr
  cases hc : s.world.connEvent key sock e with
  | none =>
    rw [hc] at hcall
    exact .inr (.inr ⟨sock, hcall.1, rfl, by rw [taken_of_connEvent_none hc], .inl rfl⟩)
  | some c =>
    have hfor := connEvent_eq hc
    rw [hc] at hcall
    cases c with
    | segment score h data => exact .inl ⟨score, h, data, sees_of_connEvent hc⟩
    | send data now =>
      obtain rfl := hfor
      refine .inr (.inr ⟨_, hcall.1, ?_⟩)
      unfold TcpSocket.on TcpSocket.send
      dsimp only
      split <;> exact ⟨rfl, rfl, .inl rfl⟩
    | recv n =>
      obtain rfl := hfor
      refine .inr (.inr ⟨_, hcall.1, rfl, ?_, .inl rfl⟩)
      simp [call, TcpWorld.call, TcpWorld.recv, onSocket_self hk, TcpSocket.recv, TcpSocket.on]
    | close =>
      obtain rfl := hfor
      refine .inr (.inr ⟨_, hcall.1, ?_⟩)
      unfold TcpSocket.on TcpSocket.close
      dsimp only
      split
      · exact ⟨rfl, rfl, .inr (.inr (.inl rfl))⟩
      · exact ⟨rfl, rfl, .inr (.inr (.inr rfl))⟩
      · exact ⟨rfl, rfl, .inl rfl⟩
    | pollRetransmit now =>
      obtain rfl := hfor
      refine .inr (.inr ⟨_, hcall.1, ?_⟩)
      unfold TcpSocket.on TcpSocket.pollRetransmit
      dsimp only
      split <;> exact ⟨rfl, rfl, .inl rfl⟩
    | accept =>
      obtain ⟨port, rfl⟩ := hfor
      exact .inr (.inr ⟨_, hcall.1, rfl, rfl, .inr (.inl rfl)⟩)

end TcpHistory

namespace PeerStream

variable {st : PeerStream} {old : List UInt8} {s s' : TcpHistory} {e : TcpEvent} {sock : TcpSocket} {n : ℕ}

lemma Received.of_still (hr : st.Received old s sock n) {sock' : TcpSocket} (hnxt : sock'.rcvNxt = sock.rcvNxt)
    (hbuf : s'.taken ++ sock'.rcvBuf = s.taken ++ sock.rcvBuf) : st.Received old s' sock' n :=
  ⟨hr.le, hbuf.trans hr.bytes, hnxt.trans hr.rcvNxt⟩

lemma not_resets (hheld : s.Held st.Arrival) (hs : TcpHistory.Step st.key st.Arrival s e s') : ¬ s.world.Resets st.key e := by
  rintro ⟨score, src, raw, h, ha, hp, hkey, hrst⟩
  rw [(hheld.arriving hs ha h hp hkey).1] at hrst
  cases hrst

variable {data : List UInt8} {h : TcpHeader}

lemma carries_of_sees (hheld : s.Held st.Arrival) (hs : TcpHistory.Step st.key st.Arrival s e s')
    {score : OwnerScore} (hsee : s.world.Sees st.key sock e score h data) : st.Carries h data := by
  obtain ⟨src, raw, ha, hp, hkey, -, -, rfl⟩ := hsee
  exact (hheld.arriving hs ha h hp hkey).2

def InSync (st : PeerStream) (old : List UInt8) (s : TcpHistory) : Prop :=
  s.Held st.DataArrival ∧
    ∃ sock n, s.world.sockets st.key = some sock ∧ sock.state ≠ .synSent ∧ st.Received old s sock n

lemma InSync.step (hlen : st.bytes.length < 2 ^ 32) (hi : st.InSync old s)
    (hs : TcpHistory.Step st.key st.DataArrival s e s') : st.InSync old s' := by
  obtain ⟨hheld, sock, n, hk, hstate, hr⟩ := hi
  refine ⟨hheld.step hs, ?_⟩
  have hheld' : s.Held st.Arrival := fun p hp => (hheld p hp).1
  have hs' : TcpHistory.Step st.key st.Arrival s e s' := ⟨fun score src raw he => (hs.1 score src raw he).1, hs.2⟩
  obtain rfl := hs.2
  obtain ⟨score, h, data, hsee⟩ | hreset | ⟨sock', hk', hnxt, hbuf, hnew⟩ := TcpHistory.call_cases hk e
  · obtain ⟨hk', ht⟩ := TcpHistory.call_sees hk hsee
    have hfin : h.has fin = false := by
      obtain ⟨src, raw, ha, hp, hkey, -⟩ := hsee
      exact (hheld.arriving hs ha).2 h hp hkey
    obtain ⟨m, hm⟩ := received_of_machine hlen hr hstate (carries_of_sees hheld' hs' hsee) hfin ht
    exact ⟨_, m, hk', (sock.machine_of_no_fin st.key score h data hfin hstate).1, hm⟩
  · exact absurd hreset (not_resets hheld' hs')
  · refine ⟨sock', n, hk', ?_, hr.of_still hnxt hbuf⟩
    obtain h | h | h | h := hnew
    · rw [h]
      exact hstate
    all_goals simp [h]

/-- If the call makes the connection leave the established state because of a FIN, the whole stream has come in
and `rcv_nxt` is the number after that of the FIN. -/
def EndsRight (st : PeerStream) (old : List UInt8) (s : TcpHistory) (e : TcpEvent) : Prop :=
  ∀ sock sock' score h data, s.world.sockets st.key = some sock → sock.state = .established →
    s.world.Sees st.key sock e score h data → h.has Tcp.fin = true →
    (s.call st.key e).world.sockets st.key = some sock' → sock'.state ≠ .established →
      (s.call st.key e).taken ++ sock'.rcvBuf = old ++ st.bytes ∧
        sock'.rcvNxt = h.seq + UInt32.ofNat data.length + 1

/-- A FIN that an established connection sees is in a segment whose turn it is, or is all of the segment that is
still due. -/
def FinInTurn (st : PeerStream) (s : TcpHistory) (e : TcpEvent) : Prop :=
  ∀ sock score h data, s.world.sockets st.key = some sock → sock.state = .established →
    s.world.Sees st.key sock e score h data → h.has Tcp.fin = true →
      h.seq = sock.rcvNxt ∨ h.seq + UInt32.ofNat data.length = sock.rcvNxt

/-- As long as the connection is established, the first bytes of the stream have come in. -/
def UpToFin (st : PeerStream) (old : List UInt8) (s : TcpHistory) : Prop :=
  s.Held st.Arrival ∧ ∃ sock, s.world.sockets st.key = some sock ∧
    (TcpSocket.Past sock.state ∨ sock.state = .established ∧ ∃ n, st.Received old s sock n)

lemma UpToFin.step (hlen : st.bytes.length < 2 ^ 32) (hi : st.UpToFin old s)
    (hs : TcpHistory.Step st.key st.Arrival s e s') : st.UpToFin old s' := by
  obtain ⟨hheld, sock, hk, hst⟩ := hi
  refine ⟨hheld.step hs, ?_⟩
  have hno := not_resets hheld hs
  obtain rfl := hs.2
  obtain ⟨score, h, data, hsee⟩ | hreset | ⟨sock', hk', hnxt, hbuf, hnew⟩ := TcpHistory.call_cases hk e
  · obtain ⟨hk', ht⟩ := TcpHistory.call_sees hk hsee
    refine ⟨_, hk', ?_⟩
    rcases hst with hpast | ⟨hest, n, hr⟩
    · exact .inl (sock.machine_past st.key score h data hpast)
    · cases hfin : h.has fin with
      | true =>
        left
        rw [(sock.machine_of_fin st.key score h data hfin hest).1]
        simp [TcpSocket.Past]
      | false =>
        right
        have hns : sock.state ≠ .synSent := by simp [hest]
        obtain ⟨m, hm⟩ := received_of_machine hlen hr hns (carries_of_sees hheld hs hsee) hfin ht
        exact ⟨sock.machine_stays st.key score h data hfin hest, m, hm⟩
  · exact absurd hreset hno
  · refine ⟨sock', hk', ?_⟩
    obtain hsame | hother := hnew
    · rw [hsame]
      exact hst.imp_right (fun hold => ⟨hold.1, hold.2.imp (fun n hr => hr.of_still hnxt hbuf)⟩)
    · left
      obtain h | h | h := hother <;> simp [h, TcpSocket.Past]

lemma seq_eq_rcvNxt_iff (hlen : st.bytes.length < 2 ^ 32) (hr : st.Received old s sock n) {m : ℕ}
    (hm : m ≤ st.bytes.length) : st.base + UInt32.ofNat m = sock.rcvNxt ↔ m = n := by
  rw [hr.rcvNxt]
  have := hr.le
  exact ⟨ofNat_add_inj (by omega) (by omega), fun h => by rw [h]⟩

lemma take_eq_bytes_iff (hn : n ≤ st.bytes.length) : st.bytes.take n = st.bytes ↔ n = st.bytes.length := by
  constructor
  · intro h
    have := congrArg List.length h
    rw [length_take] at this
    omega
  · rintro rfl
    exact take_length

lemma fin_right_iff (hlen : st.bytes.length < 2 ^ 32) (hr : st.Received old s sock n) (hest : sock.state = .established)
    {score : OwnerScore} (hc : st.Carries h data) (hfin : h.has Tcp.fin = true) :
    s.taken ++ (sock.tcpStateMachine st.key score h data).1.rcvBuf = old ++ st.bytes ∧
        (sock.tcpStateMachine st.key score h data).1.rcvNxt = h.seq + UInt32.ofNat data.length + 1 ↔
      h.seq = sock.rcvNxt ∨ h.seq + UInt32.ofNat data.length = sock.rcvNxt := by
  obtain ⟨off, hoff, hslice, hseq, hend⟩ := hc
  have hL := hend hfin
  have hfirst : h.seq = sock.rcvNxt ↔ off = n := hseq ▸ seq_eq_rcvNxt_iff hlen hr hoff
  have hlast : h.seq + UInt32.ofNat data.length = sock.rcvNxt ↔ st.bytes.length = n := by
    rw [hseq, UInt32.add_assoc, ← UInt32.ofNat_add, hL]
    exact seq_eq_rcvNxt_iff hlen hr le_rfl
  have hm := (sock.machine_of_fin st.key score h data hfin hest).2
  split at hm
  · rename_i hin
    obtain rfl := hfirst.mp hin.2.2
    refine iff_of_true ⟨?_, ?_⟩ (.inl hin.2.2)
    · rw [hm.1, ← append_assoc, hr.bytes, append_assoc, take_append_slice hslice, hL, take_length]
    · rw [hm.2, hin.2.2]
  · rename_i hin
    rw [hm.1, hm.2, hr.bytes, append_cancel_left_eq, take_eq_bytes_iff hr.le, hfirst, hlast]
    constructor
    · exact fun h => .inr h.1.symm
    · rintro (rfl | hn)
      · have hnil : data = [] := by
          by_contra hne
          exact hin ⟨hest, hne, hfirst.mpr rfl⟩
        subst hnil
        exact ⟨hL, by simp [hfirst.mpr rfl]⟩
      · exact ⟨hn.symm, by rw [hlast.mpr hn]⟩

lemma endsRight_iff_finInTurn (hlen : st.bytes.length < 2 ^ 32) (hi : st.UpToFin old s)
    (hs : TcpHistory.Step st.key st.Arrival s e s') : st.EndsRight old s e ↔ st.FinInTurn s e := by
  obtain ⟨hheld, sock, hk, hst⟩ := hi
  have hrecv (hest : sock.state = .established) : ∃ n, st.Received old s sock n :=
    hst.elim (fun hpast => absurd hest hpast.2.2) (fun h => h.2)
  constructor
  · intro hend sock₁ score h data hk₁ hest hsee hfin
    obtain rfl : sock = sock₁ := mem_unique hk hk₁
    obtain ⟨hk', ht⟩ := TcpHistory.call_sees hk hsee
    have hleft : (sock.tcpStateMachine st.key score h data).1.state ≠ .established := by
      rw [(sock.machine_of_fin st.key score h data hfin hest).1]
      simp
    have hright := hend sock _ score h data hk hest hsee hfin hk' hleft
    rw [ht] at hright
    obtain ⟨n, hr⟩ := hrecv hest
    exact (fin_right_iff hlen hr hest (carries_of_sees hheld hs hsee) hfin).mp hright
  · intro hturn sock₁ sock' score h data hk₁ hest hsee hfin hk'' _
    obtain rfl : sock = sock₁ := mem_unique hk hk₁
    obtain ⟨hk', ht⟩ := TcpHistory.call_sees hk hsee
    obtain rfl := mem_unique hk' hk''
    rw [ht]
    obtain ⟨n, hr⟩ := hrecv hest
    exact (fin_right_iff hlen hr hest (carries_of_sees hheld hs hsee) hfin).mpr
      (hturn sock score h data hk hest hsee hfin)

def twoBytes : PeerStream := ⟨⟨80, (10, 0, 2, 2), 4000⟩, 1, [104, 105]⟩

def twoBytesRaw (seq flags : UInt8) (data : List UInt8) : List UInt8 :=
  [15, 160, 0, 80, 0, 0, 0, seq, 0xDE, 0xAD, 0, 1, 0x50, flags, 255, 255, 0, 0, 0, 0] ++ data

def twoBytesSegment (seq flags : UInt8) (data : List UInt8) : TcpEvent :=
  .segment ⟨false, false, 0⟩ (10, 0, 2, 2) (twoBytesRaw seq flags data)

def twoBytesStart : TcpHistory :=
  [.listen 80, twoBytesSegment 0 Tcp.syn [], twoBytesSegment 1 Tcp.ack []].foldl
    (TcpHistory.call twoBytes.key) ⟨⟨fun _ => none, fun _ => none, []⟩, []⟩

def twoBytesSocket : TcpSocket :=
  { TcpSocket.newSynReceived 0 with state := .established, sndUna := Tcp.iss + 1 }

lemma twoBytesStart_socket : twoBytesStart.world.sockets twoBytes.key = some twoBytesSocket := by decide

lemma twoBytesStart_held (A : Ip4 → List UInt8 → Prop) : twoBytesStart.Held A := by
  intro p hp
  cases hp

lemma arrival_of_parse {src : Ip4} {raw : List UInt8} (hp : TcpHeader.parse raw = some h)
    (hrst : h.has Tcp.rst = false) (hc : st.Carries h (h.data raw)) : st.Arrival src raw := by
  intro h' hp' _
  obtain rfl : h = h' := mem_unique hp hp'
  exact ⟨hrst, hc⟩

lemma second_byte_arrives : twoBytes.DataArrival (10, 0, 2, 2) (twoBytesRaw 2 Tcp.ack [105]) := by
  have hp : TcpHeader.parse (twoBytesRaw 2 ack [105]) = some ⟨4000, 80, 2, 0xDEAD0001, 5, ack, 65535⟩ := by
    decide
  refine ⟨arrival_of_parse hp (by decide) ⟨1, by decide, by decide, by decide, by decide⟩, ?_⟩
  intro h hp' _
  obtain rfl := mem_unique hp hp'
  decide

lemma fin_arrives : twoBytes.Arrival (10, 0, 2, 2) (twoBytesRaw 3 (Tcp.fin ||| Tcp.ack) []) := by
  have hp : TcpHeader.parse (twoBytesRaw 3 (fin ||| Tcp.ack) []) =
      some ⟨4000, 80, 3, 0xDEAD0001, 5, fin ||| Tcp.ack, 65535⟩ := by
    decide
  exact arrival_of_parse hp (by decide) ⟨2, by decide, by decide, by decide, by decide⟩

lemma twoBytesStart_step {A : Ip4 → List UInt8 → Prop} {seq flags : UInt8} (hA : A (10, 0, 2, 2) (twoBytesRaw seq flags data)) :
    Run (TcpHistory.Step twoBytes.key A) twoBytesStart [(twoBytesStart, twoBytesSegment seq flags data)]
      (twoBytesStart.call twoBytes.key (twoBytesSegment seq flags data)) := by
  refine Run.nil.snoc ⟨?_, rfl⟩
  intro score src raw he
  obtain ⟨-, rfl, rfl⟩ := TcpEvent.segment.inj he
  exact hA

theorem run_inOrder (st : PeerStream) (hlen : st.bytes.length < 2 ^ 31) {s₀ s : TcpHistory} {sock₀ : TcpSocket}
    (hk : s₀.world.sockets st.key = some sock₀) (hup : sock₀.state = .established ∨ sock₀.state = .accepted)
    (hbase : sock₀.rcvNxt = st.base) (hheld : s₀.Held st.DataArrival) {tr : List (TcpHistory × TcpEvent)}
    (hrun : Run (TcpHistory.Step st.key st.DataArrival) s₀ tr s) :
    ∃ sock n, s.world.sockets st.key = some sock ∧ n ≤ st.bytes.length ∧
      s.taken ++ sock.rcvBuf = s₀.taken ++ sock₀.rcvBuf ++ st.bytes.take n ∧ sock.rcvNxt = sock₀.rcvNxt + UInt32.ofNat n := by
  have hinit : st.InSync (s₀.taken ++ sock₀.rcvBuf) s₀ := by
    refine ⟨hheld, sock₀, 0, hk, ?_, Nat.zero_le _, by simp, by simp [hbase]⟩
    rcases hup with h | h <;> simp [h]
  have hlen' : st.bytes.length < 2 ^ 32 := by omega
  obtain ⟨-, sock, n, hk', -, hr⟩ := (hrun.invariant hinit (fun _ _ _ hi hs => hi.step hlen' hs)).2
  exact ⟨sock, n, hk', hr.le, hr.bytes, hbase ▸ hr.rcvNxt⟩

/-- The second byte comes first: it is dropped. -/
theorem run_inOrder_second_byte :
    ∃ sock n, (twoBytesStart.call twoBytes.key (twoBytesSegment 2 Tcp.ack [105])).world.sockets twoBytes.key =
        some sock ∧ n ≤ 2 ∧ (twoBytesStart.call twoBytes.key (twoBytesSegment 2 Tcp.ack [105])).taken ++ sock.rcvBuf =
        [] ++ [] ++ twoBytes.bytes.take n ∧ sock.rcvNxt = 1 + UInt32.ofNat n :=
  run_inOrder twoBytes (by decide) twoBytesStart_socket (.inl rfl) rfl (twoBytesStart_held _)
    (twoBytesStart_step second_byte_arrives)

theorem run_endsRight_iff (st : PeerStream) (hlen : st.bytes.length < 2 ^ 32) {s₀ s : TcpHistory} {sock₀ : TcpSocket}
    (hk : s₀.world.sockets st.key = some sock₀) (hup : sock₀.state = .established) (hbase : sock₀.rcvNxt = st.base)
    (hheld : s₀.Held st.Arrival) {tr : List (TcpHistory × TcpEvent)} (hrun : Run (TcpHistory.Step st.key st.Arrival) s₀ tr s) :
    (∀ x ∈ tr, st.EndsRight (s₀.taken ++ sock₀.rcvBuf) x.1 x.2) ↔ ∀ x ∈ tr, st.FinInTurn x.1 x.2 := by
  have hinit : st.UpToFin (s₀.taken ++ sock₀.rcvBuf) s₀ :=
    ⟨hheld, sock₀, hk, .inr ⟨hup, 0, Nat.zero_le _, by simp, by simp [hbase]⟩⟩
  refine hrun.forall_iff_of hinit ?_ ?_
  · exact fun s e s' hi _ hs => hi.step hlen hs
  · exact fun s e s' hi hs => endsRight_iff_finInTurn hlen hi hs

theorem run_endsRight_iff_second_byte :
    (∀ x ∈ [(twoBytesStart, twoBytesSegment 2 Tcp.ack [105])], twoBytes.EndsRight [] x.1 x.2) ↔
      ∀ x ∈ [(twoBytesStart, twoBytesSegment 2 Tcp.ack [105])], twoBytes.FinInTurn x.1 x.2 :=
  run_endsRight_iff twoBytes (by decide) twoBytesStart_socket rfl rfl (twoBytesStart_held _)
    (twoBytesStart_step second_byte_arrives.1)

/-- The FIN comes before the data: the connection ends without a byte. -/
theorem fin_ends_the_stream_early : Run (TcpHistory.Step twoBytes.key twoBytes.Arrival) twoBytesStart
        [(twoBytesStart, twoBytesSegment 3 (Tcp.fin ||| Tcp.ack) [])]
        (twoBytesStart.call twoBytes.key (twoBytesSegment 3 (Tcp.fin ||| Tcp.ack) [])) ∧
      ¬ twoBytes.EndsRight [] twoBytesStart (twoBytesSegment 3 (Tcp.fin ||| Tcp.ack) []) := by
  refine ⟨twoBytesStart_step fin_arrives, ?_⟩
  intro hend
  have hsee : twoBytesStart.world.Sees twoBytes.key twoBytesSocket (twoBytesSegment 3 (fin ||| Tcp.ack) [])
      ⟨false, false, 0⟩ ⟨4000, 80, 3, 0xDEAD0001, 5, fin ||| Tcp.ack, 65535⟩ [] :=
    ⟨(10, 0, 2, 2), _, rfl, by decide, by decide, by decide, by decide, by decide⟩
  obtain ⟨hk, -⟩ := TcpHistory.call_sees twoBytesStart_socket hsee
  have hright := hend _ _ _ _ _ twoBytesStart_socket rfl hsee (by decide) hk (by decide)
  exact absurd hright.1 (by decide)

end PeerStream

end NodeKernel
