import NodeKernel.Net.TcpDelivery

/-!
# The bytes that a connection sends

`send` numbers the bytes of the application one after the other. `poll_retransmit` sends the bytes of the last call of
`send` again, with the numbers of the oldest bytes that are not acknowledged.
-/
namespace NodeKernel

open List PeerStream TcpWorld

namespace TcpSocket

variable {key : TcpSocketKey} {sock : TcpSocket}

lemma machine_sndNxt (key : TcpSocketKey) (score : OwnerScore) (sock : TcpSocket) (h : TcpHeader) (data : List UInt8) :
    (sock.tcpStateMachine key score h data).1.sndNxt = sock.sndNxt ∧
      (sock.tcpStateMachine key score h data).1.retransmitBuf = sock.retransmitBuf := by
  obtain ⟨-, nnxt, -, -, -, nbuf, -⟩ := note_spec score sock h
  obtain hs | hs | ⟨-, hs⟩ := machine_sender key score sock h data
  · exact ⟨hs.sndNxt, hs.retransmitBuf⟩
  · exact ⟨hs.sndNxt, hs.retransmitBuf⟩
  · exact ⟨hs.sndNxt.trans nnxt, hs.retransmitBuf.trans nbuf⟩

end TcpSocket

/-- A run as the sending application sees it: the state and the bytes that `send` has taken. -/
structure TcpSender where
  world : TcpWorld
  stream : List UInt8

/-- The byte `b` is the newest byte with the number `n` in a stream that starts at `base`. -/
def ByteAt (base : UInt32) (stream : List UInt8) (n : UInt32) (b : UInt8) : Prop :=
  ∃ p, stream.length ≤ p + 2 ^ 32 ∧ base + UInt32.ofNat p = n ∧ stream[p]? = some b

namespace TcpSender

variable {key : TcpSocketKey} {base : UInt32} {s s' : TcpSender} {sock : TcpSocket} {e : TcpEvent}

def call (key : TcpSocketKey) (s : TcpSender) (e : TcpEvent) : TcpSender where
  world := (s.world.call e).2
  stream :=
    match e with
    | .send k _ _ => if k = key then s.stream ++ ((s.world.call e).1.sent.elim [] TcpSegment.payload) else s.stream
    | _ => s.stream

def Step (key : TcpSocketKey) (s : TcpSender) (e : TcpEvent) (s' : TcpSender) : Prop :=
  ¬ s.world.Resets key e ∧ e ≠ .close key ∧ s' = s.call key e

/-- Every data byte that the call sends in the connection has the number of its place in the stream. -/
def SendsStream (base : UInt32) (key : TcpSocketKey) (s : TcpSender) (e : TcpEvent) : Prop :=
  ∀ seg, (s.world.call e).1.sent = some seg → seg.conn = key →
    ∀ j b, seg.payload[j]? = some b → ByteAt base (s.call key e).stream (seg.seq + UInt32.ofNat j) b

/-- A timer that has run out finds the bytes of the last call of `send` also at the numbers from `snd_una` on. -/
def RepeatsOnTimeout (base : UInt32) (key : TcpSocketKey) (s : TcpSender) (e : TcpEvent) : Prop :=
  ∀ now sock, e = .pollRetransmit key now → s.world.sockets key = some sock → sock.expired now →
    ∀ j b, (s.stream.drop (s.stream.length - sock.retransmitBuf.length))[j]? = some b →
      ByteAt base s.stream (sock.sndUna + UInt32.ofNat j) b

/-- The stream ends at `snd_nxt`, and with the bytes of the last call of `send`. -/
structure Numbered (base : UInt32) (key : TcpSocketKey) (s : TcpSender) (sock : TcpSocket) : Prop where
  socket : s.world.sockets key = some sock
  sndNxt : sock.sndNxt = base + UInt32.ofNat s.stream.length
  suffix : sock.retransmitBuf <:+ s.stream

lemma call_stream_send (data : List UInt8) (now : ℕ) (hk : s.world.sockets key = some sock) :
    (s.call key (.send key data now)).stream = s.stream ++ ((sock.send key data now).2.elim [] TcpSegment.payload) := by
  have hsent : (s.world.call (.send key data now)).1.sent = (sock.send key data now).2 :=
    congrArg Prod.fst (onSocket_self hk none _)
  unfold call
  dsimp only
  rw [if_pos rfl, hsent]

lemma call_stream_of_not_send (h : ∀ data now, s.world.connEvent key sock e ≠ some (.send data now)) :
    (s.call key e).stream = s.stream := by
  cases e with
  | send k data now =>
    have hkey : k ≠ key := by
      rintro rfl
      exact h data now (if_pos rfl)
    exact if_neg hkey
  | segment | flush | recv | close | pollRetransmit | listen | accept => rfl

lemma send_spec (key : TcpSocketKey) (data : List UInt8) (now : ℕ) (sock : TcpSocket) : sock.send key data now = (sock, none) ∨
      (sock.send key data now).1.sndNxt = sock.sndNxt + UInt32.ofNat (data.take sock.allowed).length ∧
        (sock.send key data now).1.retransmitBuf = data.take sock.allowed ∧
        (sock.send key data now).2 = some (TcpSocket.makeReply key sock (Tcp.psh ||| Tcp.ack) (data.take sock.allowed)) := by
  unfold TcpSocket.send
  split
  · exact .inr ⟨rfl, rfl, rfl⟩
  · exact .inl rfl

lemma Numbered.keep (hn : Numbered base key s sock) {sock' : TcpSocket} (hk : s'.world.sockets key = some sock')
    (hstream : s'.stream = s.stream) (hnxt : sock'.sndNxt = sock.sndNxt)
    (hbuf : sock'.retransmitBuf = sock.retransmitBuf) : Numbered base key s' sock' :=
  ⟨hk, by rw [hnxt, hn.sndNxt, hstream], by rw [hbuf, hstream]; exact hn.suffix⟩

lemma Numbered.send (hn : Numbered base key s sock) (data : List UInt8) (now : ℕ)
    (hk : (s.call key (.send key data now)).world.sockets key = some (sock.send key data now).1) :
    Numbered base key (s.call key (.send key data now)) (sock.send key data now).1 := by
  have hstream := call_stream_send data now hn.socket
  obtain hdown | ⟨hnxt, hbuf, hseg⟩ := send_spec key data now sock
  · rw [hdown] at hstream hk ⊢
    exact hn.keep hk (hstream.trans (append_nil _)) rfl rfl
  · rw [hseg] at hstream
    refine ⟨hk, ?_, ?_⟩
    · rw [hnxt, hn.sndNxt, hstream, length_append, UInt32.ofNat_add, UInt32.add_assoc]
      rfl
    · rw [hbuf, hstream]
      exact suffix_append _ _

lemma Numbered.step (hn : Numbered base key s sock) (hs : Step key s e s') : ∃ sock', Numbered base key s' sock' := by
  obtain ⟨hr, hclose, rfl⟩ := hs
  have hc := call_concerns hn.socket hr
  cases he : s.world.connEvent key sock e with
  | none =>
    rw [he] at hc
    exact ⟨sock, hn.keep hc.1 (call_stream_of_not_send (by rw [he]; exact nofun)) rfl rfl⟩
  | some c =>
    rw [he] at hc
    have heq := connEvent_eq he
    cases c with
    | segment score h data =>
      obtain ⟨hnxt, hbuf⟩ := sock.machine_sndNxt key score h data
      exact ⟨_, hn.keep hc.1 (call_stream_of_not_send (by rw [he]; exact nofun)) hnxt hbuf⟩
    | send data now =>
      obtain rfl := heq
      exact ⟨_, hn.send data now hc.1⟩
    | recv | accept => exact ⟨_, hn.keep hc.1 (call_stream_of_not_send (by rw [he]; exact nofun)) rfl rfl⟩
    | close => exact absurd heq hclose
    | pollRetransmit now =>
      obtain ⟨hnxt, hbuf⟩ : (sock.pollRetransmit key now).1.sndNxt = sock.sndNxt ∧
          (sock.pollRetransmit key now).1.retransmitBuf = sock.retransmitBuf := by
        unfold TcpSocket.pollRetransmit
        split
        · exact ⟨rfl, rfl⟩
        · exact ⟨rfl, rfl⟩
      exact ⟨_, hn.keep hc.1 (call_stream_of_not_send (by rw [he]; exact nofun)) hnxt hbuf⟩

lemma byteAt_append {stream data : List UInt8} {j : ℕ} {b : UInt8} (hlen : data.length ≤ 2 ^ 32) (hb : data[j]? = some b) :
    ByteAt base (stream ++ data) (base + UInt32.ofNat stream.length + UInt32.ofNat j) b := by
  refine ⟨stream.length + j, ?_, ?_, ?_⟩
  · rw [length_append]
    omega
  · rw [UInt32.ofNat_add, UInt32.add_assoc]
  · rw [getElem?_append_right (Nat.le_add_right _ _), Nat.add_sub_cancel_left, hb]

/-- The bytes of `send` are always numbered right. -/
theorem Numbered.sendsStream_send (hn : Numbered base key s sock) (data : List UInt8) (now : ℕ)
    (hsent : (s.world.call (.send key data now)).1.sent = (sock.send key data now).2) :
    SendsStream base key s (.send key data now) := by
  intro seg hseg _ j b hb
  rw [hsent] at hseg
  rw [call_stream_send data now hn.socket, hseg]
  obtain hdown | ⟨-, -, hup⟩ := send_spec key data now sock
  · rw [hdown] at hseg
    cases hseg
  · obtain rfl := Option.mem_unique hup hseg
    have hlen : (data.take sock.allowed).length ≤ 2 ^ 32 := by
      have hmax := sock.allowed_le
      rw [length_take]
      omega
    change ByteAt base _ (sock.sndNxt + UInt32.ofNat j) b
    rw [hn.sndNxt]
    exact byteAt_append hlen hb

/-- The bytes of `poll_retransmit` are numbered right if the stream repeats itself. -/
theorem Numbered.sendsStream_poll (hn : Numbered base key s sock) (now : ℕ)
    (hsent : (s.world.call (.pollRetransmit key now)).1.sent = (sock.pollRetransmit key now).2) :
    SendsStream base key s (.pollRetransmit key now) ↔ RepeatsOnTimeout base key s (.pollRetransmit key now) := by
  have hlast : s.stream.drop (s.stream.length - sock.retransmitBuf.length) = sock.retransmitBuf :=
    (suffix_iff_eq_drop.mp hn.suffix).symm
  constructor
  · rintro hsends now' sock' heq hk hexp j b hb
    cases heq
    obtain rfl := Option.mem_unique hn.socket hk
    rw [hlast] at hb
    have hseg : (sock.pollRetransmit key now).2 = some
        { TcpSocket.makeReply key sock (Tcp.psh ||| Tcp.ack) sock.retransmitBuf with seq := sock.sndUna } := by
      unfold TcpSocket.pollRetransmit
      rw [if_pos hexp]
    exact hsends _ (hsent.trans hseg) rfl j b hb
  · intro hrep seg hseg _ j b hb
    rw [hsent] at hseg
    unfold TcpSocket.pollRetransmit at hseg
    split at hseg
    · next hexp =>
      obtain rfl := Option.some.inj hseg
      exact hrep now sock rfl hn.socket hexp j b (by rw [hlast]; exact hb)
    · cases hseg

lemma repeatsOnTimeout_of_not_poll (sock : TcpSocket)
    (h : ∀ now, s.world.connEvent key sock e ≠ some (.pollRetransmit now)) : RepeatsOnTimeout base key s e := by
  rintro now sock' rfl
  exact absurd (if_pos rfl) (h now)

lemma sendsStream_of_sent {o : Option TcpSegment} (hsent : (s.world.call e).1.sent = o)
    (ho : ∀ seg, o = some seg → seg.payload = []) : SendsStream base key s e := by
  intro seg hseg _ j b hb
  rw [hsent] at hseg
  rw [ho seg hseg] at hb
  cases hb

lemma Numbered.sendsStream_iff (hn : Numbered base key s sock) (hs : Step key s e s') :
    SendsStream base key s e ↔ RepeatsOnTimeout base key s e := by
  obtain ⟨hr, hclose, -⟩ := hs
  have hc := call_concerns hn.socket hr
  cases he : s.world.connEvent key sock e with
  | none =>
    rw [he] at hc
    refine iff_of_true (fun seg hseg hconn => absurd hconn (hc.2 seg hseg)) (repeatsOnTimeout_of_not_poll sock ?_)
    rw [he]
    exact nofun
  | some c =>
    rw [he] at hc
    have heq := connEvent_eq he
    cases c with
    | segment score h data =>
      refine iff_of_true (sendsStream_of_sent hc.2 (fun seg hseg => (TcpSocket.machine_answer hseg).2))
        (repeatsOnTimeout_of_not_poll sock ?_)
      rw [he]
      exact nofun
    | send data now =>
      obtain rfl := heq
      exact iff_of_true (hn.sendsStream_send data now hc.2) nofun
    | recv n =>
      obtain rfl := heq
      exact iff_of_true (sendsStream_of_sent hc.2 nofun) nofun
    | close => exact absurd heq hclose
    | pollRetransmit now =>
      obtain rfl := heq
      exact hn.sendsStream_poll now hc.2
    | accept =>
      obtain ⟨port, rfl⟩ := heq
      exact iff_of_true (sendsStream_of_sent hc.2 nofun) nofun

/-- From a connection that has sent nothing on, the bytes are numbered right exactly in the runs in which the stream
repeats itself at every timeout. -/
theorem sendsStream_iff_repeats {w : TcpWorld} (hk : w.sockets key = some sock) (hnew : sock.retransmitBuf = [])
    {tr : List (TcpSender × TcpEvent)} (hrun : Run (Step key) ⟨w, []⟩ tr s) :
    (∀ x ∈ tr, SendsStream sock.sndNxt key x.1 x.2) ↔ ∀ x ∈ tr, RepeatsOnTimeout sock.sndNxt key x.1 x.2 := by
  have hstart : Numbered sock.sndNxt key ⟨w, []⟩ sock := ⟨hk, (UInt32.add_zero _).symm, hnew ▸ suffix_refl []⟩
  refine hrun.forall_iff_of (I := fun s => ∃ sock', Numbered sock.sndNxt key s sock') ⟨sock, hstart⟩ ?_ ?_
  · exact fun s e s' ⟨_, hn⟩ _ hs => hn.step hs
  · exact fun s e s' ⟨_, hn⟩ hs => hn.sendsStream_iff hs

/-! ## Two calls of `send` and a timeout -/

def twoSendsStart : TcpSender := ⟨twoBytesStart.world, []⟩

def firstSend : TcpEvent := .send twoBytes.key [1] 1

def secondSend : TcpEvent := .send twoBytes.key [2] 2

def timeout : TcpEvent := .pollRetransmit twoBytes.key 5000

def oneSend : TcpSender := twoSendsStart.call twoBytes.key firstSend

def twoSends : TcpSender := oneSend.call twoBytes.key secondSend

lemma step_of_not_arriving (ha : s.world.arriving e = none) (hclose : e ≠ .close key) : Step key s e (s.call key e) := by
  refine ⟨?_, hclose, rfl⟩
  rintro ⟨score, src, raw, h, ha', -⟩
  rw [ha] at ha'
  cases ha'

lemma twoSends_run : Run (Step twoBytes.key) twoSendsStart [(twoSendsStart, firstSend), (oneSend, secondSend)] twoSends := by
  have hfirst : Step twoBytes.key twoSendsStart firstSend oneSend := step_of_not_arriving rfl nofun
  have hsecond : Step twoBytes.key oneSend secondSend twoSends := step_of_not_arriving rfl nofun
  exact (Run.nil.snoc hfirst).snoc hsecond

theorem sendsStream_iff_repeats_twoSends : (∀ x ∈ [(twoSendsStart, firstSend), (oneSend, secondSend)],
        SendsStream (Tcp.iss + 1) twoBytes.key x.1 x.2) ↔ ∀ x ∈ [(twoSendsStart, firstSend), (oneSend, secondSend)],
        RepeatsOnTimeout (Tcp.iss + 1) twoBytes.key x.1 x.2 :=
  sendsStream_iff_repeats twoBytesStart_socket rfl twoSends_run

/-- In every state that can be reached, the bytes that `send` itself puts on the wire have the numbers of their places in
the stream. -/
theorem run_send_numbered {w : TcpWorld} (hk : w.sockets key = some sock) (hnew : sock.retransmitBuf = [])
    {tr : List (TcpSender × TcpEvent)} (hrun : Run (Step key) ⟨w, []⟩ tr s) (data : List UInt8) (now : ℕ) :
    SendsStream sock.sndNxt key s (.send key data now) := by
  have hstart : Numbered sock.sndNxt key ⟨w, []⟩ sock := ⟨hk, (UInt32.add_zero _).symm, hnew ▸ suffix_refl []⟩
  obtain ⟨sock', hn⟩ := (hrun.invariant (I := fun s => ∃ sock', Numbered sock.sndNxt key s sock') ⟨sock, hstart⟩
    (fun s e s' ⟨_, hn⟩ hs => hn.step hs)).2
  have hstep : Step key s (.send key data now) _ := step_of_not_arriving rfl nofun
  exact (hn.sendsStream_iff hstep).mpr nofun

theorem run_send_numbered_third : SendsStream (Tcp.iss + 1) twoBytes.key twoSends (.send twoBytes.key [3] 3) :=
  run_send_numbered twoBytesStart_socket rfl twoSends_run [3] 3

/-- The timer sends the second byte again with the number of the first. -/
theorem timeout_sends_wrong_byte : (∃ tr, Run (Step twoBytes.key) twoSendsStart tr twoSends) ∧ twoSends.stream = [1, 2] ∧
      Step twoBytes.key twoSends timeout (twoSends.call twoBytes.key timeout) ∧
      ¬ SendsStream (Tcp.iss + 1) twoBytes.key twoSends timeout := by
  refine ⟨⟨_, twoSends_run⟩, by decide, step_of_not_arriving rfl nofun, ?_⟩
  intro hsends
  have hsent : (twoSends.world.call timeout).1.sent =
      some ⟨80, 4000, Tcp.iss + 1, 1, Tcp.psh ||| Tcp.ack, 65535, (10, 0, 2, 2), [2]⟩ := by decide
  have hstream : (twoSends.call twoBytes.key timeout).stream = [1, 2] := by decide
  obtain ⟨p, -, hnum, hbyte⟩ := hsends _ hsent rfl 0 2 rfl
  rw [hstream] at hbyte
  rcases p with _ | _ | p
  · cases hbyte
  · exact absurd hnum (by decide)
  · cases hbyte

end TcpSender

end NodeKernel
