import NodeKernel.Wifi.Ccmp

/-!
# Received frames

What `poll` hands to the network stack. A data frame with the protected bit has to be authentic, one without the bit is
taken as it is, whether a key is installed or not, and no packet number is remembered.
-/
namespace NodeKernel

open Ccmp

structure WifiState where
  slot : Option UInt8
  connected : Bool
  tk : Aes.Block
  bssid : Vector UInt8 6
  ourMac : Vector UInt8 6
  pn : ℕ
  lastKeepalive : ℕ

/-- What a call of `poll` meets: the time, the bytes from the adapter, and the answer of the network stack to a frame. -/
structure PollInput where
  now : ℕ
  rx : List UInt8
  reply : Option (List UInt8)

structure PollOutput where
  sent : List (List UInt8)
  injected : Option (List UInt8)

namespace WifiState

def setTk (w : WifiState) (tk : Aes.Block) (bssid ourMac : Vector UInt8 6) : WifiState := { w with tk, bssid, ourMac }

/-- The adapter puts four bytes in front of a frame. -/
def frameOf (rx : List UInt8) : List UInt8 := rx.drop 4

def frameControl (frame : List UInt8) : ℕ := ofLe [frame.getD 0 0, frame.getD 1 0]

def isProtected (frame : List UInt8) : Bool := frameControl frame / 4 % 4 = 2 ∧ frameControl frame / 0x4000 % 2 = 1

def isPlainData (frame : List UInt8) : Bool := frameControl frame / 4 % 4 = 2 ∧ frameControl frame / 16 % 16 = 0

/-- The destination and the source, and what follows six bytes of the body. -/
def ethOf (frame body : List UInt8) : List UInt8 := (frame.drop 4).take 6 ++ ((frame.drop 16).take 6 ++ body.drop 6)

/-- The Ethernet frame in the bytes from the adapter, and whether it was protected. -/
def received (tk : Aes.Block) (rx : List UInt8) : Option (Bool × List UInt8) :=
  if rx.length < 32 then none
  else
    let frame := frameOf rx
    if frame.length < 28 then none
    else if isProtected frame then
      match ccmpDecrypt tk frame with
      | some plaintext => if plaintext.length < 8 then none else some (true, ethOf frame plaintext)
      | none => none
    else if isPlainData frame then
      if frame.length < 32 then none else some (false, ethOf frame (frame.drop 24))
    else none

def nullFrame (w : WifiState) : List UInt8 :=
  [0x48, 0x01, 0, 0] ++ w.bssid.toList ++ w.ourMac.toList ++ w.bssid.toList ++ [0, 0]

def wifiTxOpen (w : WifiState) (ethFrame : List UInt8) : Option (List UInt8) :=
  if ethFrame.length < 14 then none
  else some ([0x08, 0x01, 0, 0] ++ w.bssid.toList ++ w.ourMac.toList ++ w.bssid.toList ++ [0, 0] ++
    [0xAA, 0xAA, 0x03, 0x00, 0x00, 0x00] ++ ethFrame.drop 12)

def sendReply (w : WifiState) (secured : Bool) (reply : List UInt8) : List (List UInt8) × WifiState :=
  if secured then
    match wifiTx reply w.tk w.bssid w.ourMac w.pn with
    | some tx => ([tx], { w with pn := w.pn + 1 })
    | none => ([], w)
  else ((w.wifiTxOpen reply).toList, w)

def keepalive (w : WifiState) (now : ℕ) : List (List UInt8) × WifiState :=
  if 30000 ≤ now - w.lastKeepalive then ([w.nullFrame], { w with lastKeepalive := now }) else ([], w)

def poll (w : WifiState) (e : PollInput) : PollOutput × WifiState :=
  if w.slot = none ∨ w.connected = false then (⟨[], none⟩, w)
  else
    let (alive, w) := w.keepalive e.now
    match received w.tk e.rx with
    | none => (⟨alive, none⟩, w)
    | some (secured, eth) =>
      match e.reply with
      | none => (⟨alive, some eth⟩, w)
      | some reply =>
        let (sent, w) := w.sendReply secured reply
        (⟨alive ++ sent, some eth⟩, w)

/-- The frames whose contents the network stack gets, in order, each with the Ethernet frame made of it. -/
def injections (w : WifiState) : List PollInput → List (List UInt8 × List UInt8)
  | [] => []
  | e :: l => ((w.poll e).1.injected.map (fun eth => (frameOf e.rx, eth))).toList ++ injections (w.poll e).2 l

/-- Every frame was protected and authentic, with a larger packet number than those before it. -/
def Secure (tk : Aes.Block) (injected : List (List UInt8 × List UInt8)) : Prop :=
  (∀ x ∈ injected, isProtected x.1 ∧ ∃ plaintext, ccmpDecrypt tk x.1 = some plaintext ∧ x.2 = ethOf x.1 plaintext) ∧
    (injected.map (fun x => framePn x.1)).Pairwise (fun m n => m < n)

def takenOpen (rx : List UInt8) : Bool :=
  36 ≤ rx.length ∧ isProtected (frameOf rx) = false ∧ isPlainData (frameOf rx)

def takenProtected (tk : Aes.Block) (rx : List UInt8) : Bool :=
  isProtected (frameOf rx) && (ccmpDecrypt tk (frameOf rx)).any (fun plaintext => decide (8 ≤ plaintext.length))

variable {w : WifiState} {e : PollInput} {tk : Aes.Block} {rx : List UInt8}

lemma takenProtected_iff : takenProtected tk rx = true ↔
    isProtected (frameOf rx) ∧ ∃ plaintext, ccmpDecrypt tk (frameOf rx) = some plaintext ∧ 8 ≤ plaintext.length := by
  rw [takenProtected, Bool.and_eq_true]
  cases ccmpDecrypt tk (frameOf rx) <;> simp

/-- What a connected adapter injects for the bytes of one call. -/
def injection (tk : Aes.Block) (rx : List UInt8) : Option (List UInt8 × List UInt8) :=
  (received tk rx).map (fun x => (frameOf rx, x.2))

/-- A frame is taken without protection, or because it is authentic, or not at all. -/
theorem injection_eq (tk : Aes.Block) (rx : List UInt8) : injection tk rx =
    if takenOpen rx then some (frameOf rx, ethOf (frameOf rx) ((frameOf rx).drop 24))
    else if takenProtected tk rx then
      (ccmpDecrypt tk (frameOf rx)).map (fun plaintext => (frameOf rx, ethOf (frameOf rx) plaintext))
    else none := by
  have hlen : (frameOf rx).length = rx.length - 4 := List.length_drop
  rw [injection, received]
  by_cases h32 : rx.length < 32
  · have hnone : ccmpDecrypt tk (frameOf rx) = none := if_pos (by omega)
    rw [if_pos h32, takenOpen, takenProtected, hnone, decide_eq_false (by omega)]
    simp
  · rw [if_neg h32]
    simp only [if_neg (show ¬ (frameOf rx).length < 28 by omega)]
    cases hp : isProtected (frameOf rx) with
    | true =>
      have hopen : takenOpen rx = false := by simp [takenOpen, hp]
      cases hd : ccmpDecrypt tk (frameOf rx) with
      | none => simp [hopen, takenProtected, hp, hd]
      | some plaintext =>
        by_cases h8 : plaintext.length < 8
        · simp [hopen, takenProtected, hp, hd, h8]
        · simp [hopen, takenProtected, hp, hd, h8, Nat.le_of_not_lt h8]
    | false =>
      have hprot : takenProtected tk rx = false := by simp [takenProtected, hp]
      cases hd : isPlainData (frameOf rx) with
      | true =>
        by_cases h36 : 36 ≤ rx.length
        · simp [takenOpen, hp, hd, h36, show ¬ (frameOf rx).length < 32 by omega]
        · simp [takenOpen, hp, hd, h36, hprot, show (frameOf rx).length < 32 by omega]
      | false => simp [takenOpen, hp, hd, hprot]

def listening (w : WifiState) : Bool := w.slot.isSome && w.connected

def link (w : WifiState) : Option UInt8 × Bool × Aes.Block := (w.slot, w.connected, w.tk)

lemma keepalive_link (w : WifiState) (now : ℕ) : (w.keepalive now).2.link = w.link := by
  rw [keepalive]
  split <;> rfl

lemma sendReply_link (w : WifiState) (secured : Bool) (reply : List UInt8) : (w.sendReply secured reply).2.link = w.link := by
  rw [sendReply]
  split
  · split <;> rfl
  · rfl

lemma poll_link (w : WifiState) (e : PollInput) : (w.poll e).2.link = w.link := by
  have halive := keepalive_link w e.now
  rw [poll]
  split
  · rfl
  · simp only
    split
    · exact halive
    · split
      · exact halive
      · exact (sendReply_link _ _ _).trans halive

lemma listening_of_link {w w' : WifiState} (h : w.link = w'.link) : w.listening = w'.listening :=
  congrArg (fun x : Option UInt8 × Bool × Aes.Block => x.1.isSome && x.2.1) h

lemma tk_of_link {w w' : WifiState} (h : w.link = w'.link) : w.tk = w'.tk := congrArg (fun x => x.2.2) h

lemma poll_injected (w : WifiState) (e : PollInput) :
    (w.poll e).1.injected = if w.listening then (received w.tk e.rx).map Prod.snd else none := by
  have htk := tk_of_link (keepalive_link w e.now)
  rw [poll, listening]
  cases w.slot with
  | none => simp
  | some slot =>
    cases w.connected with
    | false => simp
    | true =>
      simp only [reduceCtorEq, or_self, if_false, htk, Option.isSome_some, Bool.and_self, if_true]
      cases received w.tk e.rx with
      | none => rfl
      | some x =>
        cases e.reply with
        | none => rfl
        | some reply => rfl

lemma injections_eq (w : WifiState) (l : List PollInput) : w.injections l =
    if w.listening then l.filterMap (fun e => injection w.tk e.rx) else [] := by
  induction l generalizing w with
  | nil => simp [injections]
  | cons e l ih =>
    have hlink := poll_link w e
    rw [injections, ih, poll_injected, listening_of_link hlink, tk_of_link hlink]
    cases w.listening with
    | false => rfl
    | true =>
      simp only [if_true, Option.map_map, List.filterMap_cons, injection]
      cases received w.tk e.rx <;> rfl

lemma authentic_iff (tk : Aes.Block) (l : List PollInput) : (∀ x ∈ l.filterMap (fun e => injection tk e.rx), isProtected x.1 ∧
        ∃ plaintext, ccmpDecrypt tk x.1 = some plaintext ∧ x.2 = ethOf x.1 plaintext) ↔ ∀ e ∈ l, takenOpen e.rx = false := by
  constructor
  · intro h e he
    by_contra hopen
    rw [Bool.not_eq_false] at hopen
    have hprot := (h _ (List.mem_filterMap.mpr ⟨e, he, (injection_eq tk e.rx).trans (if_pos hopen)⟩)).1
    simp [takenOpen, hprot] at hopen
  · intro h x hx
    obtain ⟨e, he, hinj⟩ := List.mem_filterMap.mp hx
    rw [injection_eq, h e he, if_neg Bool.false_ne_true] at hinj
    split at hinj
    · next htaken =>
      obtain ⟨plaintext, hplain, rfl⟩ := Option.map_eq_some_iff.mp hinj
      exact ⟨(takenProtected_iff.mp htaken).1, plaintext, hplain, rfl⟩
    · cases hinj

lemma injected_pns {tk : Aes.Block} {l : List PollInput} (h : ∀ e ∈ l, takenOpen e.rx = false) :
    (l.filterMap (fun e => injection tk e.rx)).map (fun x => framePn x.1) =
      (l.filter (fun e => takenProtected tk e.rx)).map (fun e => framePn (frameOf e.rx)) := by
  induction l with
  | nil => rfl
  | cons e l ih =>
    have ih := ih (fun e he => h e (List.mem_cons_of_mem _ he))
    rw [List.filterMap_cons, injection_eq, h e List.mem_cons_self, if_neg Bool.false_ne_true, List.filter_cons]
    cases htaken : takenProtected tk e.rx with
    | false => simpa using ih
    | true =>
      obtain ⟨-, plaintext, hplain, -⟩ := takenProtected_iff.mp htaken
      simpa [hplain] using ih

/-- After a key is installed, all that is injected in a run is authentic and new exactly if the adapter is not connected, or
no frame without protection comes in and the authentic frames come in the order of their packet numbers. -/
theorem injections_secure_iff (w : WifiState) (tk : Aes.Block) (bssid ourMac : Vector UInt8 6) (l : List PollInput) :
    Secure tk ((w.setTk tk bssid ourMac).injections l) ↔ (w.listening → (∀ e ∈ l, takenOpen e.rx = false) ∧
        ((l.filter (fun e => takenProtected tk e.rx)).map (fun e => framePn (frameOf e.rx))).Pairwise (fun m n => m < n)) := by
  have hlisten : (w.setTk tk bssid ourMac).listening = w.listening := rfl
  have htk : (w.setTk tk bssid ourMac).tk = tk := rfl
  rw [injections_eq, hlisten, htk]
  cases w.listening with
  | false => simp [Secure]
  | true =>
    rw [if_pos rfl, Secure, authentic_iff, imp_iff_right rfl]
    exact and_congr_right (fun h => by rw [injected_pns h])

lemma isProtected_data (rest : List UInt8) : isProtected (0x08 :: 0x41 :: rest) = true := by
  have hfc : frameControl (0x08 :: 0x41 :: rest) = ofLe [0x08, 0x41] := rfl
  rw [isProtected, hfc]
  decide

lemma takenProtected_sent {ethFrame tx : List UInt8} {bssid ourMac : Vector UInt8 6} {pn : ℕ}
    (h : wifiTx ethFrame tk bssid ourMac pn = some tx) (rxHdr : Vector UInt8 4) : takenProtected tk (rxHdr.toList ++ tx) = true := by
  have hframe : frameOf (rxHdr.toList ++ tx) = tx := List.drop_left' Vector.length_toList
  have hplain := wifiTx_received h
  rw [takenProtected_iff, hframe]
  rw [wifiTx] at h
  split at h
  · cases h
  · next hlong =>
    refine ⟨?_, _, hplain, ?_⟩
    · obtain rfl := Option.some.inj h
      simp only [dataHdr, Vector.toList_append, List.append_assoc]
      exact isProtected_data _
    · rw [List.length_append, List.length_drop]
      change 8 ≤ 6 + _
      omega

lemma replay_is_injected {e : PollInput} (hw : w.listening = true) (h : takenProtected w.tk e.rx = true) :
    ¬ Secure w.tk (w.injections [e, e]) := by
  intro hsecure
  rw [injections_eq, if_pos hw, Secure, authentic_iff] at hsecure
  have hpns := hsecure.2
  simp only [injected_pns hsecure.1, List.filter_cons, h, if_true] at hpns
  exact lt_irrefl _ (List.rel_of_pairwise_cons hpns List.mem_cons_self)

/-- A frame of zeros with the type of a data frame is taken without protection, and a frame that was encrypted with the key is
taken twice. -/
theorem open_and_replayed_frames_are_injected :
    let w : WifiState := ⟨some 1, true, Vector.replicate 16 0, Vector.replicate 6 0, Vector.replicate 6 0, 1, 0⟩
    let w := w.setTk (Vector.replicate 16 1) (Vector.replicate 6 2) (Vector.replicate 6 3)
    let sent := (wifiTx (List.replicate 14 0) w.tk w.bssid w.ourMac 1).getD []
    ¬ Secure w.tk (w.injections [⟨0, [0, 0, 0, 0, 0x08] ++ List.replicate 31 0, none⟩]) ∧
      ¬ Secure w.tk (w.injections [⟨0, [0, 0, 0, 0] ++ sent, none⟩, ⟨0, [0, 0, 0, 0] ++ sent, none⟩]) := by
  intro w₀ w sent
  have hopen : takenOpen ([0, 0, 0, 0, 0x08] ++ List.replicate 31 0) = true := by decide
  have hsent : wifiTx (List.replicate 14 0) w.tk w.bssid w.ourMac 1 = some sent := rfl
  constructor
  · rw [injections_eq, Secure, if_pos (by rfl), authentic_iff]
    exact fun h => absurd (h.1 _ List.mem_cons_self) (by rw [hopen]; decide)
  · exact replay_is_injected rfl (takenProtected_sent hsent #v[0, 0, 0, 0])

end WifiState
end NodeKernel
