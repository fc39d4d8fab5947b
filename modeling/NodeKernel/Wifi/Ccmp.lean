import NodeKernel.Lib.Ccm
import NodeKernel.Wifi.Aes
import Mathlib.Tactic.IntervalCases

/-!
# CCMP

The encryption of data frames. The tag is that of CCM, but the key stream for the message starts at counter 2 and not
at 1, on both sides. Packet numbers are numbers, of which six bytes are used.
-/
namespace NodeKernel
namespace Ccmp

open Aes Ccm

def ccmpNonce (a2 : Vector UInt8 6) (pn : ℕ) : Vector UInt8 13 :=
  #v[(0 : UInt8)] ++ a2 ++ #v[wordByte pn 5, wordByte pn 4, wordByte pn 3, wordByte pn 2, wordByte pn 1, wordByte pn 0]

def ccmpAad (macHdr : Vector UInt8 24) : Vector UInt8 24 :=
  ((macHdr.set 1 ((macHdr[1] &&& ~~~0x40) &&& ~~~0x38)).set 22 (macHdr[22] &&& 0x0F)).set 23 0

def aadBlock (aad : Vector UInt8 24) : List UInt8 := [0, 24] ++ aad.toList ++ List.replicate 6 0

def ccmpCbcmac (tk : Block) (nonce : Vector UInt8 13) (aad : Vector UInt8 24) (plaintext : List UInt8) : List UInt8 :=
  let rk := aes128KeyExpand tk
  let b0 := blockFrom (0x59 :: (nonce.toList ++ toBe 2 plaintext.length)) 0
  let x := aes128Encrypt b0 rk
  let x := [0, 16].foldl (fun x i => aes128Encrypt (xorBlock x (blockFrom (aadBlock aad) i)) rk) x
  let x := (List.range ((plaintext.length + 15) / 16)).foldl
    (fun x i => aes128Encrypt (xorBlock x (blockFrom plaintext (16 * i))) rk) x
  let s0 := aes128Encrypt (blockFrom (0x01 :: (nonce.toList ++ [0, 0])) 0) rk
  xorBytes (x.toList.take 8) (s0.toList.take 8)

/-- The turns of the loop of `ccmp_ctr`; the counter has 16 bits. -/
def ctrLoop (rk : ℕ → Block) (nonce : Vector UInt8 13) : ℕ → ℕ → List UInt8 → List UInt8
  | 0, _, data => data
  | n + 1, counter, data =>
    let counter := (counter + 1) % 2 ^ 16
    let ctrBlk := aes128Encrypt (blockFrom (0x01 :: (nonce.toList ++ toBe 2 counter)) 0) rk
    xorBytes (data.take 16) ctrBlk.toList ++ ctrLoop rk nonce n counter (data.drop 16)

def ccmpCtr (tk : Block) (nonce : Vector UInt8 13) (data : List UInt8) : List UInt8 :=
  ctrLoop (aes128KeyExpand tk) nonce ((data.length + 15) / 16) 1 data

def ccmpEncrypt (tk : Block) (macHdr : Vector UInt8 24) (a2 : Vector UInt8 6) (pn : ℕ) (plaintext : List UInt8) : List UInt8 :=
  let nonce := ccmpNonce a2 pn
  let mic := ccmpCbcmac tk nonce (ccmpAad macHdr) plaintext
  ccmpCtr tk nonce plaintext ++ mic

def framePn (frame : List UInt8) : ℕ :=
  ofLe [frame.getD 24 0, frame.getD 25 0, frame.getD 28 0, frame.getD 29 0, frame.getD 30 0, frame.getD 31 0]

def frameHdr (frame : List UInt8) : Vector UInt8 24 := Vector.ofFn (fun i => frame.getD i 0)

def frameA2 (frame : List UInt8) : Vector UInt8 6 := Vector.ofFn (fun i => frame.getD (10 + i) 0)

def ccmpDecrypt (tk : Block) (frame : List UInt8) : Option (List UInt8) :=
  if frame.length < 40 then none
  else
    let ctEnd := frame.length - 8
    let ciphertext := (frame.take ctEnd).drop 32
    let rxMic := frame.drop ctEnd
    let nonce := ccmpNonce (frameA2 frame) (framePn frame)
    let plaintext := ccmpCtr tk nonce ciphertext
    let expected := ccmpCbcmac tk nonce (ccmpAad (frameHdr frame)) plaintext
    if expected ≠ rxMic then none else some plaintext

def dataHdr (bssid ourMac dest : Vector UInt8 6) : Vector UInt8 24 :=
  #v[(0x08 : UInt8), 0x41, 0, 0] ++ bssid ++ ourMac ++ dest ++ #v[(0 : UInt8), 0]

def ccmpHdr (pn : ℕ) : List UInt8 :=
  [wordByte pn 0, wordByte pn 1, 0x00, 0x20, wordByte pn 2, wordByte pn 3, wordByte pn 4, wordByte pn 5]

def wifiTx (ethFrame : List UInt8) (tk : Block) (bssid ourMac : Vector UInt8 6) (pn : ℕ) : Option (List UInt8) :=
  if ethFrame.length < 14 then none
  else
    let macHdr := dataHdr bssid ourMac (Vector.ofFn (fun i => ethFrame.getD i 0))
    let plaintext := [0xAA, 0xAA, 0x03, 0x00, 0x00, 0x00] ++ ethFrame.drop 12
    some (macHdr.toList ++ (ccmpHdr pn ++ ccmpEncrypt tk macHdr ourMac pn plaintext))

variable {tk : Block} {nonce : Vector UInt8 13} {data : List UInt8}

lemma ctrLoop_eq {n c : ℕ} (h : data.length ≤ 16 * n) : ctrLoop (aes128KeyExpand tk) nonce n (c % 2 ^ 16) data =
    xorBytes data (keystream (Fips197.aes tk) 2 nonce.toList n (c + 1)) := by
  induction n generalizing c data with
  | zero =>
    obtain rfl : data = [] := List.eq_nil_of_length_eq_zero (by omega)
    rfl
  | succ n ih =>
    have hcount : (c % 2 ^ 16 + 1) % 2 ^ 16 = (c + 1) % 2 ^ 16 := by omega
    have hblock : toBe 2 ((c + 1) % 2 ^ 16) = toBe 2 (c + 1) := toBe_mod 2 (c + 1)
    rw [ctrLoop, keystream, xorBytes_append, hcount, hblock, aes128Encrypt_eq, Vector.length_toList]
    rw [ih (by rw [List.length_drop]; omega)]
    rfl

lemma ccmpCtr_eq (tk : Block) (nonce : Vector UInt8 13) (data : List UInt8) : ccmpCtr tk nonce data =
    xorBytes data (keystream (Fips197.aes tk) 2 nonce.toList ((data.length + 15) / 16) 2) :=
  ctrLoop_eq (c := 1) (by omega)

lemma blocks_aad (aad : Vector UInt8 24) :
    blocks (aadBytes aad.toList) = [blockFrom (aadBlock aad) 0, blockFrom (aadBlock aad) 16] := by
  have hlen : aad.toList.length = 24 := Vector.length_toList
  have hne : aad.toList ≠ [] := List.ne_nil_of_length_pos (by omega)
  have hbytes : aadBytes aad.toList = [0, 24] ++ aad.toList := by
    rw [aadBytes, if_neg hne, hlen]
    rfl
  have hcount : ([0, 24] ++ aad.toList).length = 26 := by
    rw [List.length_append, hlen]
    rfl
  rw [hbytes, blocks, hcount, aadBlock, blockFrom_zeros, blockFrom_zeros]
  rfl

lemma ccmpCbcmac_eq (tk : Block) (nonce : Vector UInt8 13) (aad : Vector UInt8 24) (plaintext : List UInt8) :
    ccmpCbcmac tk nonce aad plaintext = xorBytes (tag (Fips197.aes tk) 8 2 nonce.toList aad.toList plaintext)
      ((Fips197.aes tk (counterBlock 2 nonce.toList 0)).toList.take 8) := by
  have hne : aad.toList ≠ [] := List.ne_nil_of_length_pos (by rw [Vector.length_toList]; decide)
  have hfirst : firstBlock 8 2 nonce.toList aad.toList plaintext =
      blockFrom (0x59 :: (nonce.toList ++ toBe 2 plaintext.length)) 0 := by
    rw [firstBlock, if_neg hne]
    rfl
  rw [tag, hfirst, blocks_aad, cbcMac, List.foldl_append, blocks, List.foldl_map]
  simp only [ccmpCbcmac, aes128Encrypt_eq]
  rfl

lemma counterBlock_last (nonce : Vector UInt8 13) (i : ℕ) : (counterBlock 2 nonce.toList i).get (Fin.last 15) = UInt8.ofNat i := by
  have hlen : nonce.toList.length = 13 := Vector.length_toList
  have hbytes : toBe 2 i = [UInt8.ofNat (i / 256), UInt8.ofNat i] := rfl
  change (counterBlock 2 nonce.toList i)[15] = _
  rw [counterBlock, blockFrom, Vector.getElem_ofFn, hbytes, List.getD_eq_getElem?_getD, Nat.zero_add, List.getElem?_cons_succ,
    List.getElem?_append_right (by omega), hlen]
  rfl

lemma first_blocks_differ (tk : Block) (nonce : Vector UInt8 13) :
    Fips197.aes tk (counterBlock 2 nonce.toList 2) ≠ Fips197.aes tk (counterBlock 2 nonce.toList 1) := by
  intro h
  have hlast := congrArg (fun b : Block => b.get (Fin.last 15)) (aes_injective tk h)
  simp only [counterBlock_last] at hlast
  cases hlast

lemma ccmpEncrypt_agree_iff (tk : Block) (macHdr : Vector UInt8 24) (a2 : Vector UInt8 6) (pn : ℕ) (plaintext : List UInt8) :
    ccmpEncrypt tk macHdr a2 pn plaintext =
        Ccm.encrypt (Fips197.aes tk) 8 2 (ccmpNonce a2 pn).toList (ccmpAad macHdr).toList plaintext ↔
      (keystream (Fips197.aes tk) 2 (ccmpNonce a2 pn).toList ((plaintext.length + 15) / 16) 2).take plaintext.length =
        (keystream (Fips197.aes tk) 2 (ccmpNonce a2 pn).toList ((plaintext.length + 15) / 16) 1).take plaintext.length := by
  have hlong : ∀ i, plaintext.length ≤
      (keystream (Fips197.aes tk) 2 (ccmpNonce a2 pn).toList ((plaintext.length + 15) / 16) i).length := by
    intro i
    rw [keystream_length]
    omega
  simp only [ccmpEncrypt, Ccm.encrypt, ccmpCtr_eq, ccmpCbcmac_eq]
  rw [List.append_left_inj, xorBytes_inj (hlong 2) (hlong 1)]

/-- A frame is what CCM makes of it exactly if its message is shorter than a block and the first two blocks of the key
stream agree on it. -/
theorem ccmpEncrypt_eq_iff (tk : Block) (macHdr : Vector UInt8 24) (a2 : Vector UInt8 6) (pn : ℕ) (plaintext : List UInt8) :
    ccmpEncrypt tk macHdr a2 pn plaintext =
        Ccm.encrypt (Fips197.aes tk) 8 2 (ccmpNonce a2 pn).toList (ccmpAad macHdr).toList plaintext ↔ plaintext.length < 16 ∧
        (Fips197.aes tk (counterBlock 2 (ccmpNonce a2 pn).toList 1)).toList.take plaintext.length =
          (Fips197.aes tk (counterBlock 2 (ccmpNonce a2 pn).toList 2)).toList.take plaintext.length := by
  rw [ccmpEncrypt_agree_iff, keystream_agree_iff (first_blocks_differ tk _), eq_comm]

/-- Sixteen zero bytes under the zero key: the first block is encrypted with counter 2. -/
theorem keystream_starts_late :
    ccmpEncrypt (Vector.replicate 16 0) (Vector.replicate 24 0) (Vector.replicate 6 0) 1 (List.replicate 16 0) ≠
      Ccm.encrypt (Fips197.aes (Vector.replicate 16 0)) 8 2 (ccmpNonce (Vector.replicate 6 0) 1).toList
        (ccmpAad (Vector.replicate 24 0)).toList (List.replicate 16 0) := by
  rw [Ne, ccmpEncrypt_agree_iff, keystream_agree_iff (first_blocks_differ _ _), List.length_replicate]
  exact fun h => absurd h.1 (by decide)

lemma getD_middle {front middle : List UInt8} {off i : ℕ} (hfront : front.length = off) (hi : i < middle.length)
    (rest : List UInt8) : (front ++ (middle ++ rest)).getD (off + i) 0 = middle[i] := by
  subst hfront
  rw [List.getD_eq_getElem?_getD, List.getElem?_append_right (Nat.le_add_right _ _), Nat.add_sub_cancel_left,
    List.getElem?_append_left hi, List.getElem?_eq_getElem hi, Option.getD_some]

lemma frameA2_dataHdr (bssid ourMac dest : Vector UInt8 6) (rest : List UInt8) :
    frameA2 ((dataHdr bssid ourMac dest).toList ++ rest) = ourMac := by
  have hbytes : (dataHdr bssid ourMac dest).toList ++ rest =
      ([0x08, 0x41, 0, 0] ++ bssid.toList) ++ (ourMac.toList ++ (dest.toList ++ [0, 0] ++ rest)) := by
    simp only [dataHdr, Vector.toList_append, List.append_assoc]
    rfl
  have hfront : ([0x08, 0x41, 0, 0] ++ bssid.toList).length = 10 := by
    rw [List.length_append, Vector.length_toList]
    rfl
  apply Vector.ext
  intro i hi
  have hlen : i < ourMac.toList.length := by rwa [Vector.length_toList]
  rw [frameA2, Vector.getElem_ofFn, hbytes, getD_middle hfront hlen]
  exact Vector.getElem_toList hlen

lemma frameHdr_append (macHdr : Vector UInt8 24) (rest : List UInt8) : frameHdr (macHdr.toList ++ rest) = macHdr := by
  apply Vector.ext
  intro i hi
  have hlen : i < macHdr.toList.length := by rwa [Vector.length_toList]
  rw [frameHdr, Vector.getElem_ofFn, List.getD_eq_getElem?_getD, List.getElem?_append_left hlen, List.getElem?_eq_getElem hlen]
  exact Vector.getElem_toList hlen

lemma ccmpNonce_framePn (macHdr : Vector UInt8 24) (a2 : Vector UInt8 6) (pn : ℕ) (rest : List UInt8) :
    ccmpNonce a2 (framePn (macHdr.toList ++ (ccmpHdr pn ++ rest))) = ccmpNonce a2 pn := by
  have hbyte : ∀ i (hi : i < 8), (macHdr.toList ++ (ccmpHdr pn ++ rest)).getD (24 + i) 0 = (ccmpHdr pn)[i] :=
    fun i hi => getD_middle Vector.length_toList hi rest
  have hpn : framePn (macHdr.toList ++ (ccmpHdr pn ++ rest)) =
      ofLe [wordByte pn 0, wordByte pn 1, wordByte pn 2, wordByte pn 3, wordByte pn 4, wordByte pn 5] := by
    rw [framePn, hbyte 0 (by decide), hbyte 1 (by decide), hbyte 4 (by decide), hbyte 5 (by decide), hbyte 6 (by decide),
      hbyte 7 (by decide)]
    rfl
  have hback : ∀ k < 6, wordByte (framePn (macHdr.toList ++ (ccmpHdr pn ++ rest))) k = wordByte pn k := by
    intro k hk
    rw [hpn, wordByte, ofLe_byte]
    interval_cases k <;> rfl
  simp only [ccmpNonce, hback 0 (by decide), hback 1 (by decide), hback 2 (by decide), hback 3 (by decide), hback 4 (by decide),
    hback 5 (by decide)]

lemma ccmpCtr_length (tk : Block) (nonce : Vector UInt8 13) (data : List UInt8) : (ccmpCtr tk nonce data).length = data.length := by
  rw [ccmpCtr_eq, xorBytes_length]
  rw [keystream_length]
  omega

lemma ccmpCtr_twice (tk : Block) (nonce : Vector UInt8 13) (data : List UInt8) :
    ccmpCtr tk nonce (ccmpCtr tk nonce data) = data := by
  rw [ccmpCtr_eq, ccmpCtr_length, ccmpCtr_eq, xorBytes_twice]
  rw [keystream_length]
  omega

lemma ccmpCbcmac_length (tk : Block) (nonce : Vector UInt8 13) (aad : Vector UInt8 24) (plaintext : List UInt8) :
    (ccmpCbcmac tk nonce aad plaintext).length = 8 := by
  simp only [ccmpCbcmac, xorBytes, List.length_zipWith, List.length_take, Vector.length_toList]
  decide

lemma frame_parts (ct : List UInt8) {front mic : List UInt8} (hfront : front.length = 32) (hmic : mic.length = 8) :
    (front ++ (ct ++ mic)).length = 40 + ct.length ∧
      ((front ++ (ct ++ mic)).take ((front ++ (ct ++ mic)).length - 8)).drop 32 = ct ∧
      (front ++ (ct ++ mic)).drop ((front ++ (ct ++ mic)).length - 8) = mic := by
  have hlen : (front ++ (ct ++ mic)).length - 8 = (front ++ ct).length := by
    simp only [List.length_append]
    omega
  refine ⟨by simp only [List.length_append]; omega, ?_, ?_⟩
  · rw [hlen, ← List.append_assoc, List.take_left, ← hfront, List.drop_left]
  · rw [hlen, ← List.append_assoc, List.drop_left]

lemma ccmpDecrypt_parts (tk : Block) (ct : List UInt8) {front mic : List UInt8} (hfront : front.length = 32) (hmic : mic.length = 8) :
    ccmpDecrypt tk (front ++ (ct ++ mic)) =
      let nonce := ccmpNonce (frameA2 (front ++ (ct ++ mic))) (framePn (front ++ (ct ++ mic)))
      if ccmpCbcmac tk nonce (ccmpAad (frameHdr (front ++ (ct ++ mic)))) (ccmpCtr tk nonce ct) ≠ mic then none
      else some (ccmpCtr tk nonce ct) := by
  obtain ⟨hlen, hct, htag⟩ := frame_parts ct hfront hmic
  have hshort : ¬ (front ++ (ct ++ mic)).length < 40 := by omega
  simp only [ccmpDecrypt, if_neg hshort, hct, htag]

lemma decrypt_frame (tk : Block) (macHdr : Vector UInt8 24) (a2 : Vector UInt8 6) (ha2 : ∀ rest, frameA2 (macHdr.toList ++ rest) = a2)
    (pn : ℕ) (plaintext : List UInt8) :
    ccmpDecrypt tk (macHdr.toList ++ (ccmpHdr pn ++ ccmpEncrypt tk macHdr a2 pn plaintext)) = some plaintext := by
  have hfront : (macHdr.toList ++ ccmpHdr pn).length = 32 := by
    rw [List.length_append, Vector.length_toList]
    rfl
  have hmic := ccmpCbcmac_length tk (ccmpNonce a2 pn) (ccmpAad macHdr) plaintext
  have hparts := ccmpDecrypt_parts tk (ccmpCtr tk (ccmpNonce a2 pn) plaintext) hfront hmic
  simp only [List.append_assoc, ha2, frameHdr_append, ccmpNonce_framePn, ccmpCtr_twice] at hparts
  rw [ccmpEncrypt, hparts]
  exact if_neg (not_not_intro rfl)

theorem ccmpDecrypt_ccmpEncrypt (tk : Block) (bssid ourMac dest : Vector UInt8 6) (pn : ℕ) (plaintext : List UInt8) :
    ccmpDecrypt tk ((dataHdr bssid ourMac dest).toList ++ (ccmpHdr pn ++
      ccmpEncrypt tk (dataHdr bssid ourMac dest) ourMac pn plaintext)) = some plaintext :=
  decrypt_frame tk _ _ (frameA2_dataHdr bssid ourMac dest) pn plaintext

/-- A frame is accepted exactly if, behind its two headers, it is the encryption of what comes out. -/
theorem ccmpDecrypt_eq_some_iff (tk : Block) (frame plaintext : List UInt8) : ccmpDecrypt tk frame = some plaintext ↔
    40 ≤ frame.length ∧ frame.drop 32 = ccmpEncrypt tk (frameHdr frame) (frameA2 frame) (framePn frame) plaintext := by
  by_cases hlen : frame.length < 40
  · rw [ccmpDecrypt, if_pos hlen]
    exact iff_of_false nofun fun h => absurd hlen h.1.not_gt
  · have hparts : frame = frame.take 32 ++ ((frame.drop 32).take (frame.length - 40) ++ frame.drop (frame.length - 8)) := by
      rw [show frame.length - 8 = 32 + (frame.length - 40) by omega, ← List.drop_drop, List.take_append_drop,
        List.take_append_drop]
    have hfront : (frame.take 32).length = 32 := List.length_take_of_le (by omega)
    have hmic : (frame.drop (frame.length - 8)).length = 8 := by
      rw [List.length_drop]
      omega
    generalize frame.take 32 = front, (frame.drop 32).take (frame.length - 40) = ct, frame.drop (frame.length - 8) = mic
      at hparts hfront hmic
    have hdrop : frame.drop 32 = ct ++ mic := by rw [hparts, List.drop_left' hfront]
    rw [hparts, ccmpDecrypt_parts tk ct hfront hmic, ← hparts, hdrop, ccmpEncrypt]
    simp only [ite_eq_iff, reduceCtorEq, and_false, false_or, not_not, Option.some.injEq]
    constructor
    · rintro ⟨rfl, rfl⟩
      exact ⟨not_lt.mp hlen, by rw [ccmpCtr_twice]⟩
    · rintro ⟨-, h⟩
      obtain ⟨rfl, rfl⟩ := List.append_inj' h (by rw [hmic, ccmpCbcmac_length])
      rw [ccmpCtr_twice]
      exact ⟨rfl, rfl⟩

lemma wifiTx_received {ethFrame tx : List UInt8} {bssid ourMac : Vector UInt8 6} {pn : ℕ}
    (h : wifiTx ethFrame tk bssid ourMac pn = some tx) :
    ccmpDecrypt tk tx = some ([0xAA, 0xAA, 0x03, 0x00, 0x00, 0x00] ++ ethFrame.drop 12) := by
  rw [wifiTx] at h
  split at h
  · cases h
  · obtain rfl := Option.some.inj h
    exact decrypt_frame tk _ _ (frameA2_dataHdr bssid ourMac _) pn _

end Ccmp
end NodeKernel
