import Mathlib.Data.List.Basic
import Mathlib.Data.Nat.Digits.Defs

/-!
# Text

The bytes of a string, and numbers of 64 bits as 16 hexadecimal digits.
-/
namespace NodeKernel

open Nat List

def utf8 (s : String) : List UInt8 := s.toByteArray.data.toList

lemma utf8_append (s t : String) : utf8 (s ++ t) = utf8 s ++ utf8 t := by
  unfold utf8
  simp

lemma fromUTF8_utf8 (s : String) : String.fromUTF8? (utf8 s).toByteArray = some s := by
  have hbytes : (utf8 s).toByteArray = s.toByteArray := by
    apply ByteArray.ext
    rw [data_toByteArray]
    exact Array.toArray_toList
  unfold String.fromUTF8?
  rw [hbytes, dif_pos s.isValidUTF8]
  rfl

def asciiBytes (l : List Char) : List UInt8 := l.map (fun c => UInt8.ofNat c.toNat)

lemma utf8_ofList_ascii {l : List Char} (h : ∀ c ∈ l, c.toNat < 128) : utf8 (String.ofList l) = asciiBytes l := by
  have hchar : ∀ c ∈ l, String.utf8EncodeChar c = [UInt8.ofNat c.toNat] := by
    intro c hc
    have hle : c.val.toNat ≤ 0x7f := le_of_lt_succ (h c hc)
    unfold String.utf8EncodeChar
    rw [if_pos hle]
    rfl
  have hbytes : utf8 (String.ofList l) = l.flatMap String.utf8EncodeChar := by
    simp [utf8, utf8Encode]
  rw [hbytes, flatMap_congr hchar]
  exact flatMap_pure_eq_map _ l

def hexDigits : ℕ → ℕ → List Char → List Char
  | 0, _, acc => acc
  | n + 1, v, acc => hexDigits n (v / 16) (Nat.digitChar (v % 16) :: acc)

def hex16 (v : UInt64) : String := String.ofList (hexDigits 16 v.toNat [])

lemma mem_hexDigits {n v : ℕ} {acc : List Char} {c : Char} (h : c ∈ hexDigits n v acc) :
    c ∈ acc ∨ ∃ d < 16, c = Nat.digitChar d := by
  induction n generalizing v acc with
  | zero => exact .inl h
  | succ n ih =>
    obtain hmem | hdigit := ih h
    · obtain rfl | hmem := mem_cons.mp hmem
      · exact .inr ⟨v % 16, mod_lt v (by decide), rfl⟩
      · exact .inl hmem
    · exact .inr hdigit

lemma hexDigits_inj {n v w : ℕ} {acc acc' : List Char} (hv : v < 16 ^ n) (hw : w < 16 ^ n)
    (h : hexDigits n v acc = hexDigits n w acc') : v = w ∧ acc = acc' := by
  have hchar : ∀ d < 16, ∀ e < 16, Nat.digitChar d = Nat.digitChar e → d = e := by decide
  induction n generalizing v w acc acc' with
  | zero => exact ⟨by omega, h⟩
  | succ n ih =>
    rw [Nat.pow_succ] at hv hw
    obtain ⟨hdiv, hcons⟩ := ih (Nat.div_lt_of_lt_mul (by omega)) (Nat.div_lt_of_lt_mul (by omega)) h
    obtain ⟨hlow, hacc⟩ := List.cons.inj hcons
    have hmod := hchar _ (mod_lt v (by decide)) _ (mod_lt w (by decide)) hlow
    exact ⟨by omega, hacc⟩

lemma hex16_injective : Function.Injective hex16 := by
  intro v w h
  have hlist := congrArg String.toList h
  unfold hex16 at hlist
  rw [String.toList_ofList, String.toList_ofList] at hlist
  exact UInt64.toNat_inj.mp (hexDigits_inj v.toNat_lt w.toNat_lt hlist).1

lemma colon_notMem_hex16 (v : UInt64) : ':' ∉ (hex16 v).toList := by
  unfold hex16
  rw [String.toList_ofList]
  intro hmem
  obtain ⟨d, hd, hc⟩ := (mem_hexDigits hmem).resolve_left not_mem_nil
  have hdigit : ∀ d < 16, ':' ≠ digitChar d := by decide
  exact hdigit d hd hc

lemma utf8_hex16 (v : UInt64) : utf8 (hex16 v) = asciiBytes (hexDigits 16 v.toNat []) := by
  refine utf8_ofList_ascii fun c hmem => ?_
  obtain ⟨d, hd, rfl⟩ := (mem_hexDigits hmem).resolve_left not_mem_nil
  have hascii : ∀ d < 16, (digitChar d).toNat < 128 := by decide
  exact hascii d hd

lemma utf8_toString (n : ℕ) : utf8 (toString n) = asciiBytes (Nat.toDigits 10 n) := by
  rw [toString_eq_ofList_toDigits]
  refine utf8_ofList_ascii fun c hmem => ?_
  have hdigit := isDigit_of_mem_toDigits (by decide) (by decide) hmem
  simp only [Char.isDigit, Bool.and_eq_true, decide_eq_true_eq] at hdigit
  have hle : c.val ≤ 57 := hdigit.2
  exact lt_of_le_of_lt (UInt32.le_iff_toNat_le.mp hle) (by decide)

end NodeKernel
