import NodeKernel.Net.Stack

/-!
# The options of a DHCP message

What `parse_dhcp_options` finds in an option area that is laid out as the protocol says: pads, options with a
length byte, an end option, and any bytes behind it.
-/
namespace NodeKernel

open Checked List Nat

/-- A pad byte, or an option with a code of its own and a value whose length fits in a byte. -/
inductive DhcpItem
  | pad
  | option (code : UInt8) (value : List UInt8) (hcode : code ≠ 0 ∧ code ≠ 255) (hlen : value.length < 256)

namespace DhcpItem

def bytes : DhcpItem → List UInt8
  | pad => [0]
  | option code value _ _ => code :: UInt8.ofNat value.length :: value

def valueOf (code : UInt8) (n : ℕ) : DhcpItem → Option (List UInt8)
  | pad => none
  | option c value _ _ => if c = code ∧ n ≤ value.length then some value else none

end DhcpItem

def lastValue (items : List DhcpItem) (code : UInt8) (n : ℕ) : Option (List UInt8) :=
  (items.filterMap (DhcpItem.valueOf code n)).getLast?

def fourAt (l : List UInt8) (i : ℕ) : Ip4 := (l.getD i 0, l.getD (i + 1) 0, l.getD (i + 2) 0, l.getD (i + 3) 0)

/-- The leading bytes of the last long enough occurrence of each option, or the default. -/
def optionsOf (items : List DhcpItem) : DhcpOptions where
  subnet := (lastValue items 1 4).elim (255, 255, 255, 0) (fourAt · 0)
  gateway := (lastValue items 3 4).elim (0, 0, 0, 0) (fourAt · 0)
  dns := (lastValue items 6 4).elim (0, 0, 0, 0) (fourAt · 0)
  lease := (lastValue items 51 4).elim 86400 (fun value => UInt32.ofNat (ofBe (value.take 4)))
  msgType := (lastValue items 53 1).elim 0 (·.getD 0 0)

variable {items : List DhcpItem} {data rest : List UInt8}

lemma lastValue_snoc (items : List DhcpItem) (item : DhcpItem) (code : UInt8) (n : ℕ) :
    lastValue (items ++ [item]) code n = (item.valueOf code n).or (lastValue items code n) := by
  rw [lastValue, filterMap_append, getLast?_append]
  cases h : item.valueOf code n with
  | none => simp [h, lastValue]
  | some value => simp [h]

lemma ip4At_eq {l : List UInt8} {i : ℕ} (h : i + 4 ≤ l.length) : ip4At l i = .ok (fourAt l i) := by
  rw [ip4At, index_getD (by omega), index_getD (by omega), index_getD (by omega), index_getD (by omega)]
  rfl

lemma fourBytes_eq (value : List UInt8) (o : DhcpOptions) (put : Ip4 → DhcpOptions) :
    fourBytes value o put = .ok (if 4 ≤ value.length then put (fourAt value 0) else o) := by
  unfold fourBytes
  split
  next h => rw [if_neg (by omega)]; rfl
  next h => rw [if_pos (by omega), ip4At_eq (by omega)]; rfl

lemma ipBytes_fourAt {value : List UInt8} (h : 4 ≤ value.length) : ipBytes (fourAt value 0) = value.take 4 := by
  match value with
  | a :: b :: c :: d :: _ => rfl

lemma dhcpOption_eq (items : List DhcpItem) (code : UInt8) (value : List UInt8) (hcode : code ≠ 0 ∧ code ≠ 255)
    (hlen : value.length < 256) : dhcpOption (optionsOf items) code value =
      .ok (optionsOf (items ++ [.option code value hcode hlen])) := by
  simp only [optionsOf, lastValue_snoc, DhcpItem.valueOf, dhcpOption, fourBytes_eq]
  by_cases h53 : code = 53
  · subst h53
    cases value with
    | nil => rfl
    | cons a value => simp [index, ok_bind, pure, Except.pure]
  by_cases hfour : 4 ≤ value.length
  · have hbytes := ipBytes_fourAt hfour
    split_ifs <;> simp_all [pure, Except.pure]
  · simp [h53, hfour, pure, Except.pure]

lemma index_front (front : List UInt8) (a : UInt8) (rest : List UInt8) : index (front ++ a :: rest) front.length = .ok a := by
  simp [index]

lemma dhcpLoop_item (item : DhcpItem) (done : List DhcpItem) {front : List UInt8} (fuel : ℕ)
    (hdata : data = front ++ (item.bytes ++ rest)) (hlen : data.length < 2 ^ 63) :
    dhcpLoop data (fuel + 1) front.length (optionsOf done) =
      dhcpLoop data fuel (front ++ item.bytes).length (optionsOf (done ++ [item])) := by
  have hlength := congrArg length hdata
  rw [length_append, length_append] at hlength
  rw [dhcpLoop]
  cases item with
  | pad =>
    have hnext : optionsOf (done ++ [.pad]) = optionsOf done := by simp [optionsOf, lastValue_snoc, DhcpItem.valueOf]
    have hindex : index data front.length = .ok 0 := hdata ▸ index_front front 0 rest
    rw [DhcpItem.bytes, length_singleton] at hlength
    rw [if_neg (by omega), hindex, hnext, DhcpItem.bytes, length_append, ok_bind, add_of_lt (by omega)]
    rfl
  | option code value hcode hvalue =>
    have hindex : index data front.length = .ok code := hdata ▸ index_front front code _
    have hcount : index data (front.length + 1) = .ok (UInt8.ofNat value.length) := by
      rw [hdata]
      simp [index, DhcpItem.bytes]
    have hsize : (UInt8.ofNat value.length).toNat = value.length := by
      rw [UInt8.toNat_ofNat']
      omega
    have hslice : (data.take (front.length + 2 + value.length)).drop (front.length + 2) = value := by
      rw [hdata]
      simp [DhcpItem.bytes, drop_take]
    rw [DhcpItem.bytes, length_cons, length_cons] at hlength
    rw [if_neg (by omega), hindex, ok_bind, if_neg hcode.2, add_of_lt (by omega), ok_bind, if_neg hcode.1, if_neg (by omega),
      hcount, ok_bind, hsize, add_of_lt (by omega), ok_bind, add_of_lt (by omega), ok_bind, slice_of_le (by omega) (by omega),
      ok_bind, min_eq_left (by omega), hslice, dhcpOption_eq, ok_bind, add_of_lt (by omega), ok_bind, DhcpItem.bytes,
      length_append, length_cons, length_cons, add_comm 2]

lemma dhcpLoop_items (items done : List DhcpItem) {front rest : List UInt8} {fuel : ℕ}
    (hdata : data = front ++ (items.flatMap DhcpItem.bytes ++ 255 :: rest)) (hlen : data.length < 2 ^ 63)
    (hfuel : (items.flatMap DhcpItem.bytes).length < fuel) :
    dhcpLoop data fuel front.length (optionsOf done) = .ok (optionsOf (done ++ items)) := by
  induction items generalizing front done fuel with
  | nil =>
    obtain ⟨fuel, rfl⟩ := exists_eq_succ_of_ne_zero (ne_of_gt hfuel)
    have hin : ¬ data.length ≤ front.length := by simp [hdata]
    rw [dhcpLoop, if_neg hin, hdata, flatMap_nil, nil_append, index_front, append_nil]
    rfl
  | cons item items ih =>
    obtain ⟨fuel, rfl⟩ := exists_eq_succ_of_ne_zero (ne_of_gt (zero_lt_of_lt hfuel))
    have hbytes : 0 < item.bytes.length := by cases item <;> simp [DhcpItem.bytes]
    rw [flatMap_cons, length_append] at hfuel
    rw [flatMap_cons, append_assoc] at hdata
    rw [succ_eq_add_one, dhcpLoop_item item done fuel hdata hlen, append_cons done item items]
    exact ih _ (by rw [hdata, append_assoc]) (by omega)

/-- The fields in front of the cookie, the items of the option area and what follows the end option. -/
structure DhcpMessage where
  header : List UInt8
  items : List DhcpItem
  trailing : List UInt8
  header_length : header.length = 236
  fits : (header ++ magicCookie ++ (items.flatMap DhcpItem.bytes ++ 255 :: trailing)).length < 2 ^ 63

def DhcpMessage.bytes (m : DhcpMessage) : ByteSlice := ⟨_, m.fits⟩

/-- A message gives the options that it holds, and nothing unless it is an OFFER or an ACK. -/
theorem parseDhcpOptions_bytes (m : DhcpMessage) : parseDhcpOptions m.bytes =
    .ok (if (optionsOf m.items).msgType = dhcpOffer ∨ (optionsOf m.items).msgType = dhcpAck then
      some ⟨fourAt m.header 16, fourAt m.header 20, (optionsOf m.items).subnet, (optionsOf m.items).gateway,
        (optionsOf m.items).dns, (optionsOf m.items).lease⟩ else none) := by
  obtain ⟨header, items, trailing, hheader, hfits⟩ := m
  simp only [DhcpMessage.bytes]
  generalize hdata : header ++ magicCookie ++ (items.flatMap DhcpItem.bytes ++ 255 :: trailing) = data at hfits ⊢
  have hfront : (header ++ magicCookie).length = 240 := by rw [length_append, hheader]; rfl
  have hlength := congrArg length hdata
  rw [length_append, hfront] at hlength
  have hcookie : (data.take 240).drop 236 = magicCookie := by
    rw [← hdata, ← hfront, take_left', ← hheader, drop_left]
    rfl
  have hfour : ∀ i ≤ 232, fourAt data i = fourAt header i := by
    intro i hi
    rw [← hdata, append_assoc]
    simp only [fourAt, getD_eq_getElem?_getD]
    rw [getElem?_append_left (by omega), getElem?_append_left (by omega), getElem?_append_left (by omega),
      getElem?_append_left (by omega)]
  have hloop : dhcpLoop data (data.length + 1) 240 {} = .ok (optionsOf items) := by
    rw [← hfront]
    exact dhcpLoop_items items [] hdata.symm hfits (by rw [← hdata]; simp; omega)
  rw [parseDhcpOptions, if_neg (by omega), slice_of_le (by omega) (by omega), ok_bind, hcookie, if_neg (not_not_intro rfl),
    ip4At_eq (by omega), ok_bind, ip4At_eq (by omega), ok_bind, hfour 16 (by omega), hfour 20 (by omega)]
  rw [hloop, ok_bind]
  split_ifs <;> rfl

end NodeKernel
