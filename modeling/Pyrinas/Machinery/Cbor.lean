import Mathlib.Algebra.Group.Int.Defs
import Mathlib.Algebra.Group.Nat.Defs
import Mathlib.Data.Int.Basic
import Mathlib.Data.List.Flatten
import Mathlib.Tactic.Common

/-!
# Machinery/Cbor — the CBOR data model, its shortest encoding, and reading it back

    item ::= head(major, argument) content

The head says what kind of item follows, and carries a number: the value, the number of bytes or the
number of children.  A number below 24 sits in the first byte; a larger one follows it in one, two,
four or eight bytes, most significant first, as few as it fits in.  `read` undoes `encode` whatever
stands behind the item.
-/

namespace Machinery

/-- A data item; `negative n` is the integer `-1 - n`, `simple 20` and `simple 21` are false and
true. -/
inductive Cbor
  | unsigned (n : ℕ)
  | negative (n : ℕ)
  | byteString (b : List UInt8)
  | text (b : List UInt8)
  | array (items : List Cbor)
  | map (entries : List (Cbor × Cbor))
  | tag (n : ℕ) (item : Cbor)
  | simple (n : ℕ)
  | float (low : ℕ) (bits : ℕ)

namespace Cbor

/-- An integer. -/
def int : ℤ → Cbor
  | .ofNat n => unsigned n
  | .negSucc n => negative n

/-- The integer an item is, behind its tags. -/
def asInteger : Cbor → Option ℤ
  | unsigned n => some n
  | negative n => some (.negSucc n)
  | tag _ item => item.asInteger
  | _ => none

/-- The items of the array an item is, behind its tags. -/
def asItems : Cbor → Option (List Cbor)
  | array items => some items
  | tag _ item => item.asItems
  | _ => none

/-- The entries of the map an item is, behind its tags. -/
def asEntries : Cbor → Option (List (Cbor × Cbor))
  | map entries => some entries
  | tag _ item => item.asEntries
  | _ => none

/-- An item is an integer, without tags. -/
def isInt (label : ℤ) : Cbor → Bool
  | unsigned n => (n : ℤ) = label
  | negative n => .negSucc n = label
  | _ => false

/-- The value under an integer. -/
def lookup (label : ℤ) (entries : List (Cbor × Cbor)) : Option Cbor :=
  (entries.find? fun e => e.1.isInt label).map Prod.snd

/-! ## Heads -/

/-- `n` in `w` bytes, most significant first. -/
def bigEndian : ℕ → ℕ → List UInt8
  | 0, _ => []
  | w + 1, n => bigEndian w (n / 256) ++ [UInt8.ofNat n]

/-- The number that bytes spell. -/
def ofBigEndian (b : List UInt8) : ℕ := b.foldl (fun acc b => acc * 256 + b.toNat) 0

@[simp] theorem length_bigEndian (w n : ℕ) : (bigEndian w n).length = w := by
  induction w generalizing n with
  | zero => rfl
  | succ w ih => simp [bigEndian, ih]

theorem ofBigEndian_bigEndian {w n : ℕ} (h : n < 256 ^ w) : ofBigEndian (bigEndian w n) = n := by
  induction w generalizing n with
  | zero => simp_all [bigEndian, ofBigEndian]
  | succ w ih =>
    have hdiv : n / 256 < 256 ^ w := by
      rw [Nat.pow_succ] at h
      omega
    have hrec := ih hdiv
    rw [ofBigEndian] at hrec ⊢
    rw [bigEndian, List.foldl_append, hrec, List.foldl_cons, List.foldl_nil, UInt8.toNat_ofNat']
    omega

/-- The first byte. -/
def initial (major low : ℕ) : UInt8 := UInt8.ofNat (major * 32 + low)

theorem toNat_initial {major low : ℕ} (hm : major < 8) (hl : low < 32) :
    (initial major low).toNat = major * 32 + low := by
  rw [initial, UInt8.toNat_ofNat']
  omega

/-- The head of an item, in the shortest form. -/
def head (major n : ℕ) : List UInt8 :=
  if n < 24 then [initial major n]
  else if n < 256 ^ 1 then initial major 24 :: bigEndian 1 n
  else if n < 256 ^ 2 then initial major 25 :: bigEndian 2 n
  else if n < 256 ^ 4 then initial major 26 :: bigEndian 4 n
  else initial major 27 :: bigEndian 8 n

/-- A small number takes one byte, another one of a byte two. -/
theorem length_head_of_lt {major n : ℕ} (h : n < 24) : (head major n).length = 1 := by
  simp [head, h]

theorem length_head_le_two {major n : ℕ} (h : n < 256) : (head major n).length ≤ 2 := by
  rw [head]
  split_ifs <;> simp_all

theorem length_head_pos (major n : ℕ) : 0 < (head major n).length := by
  rw [head]
  split_ifs <;> simp

/-- The number behind the first byte. -/
def argument (low : ℕ) (bytes : List UInt8) : Option (ℕ × List UInt8) :=
  if low < 24 then some (low, bytes)
  else if low ≤ 27 then
    let w := 2 ^ (low - 24)
    if w ≤ bytes.length then some (ofBigEndian (bytes.take w), bytes.drop w) else none
  else none

theorem argument_bigEndian (k : ℕ) {n : ℕ} (hk : k ≤ 3) (h : n < 256 ^ 2 ^ k) (rest : List UInt8) :
    argument (24 + k) (bigEndian (2 ^ k) n ++ rest) = some (n, rest) := by
  have hlen : (bigEndian (2 ^ k) n).length = 2 ^ k := length_bigEndian _ _
  have hle : 24 + k ≤ 27 := by omega
  simp only [argument, Nat.not_lt.mpr (Nat.le_add_right 24 k), if_false, hle, if_true,
    Nat.add_sub_cancel_left, List.length_append, hlen, Nat.le_add_right, List.take_left' hlen,
    List.drop_left' hlen, ofBigEndian_bigEndian h]

/-- The kind of item, the low bits of the first byte, and the number. -/
def readHead : List UInt8 → Option ((ℕ × ℕ × ℕ) × List UInt8)
  | [] => none
  | b :: bytes => do
    let (n, bytes) ← argument (b.toNat % 32) bytes
    some ((b.toNat / 32, b.toNat % 32, n), bytes)

theorem readHead_initial (major : ℕ) {low n : ℕ} {bytes rest : List UInt8} (hm : major < 8)
    (hl : low < 32) (h : argument low bytes = some (n, rest)) :
    readHead (initial major low :: bytes) = some ((major, low, n), rest) := by
  have hdiv : (major * 32 + low) / 32 = major := by omega
  have hmod : (major * 32 + low) % 32 = low := by omega
  simp only [readHead, toNat_initial hm hl, hdiv, hmod, h, Option.bind_eq_bind, Option.bind_some]

/-- **A head can be read back.** -/
theorem readHead_head (major : ℕ) {n : ℕ} (hm : major < 8) (hn : n < 2 ^ 64) (rest : List UInt8) :
    ∃ low, readHead (head major n ++ rest) = some ((major, low, n), rest) ∧
      (n < 256 → low ≤ 24) := by
  have hbytes : ∀ k, k ≤ 3 → n < 256 ^ 2 ^ k →
      readHead (initial major (24 + k) :: bigEndian (2 ^ k) n ++ rest)
        = some ((major, 24 + k, n), rest) := fun k hk h =>
    readHead_initial major hm (by omega) (argument_bigEndian k hk h rest)
  rw [head]
  split_ifs with h0 h1 h2 h4
  · have harg : argument n rest = some (n, rest) := if_pos h0
    exact ⟨n, readHead_initial major hm (by omega) harg, fun _ => Nat.le_of_lt h0⟩
  · exact ⟨24, hbytes 0 (by decide) h1, fun _ => Nat.le_refl 24⟩
  · exact ⟨25, hbytes 1 (by decide) h2, fun h => absurd h h1⟩
  · exact ⟨26, hbytes 2 (by decide) h4, fun h => absurd h h1⟩
  · exact ⟨27, hbytes 3 (by decide) hn, fun h => absurd h h1⟩

/-! ## Items -/

mutual

/-- The shortest encoding of an item. -/
def encode : Cbor → List UInt8
  | unsigned n => head 0 n
  | negative n => head 1 n
  | byteString b => head 2 b.length ++ b
  | text b => head 3 b.length ++ b
  | array items => head 4 items.length ++ encodeItems items
  | map entries => head 5 entries.length ++ encodeEntries entries
  | tag n item => head 6 n ++ encode item
  | simple n => head 7 n
  | float low bits => initial 7 low :: bigEndian (2 ^ (low - 24)) bits

/-- The items of an array, one after the other. -/
def encodeItems : List Cbor → List UInt8
  | [] => []
  | item :: items => encode item ++ encodeItems items

/-- The entries of a map, each key in front of its value. -/
def encodeEntries : List (Cbor × Cbor) → List UInt8
  | [] => []
  | (key, value) :: entries => encode key ++ (encode value ++ encodeEntries entries)

end

theorem encodeItems_eq (items : List Cbor) : encodeItems items = items.flatMap encode := by
  induction items with
  | nil => simp [encodeItems]
  | cons item items ih => simp [encodeItems, ih]

/-- An entry. -/
def encodeEntry (e : Cbor × Cbor) : List UInt8 := encode e.1 ++ encode e.2

theorem encodeEntries_eq (entries : List (Cbor × Cbor)) :
    encodeEntries entries = entries.flatMap encodeEntry := by
  induction entries with
  | nil => simp [encodeEntries]
  | cons e entries ih => simp [encodeEntries, encodeEntry, ih]

/-- The numbers fit their heads. -/
inductive Valid : Cbor → Prop
  | unsigned {n : ℕ} (h : n < 2 ^ 64) : Valid (unsigned n)
  | negative {n : ℕ} (h : n < 2 ^ 64) : Valid (negative n)
  | byteString {b : List UInt8} (h : b.length < 2 ^ 64) : Valid (byteString b)
  | text {b : List UInt8} (h : b.length < 2 ^ 64) : Valid (text b)
  | array {items : List Cbor} (h : items.length < 2 ^ 64) (hitems : ∀ item ∈ items, Valid item) :
    Valid (array items)
  | map {entries : List (Cbor × Cbor)} (h : entries.length < 2 ^ 64)
    (hkeys : ∀ e ∈ entries, Valid e.1) (hvalues : ∀ e ∈ entries, Valid e.2) : Valid (map entries)
  | tag {n : ℕ} {item : Cbor} (h : n < 2 ^ 64) (hitem : Valid item) : Valid (tag n item)
  | simple {n : ℕ} (h : n < 256) : Valid (simple n)
  | float {low bits : ℕ} (hlow : 25 ≤ low ∧ low ≤ 27) (h : bits < 256 ^ 2 ^ (low - 24)) :
    Valid (float low bits)

theorem valid_int {i : ℤ} (hlo : -2 ^ 64 ≤ i) (hhi : i < 2 ^ 64) : Valid (int i) := by
  cases i with
  | ofNat n => exact .unsigned (Int.ofNat_lt.mp hhi)
  | negSucc n => exact .negative (by omega)

/-- A small integer takes at most two bytes. -/
theorem length_encode_int_le_two {i : ℤ} (hlo : -256 ≤ i) (hhi : i < 256) :
    (encode (int i)).length ≤ 2 := by
  cases i with
  | ofNat n =>
    rw [int, encode]
    exact length_head_le_two (Int.ofNat_lt.mp hhi)
  | negSucc n =>
    rw [int, encode]
    exact length_head_le_two (by omega)

/-- Read `n` things in a row. -/
def readMany {α : Type*} (read : List UInt8 → Option (α × List UInt8)) :
    ℕ → List UInt8 → Option (List α × List UInt8)
  | 0, bytes => some ([], bytes)
  | n + 1, bytes => do
    let (a, bytes) ← read bytes
    let (as, bytes) ← readMany read n bytes
    some (a :: as, bytes)

/-- A key and its value. -/
def readEntry (read : List UInt8 → Option (Cbor × List UInt8)) (bytes : List UInt8) :
    Option ((Cbor × Cbor) × List UInt8) := do
  let (key, bytes) ← read bytes
  let (value, bytes) ← read bytes
  some ((key, value), bytes)

/-- One item, nested at most as deep as the fuel. -/
def read : ℕ → List UInt8 → Option (Cbor × List UInt8)
  | 0, _ => none
  | fuel + 1, bytes => do
    let ((major, low, n), bytes) ← readHead bytes
    match major with
    | 0 => some (unsigned n, bytes)
    | 1 => some (negative n, bytes)
    | 2 => if n ≤ bytes.length then some (byteString (bytes.take n), bytes.drop n) else none
    | 3 => if n ≤ bytes.length then some (text (bytes.take n), bytes.drop n) else none
    | 4 =>
      let (items, bytes) ← readMany (read fuel) n bytes
      some (array items, bytes)
    | 5 =>
      let (entries, bytes) ← readMany (readEntry (read fuel)) n bytes
      some (map entries, bytes)
    | 6 =>
      let (item, bytes) ← read fuel bytes
      some (tag n item, bytes)
    | _ => if low ≤ 24 then some (simple n, bytes) else some (float low n, bytes)

/-- The item at the front of bytes. -/
def decode (bytes : List UInt8) : Option (Cbor × List UInt8) := read bytes.length bytes

/-! ## Reading back -/

/-- What reads one thing back reads a row of them back. -/
theorem readMany_flatMap {α : Type*} {read : List UInt8 → Option (α × List UInt8)}
    {enc : α → List UInt8} {as : List α}
    (h : ∀ a ∈ as, ∀ rest, read (enc a ++ rest) = some (a, rest)) (rest : List UInt8) :
    readMany read as.length (as.flatMap enc ++ rest) = some (as, rest) := by
  induction as with
  | nil => rfl
  | cons a as ih =>
    have hfirst := h a List.mem_cons_self
    have htail := ih fun b hb => h b (List.mem_cons_of_mem a hb)
    simp only [List.length_cons, readMany, List.flatMap_cons, List.append_assoc, hfirst, htail,
      Option.bind_eq_bind, Option.bind_some]

/-- A part of a row is not longer than the row. -/
theorem length_le_flatMap {α : Type*} {enc : α → List UInt8} {a : α} {as : List α} (ha : a ∈ as) :
    (enc a).length ≤ (as.flatMap enc).length := by
  induction as with
  | nil => simp at ha
  | cons b as ih =>
    rw [List.flatMap_cons, List.length_append]
    rcases List.mem_cons.mp ha with rfl | ha
    · omega
    · have := ih ha
      omega

/-- Fuel for a head and for what follows it. -/
theorem exists_fuel {major n : ℕ} {l : List UInt8} {fuel : ℕ}
    (h : (head major n ++ l).length ≤ fuel) : ∃ fuel', fuel = fuel' + 1 ∧ l.length ≤ fuel' := by
  have hpos := length_head_pos major n
  rw [List.length_append] at h
  exact ⟨fuel - 1, by omega, by omega⟩

/-- **An item can be read back**, with fuel for as many levels as it has bytes. -/
theorem read_encode {item : Cbor} (h : Valid item) {fuel : ℕ} (hfuel : (encode item).length ≤ fuel)
    (rest : List UInt8) : read fuel (encode item ++ rest) = some (item, rest) := by
  induction h generalizing fuel rest with
  | @unsigned n h =>
    rw [encode, ← List.append_nil (head 0 n)] at hfuel
    obtain ⟨fuel, rfl, -⟩ := exists_fuel hfuel
    obtain ⟨low, hhead, -⟩ := readHead_head 0 (by decide) h rest
    simp only [read, encode, hhead, Option.bind_eq_bind, Option.bind_some]
  | @negative n h =>
    rw [encode, ← List.append_nil (head 1 n)] at hfuel
    obtain ⟨fuel, rfl, -⟩ := exists_fuel hfuel
    obtain ⟨low, hhead, -⟩ := readHead_head 1 (by decide) h rest
    simp only [read, encode, hhead, Option.bind_eq_bind, Option.bind_some]
  | @byteString b h =>
    rw [encode] at hfuel
    obtain ⟨fuel, rfl, -⟩ := exists_fuel hfuel
    obtain ⟨low, hhead, -⟩ := readHead_head 2 (by decide) h (b ++ rest)
    simp only [read, encode, List.append_assoc, hhead, Option.bind_eq_bind, Option.bind_some,
      List.length_append, Nat.le_add_right, if_true, List.take_left, List.drop_left]
  | @text b h =>
    rw [encode] at hfuel
    obtain ⟨fuel, rfl, -⟩ := exists_fuel hfuel
    obtain ⟨low, hhead, -⟩ := readHead_head 3 (by decide) h (b ++ rest)
    simp only [read, encode, List.append_assoc, hhead, Option.bind_eq_bind, Option.bind_some,
      List.length_append, Nat.le_add_right, if_true, List.take_left, List.drop_left]
  | @array items h _ ih =>
    rw [encode, encodeItems_eq] at hfuel ⊢
    obtain ⟨fuel, rfl, hchildren⟩ := exists_fuel hfuel
    obtain ⟨low, hhead, -⟩ := readHead_head 4 (by decide) h
      (items.flatMap encode ++ rest)
    have hitem : ∀ item ∈ items, ∀ rest, read fuel (encode item ++ rest) = some (item, rest) :=
      fun item hmem => ih item hmem (Nat.le_trans (length_le_flatMap hmem) hchildren)
    have hitems := readMany_flatMap hitem rest
    simp only [read, List.append_assoc, hhead, hitems, Option.bind_eq_bind, Option.bind_some]
  | @map entries h _ _ ihkey ihvalue =>
    rw [encode, encodeEntries_eq] at hfuel ⊢
    obtain ⟨fuel, rfl, hchildren⟩ := exists_fuel hfuel
    obtain ⟨low, hhead, -⟩ := readHead_head 5 (by decide) h
      (entries.flatMap encodeEntry ++ rest)
    have hentry : ∀ e ∈ entries, ∀ rest,
        readEntry (read fuel) (encodeEntry e ++ rest) = some (e, rest) := by
      intro e he rest
      have hlen := Nat.le_trans (length_le_flatMap he) hchildren
      rw [encodeEntry, List.length_append] at hlen
      simp only [readEntry, encodeEntry, List.append_assoc, ihkey e he (by omega : _ ≤ fuel),
        ihvalue e he (by omega : _ ≤ fuel), Option.bind_eq_bind, Option.bind_some]
    have hentries := readMany_flatMap hentry rest
    simp only [read, List.append_assoc, hhead, hentries, Option.bind_eq_bind, Option.bind_some]
  | @tag n item h _ ih =>
    rw [encode] at hfuel
    obtain ⟨fuel, rfl, hchild⟩ := exists_fuel hfuel
    obtain ⟨low, hhead, -⟩ := readHead_head 6 (by decide) h (encode item ++ rest)
    simp only [read, encode, List.append_assoc, hhead, ih hchild, Option.bind_eq_bind,
      Option.bind_some]
  | @simple n h =>
    rw [encode, ← List.append_nil (head 7 n)] at hfuel
    obtain ⟨fuel, rfl, -⟩ := exists_fuel hfuel
    have hn : n < 2 ^ 64 := by omega
    obtain ⟨low, hhead, hlow⟩ := readHead_head 7 (by decide) hn rest
    simp only [read, encode, hhead, Option.bind_eq_bind, Option.bind_some, hlow h, if_true]
  | @float low bits hlow h =>
    rw [encode, List.length_cons] at hfuel
    obtain ⟨fuel, rfl⟩ : ∃ fuel', fuel = fuel' + 1 := ⟨fuel - 1, by omega⟩
    have harg := argument_bigEndian (low - 24) (by omega) h rest
    rw [Nat.add_sub_cancel' (by omega : 24 ≤ low)] at harg
    have hhead := readHead_initial 7 (by decide) (by omega) harg
    have hnot : ¬ low ≤ 24 := by omega
    simp only [read, encode, List.cons_append, hhead, Option.bind_eq_bind, Option.bind_some, hnot,
      if_false]

/-- **Reading undoes encoding.** -/
theorem decode_encode {item : Cbor} (h : Valid item) (rest : List UInt8) :
    decode (encode item ++ rest) = some (item, rest) :=
  read_encode h (by simp) rest

end Cbor

end Machinery
