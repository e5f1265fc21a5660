import Mathlib.Algebra.Group.Nat.Defs
import Mathlib.Data.List.TakeDrop
import Mathlib.Data.Nat.Basic
import Pyrinas.Machinery.Area
import Pyrinas.Machinery.CString

/-!
# Machinery/Format — numbers as text, and text that is cut to a buffer

`numeral` is what `%d` prints of a natural number.  A numeral ends where the first other character
stands, so a text of numerals and separators can be read back.  `snprintf` puts as much of a text
into a buffer as leaves room for the terminator.
-/

namespace Machinery

/-! ## Decimal numerals -/

/-- `'0'` to `'9'`. -/
def isDigit (b : UInt8) : Bool := 48 ≤ b.toNat ∧ b.toNat ≤ 57

/-- `%d` -/
def numeral (n : ℕ) : List UInt8 := (Nat.toDigits 10 n).map fun c => UInt8.ofNat c.toNat

/-- A digit is one byte. -/
theorem toNat_ofNat_of_isDigit {c : Char} (h : c.isDigit) :
    (UInt8.ofNat c.toNat).toNat = c.toNat ∧ 48 ≤ c.toNat ∧ c.toNat ≤ 57 := by
  simp only [Char.isDigit, Bool.and_eq_true, decide_eq_true_eq, UInt32.le_iff_toNat_le] at h
  have hlo : 48 ≤ c.toNat := h.1
  have hhi : c.toNat ≤ 57 := h.2
  refine ⟨?_, hlo, hhi⟩
  rw [UInt8.toNat_ofNat']
  omega

theorem isDigit_of_mem_numeral {n : ℕ} {b : UInt8} (h : b ∈ numeral n) : isDigit b := by
  obtain ⟨c, hc, rfl⟩ := List.mem_map.mp h
  have hdigit := Nat.isDigit_of_mem_toDigits (by decide) (by decide) hc
  obtain ⟨hval, hlo, hhi⟩ := toNat_ofNat_of_isDigit hdigit
  simp [isDigit, hval, hlo, hhi]

theorem numeral_injective : Function.Injective numeral := by
  intro m n h
  have hback : ∀ k, (numeral k).map (fun b => Char.ofNat b.toNat) = Nat.toDigits 10 k := by
    intro k
    rw [numeral, List.map_map, List.map_congr_left, List.map_id]
    intro c hc
    have hdigit := Nat.isDigit_of_mem_toDigits (by decide) (by decide) hc
    simp [(toNat_ofNat_of_isDigit hdigit).1]
  rw [← Nat.ofDigitChars_ten_toDigits (n := m), ← Nat.ofDigitChars_ten_toDigits (n := n),
    ← hback, ← hback, h]

theorem length_numeral_le_iff {n k : ℕ} (hk : 0 < k) : (numeral n).length ≤ k ↔ n < 10 ^ k := by
  rw [numeral, List.length_map]
  exact Nat.length_toDigits_le_iff (by decide) hk

/-- **A numeral ends at the first other character.** -/
theorem takeWhile_numeral_append {n : ℕ} {b : UInt8} (hb : isDigit b = false) (s : List UInt8) :
    (numeral n ++ b :: s).takeWhile isDigit = numeral n := by
  rw [List.takeWhile_append_of_pos fun a ha => isDigit_of_mem_numeral ha,
    List.takeWhile_cons_of_neg (by simp [hb]), List.append_nil]

/-- …so it can be read back. -/
theorem numeral_append_inj {m n : ℕ} {b c : UInt8} (hb : isDigit b = false)
    (hc : isDigit c = false) {s t : List UInt8} (h : numeral m ++ b :: s = numeral n ++ c :: t) :
    m = n ∧ s = t := by
  have hmn : numeral m = numeral n := by
    rw [← takeWhile_numeral_append hb s, h, takeWhile_numeral_append hc t]
  rw [hmn, List.append_cancel_left_eq] at h
  exact ⟨numeral_injective hmn, (List.cons.inj h).2⟩

/-! ## Hexadecimal numerals -/

/-- `'0'` to `'9'` and `'a'` to `'f'`. -/
def hexDigit (n : ℕ) : UInt8 := UInt8.ofNat (if n < 10 then 48 + n else 87 + n)

/-- `%02x` of a byte. -/
def hexByte (b : UInt8) : List UInt8 := [hexDigit (b.toNat / 16), hexDigit (b.toNat % 16)]

/-- A digit is its number, read back. -/
theorem toNat_hexDigit {n : ℕ} (h : n < 16) :
    (hexDigit n).toNat = if n < 10 then 48 + n else 87 + n := by
  rw [hexDigit, UInt8.toNat_ofNat', Nat.mod_eq_of_lt]
  split_ifs <;> omega

theorem hexByte_injective : Function.Injective hexByte := by
  intro a b h
  obtain ⟨hhigh, hlow⟩ := List.cons.inj h
  have hhigh := congrArg UInt8.toNat hhigh
  have hlow := congrArg UInt8.toNat (List.cons.inj hlow).1
  have ha := a.toNat_lt
  have hb := b.toNat_lt
  rw [toNat_hexDigit (by omega), toNat_hexDigit (by omega)] at hhigh hlow
  refine UInt8.toNat_inj.mp ?_
  split_ifs at hhigh hlow <;> omega

/-- Bytes printed one behind the other can be read back. -/
theorem flatMap_hexByte_injective : Function.Injective (List.flatMap hexByte) := by
  intro as bs h
  induction as generalizing bs with
  | nil =>
    cases bs with
    | nil => rfl
    | cons b bs => exact absurd h.symm (List.cons_ne_nil _ _)
  | cons a as ih =>
    cases bs with
    | nil => exact absurd h (List.cons_ne_nil _ _)
    | cons b bs =>
      rw [List.flatMap_cons, List.flatMap_cons] at h
      obtain ⟨hab, hrest⟩ := List.append_inj h rfl
      rw [hexByte_injective hab, ih hrest]

/-- They are two characters each… -/
theorem length_flatMap_hexByte (bs : List UInt8) : (bs.flatMap hexByte).length = 2 * bs.length := by
  induction bs with
  | nil => rfl
  | cons b bs ih =>
    rw [List.flatMap_cons, List.length_append, ih, List.length_cons]
    change 2 + _ = _
    omega

/-- …and all of them are above `/`. -/
theorem lt_of_mem_flatMap_hexByte {bs : List UInt8} {c : UInt8} (h : c ∈ bs.flatMap hexByte) :
    47 < c.toNat := by
  obtain ⟨b, -, hc⟩ := List.mem_flatMap.mp h
  have hb := b.toNat_lt
  have hdigit : ∀ n, n < 16 → 47 < (hexDigit n).toNat := by
    intro n hn
    rw [toNat_hexDigit hn]
    split_ifs <;> omega
  rcases List.mem_cons.mp hc with rfl | hc
  · exact hdigit _ (by omega)
  · rw [List.mem_singleton.mp hc]
    exact hdigit _ (by omega)

/-! ## Separators -/

/-- **A text ends at the first separator.** -/
theorem append_sep_inj {α : Type*} {sep : α} {l l' t t' : List α} (h : sep ∉ l) (h' : sep ∉ l')
    (heq : l ++ sep :: t = l' ++ sep :: t') : l = l' ∧ t = t' := by
  induction l generalizing l' with
  | nil =>
    cases l' with
    | nil => exact ⟨rfl, (List.cons.inj heq).2⟩
    | cons b l' =>
      obtain ⟨rfl, -⟩ := List.cons.inj heq
      exact absurd List.mem_cons_self h'
  | cons a l ih =>
    cases l' with
    | nil =>
      obtain ⟨rfl, -⟩ := List.cons.inj heq
      exact absurd List.mem_cons_self h
    | cons b l' =>
      obtain ⟨rfl, hrest⟩ := List.cons.inj heq
      obtain ⟨rfl, rfl⟩ := ih (fun hm => h (List.mem_cons_of_mem a hm))
        (fun hm => h' (List.mem_cons_of_mem a hm)) hrest
      exact ⟨rfl, rfl⟩

/-! ## Cutting to a buffer -/

variable {n : ℕ}

/-- `snprintf`: the text, cut to leave room for a terminator; what lies behind stays. -/
def Area.snprintf (a : Area UInt8 n) (text : List UInt8) : Area UInt8 n :=
  if h : 0 < n then
    ⟨text.take (n - 1) ++ 0 :: a.cells.drop ((text.take (n - 1)).length + 1), by
      simp only [List.length_append, List.length_cons, List.length_drop, Area.length_cells,
        List.length_take]
      omega⟩
  else a

theorem zero_mem_snprintf (a : Area UInt8 n) (text : List UInt8) (hn : 0 < n) :
    0 ∈ (a.snprintf text).cells := by
  simp [Area.snprintf, hn]

/-- **The string in the buffer** is the text as far as it fits, if it has no terminator itself. -/
theorem ofBytes_snprintf (a : Area UInt8 n) {text : List UInt8} (hn : 0 < n) (h : 0 ∉ text)
    (rest : List UInt8) :
    (CString.ofBytes ((a.snprintf text).cells ++ rest)).bytes = text.take (n - 1) := by
  have hcut : 0 ∉ text.take (n - 1) := fun h0 => h (List.mem_of_mem_take h0)
  rw [Area.snprintf, dif_pos hn, List.append_assoc, List.cons_append,
    CString.bytes_ofBytes_append hcut]

end Machinery
