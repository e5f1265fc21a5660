import Mathlib.Data.List.TakeWhile
import Mathlib.Tactic.Common

/-!
# Machinery/CString — strings that end at a zero byte

A C string is a list of bytes without zero.  Memory *spells* it if its bytes lie there one after the
other with a zero behind them, which is what `strcmp` finds out, whatever lies further back; what
`strncmp` finds out is less, as it stops after a number of bytes.
-/

namespace Machinery

/-- The bytes in front of the terminator. -/
structure CString where
  bytes : List UInt8
  noNul : 0 ∉ bytes
  deriving DecidableEq

namespace CString

/-- `strlen` -/
def length (s : CString) : ℕ := s.bytes.length

theorem ext_bytes {s t : CString} (h : s.bytes = t.bytes) : s = t := by
  cases s; cases t; simpa using h

/-- Bytes without the ones from the first zero on. -/
def ofBytes (l : List UInt8) : CString where
  bytes := l.takeWhile (· ≠ 0)
  noNul := fun h => by simpa using List.mem_takeWhile_imp h

/-- Bytes other than zero belong to the string… -/
theorem bytes_ofBytes_of_noNul {l : List UInt8} (h : 0 ∉ l) (rest : List UInt8) :
    (ofBytes (l ++ rest)).bytes = l ++ (ofBytes rest).bytes := by
  have hpos : ∀ b ∈ l, decide (b ≠ 0) = true := by
    intro b hb
    have hne : b ≠ 0 := fun h0 => h (h0 ▸ hb)
    simpa using hne
  exact List.takeWhile_append_of_pos hpos

/-- …and the terminator ends it. -/
theorem bytes_ofBytes_append {l : List UInt8} (h : 0 ∉ l) (rest : List UInt8) :
    (ofBytes (l ++ 0 :: rest)).bytes = l := by
  have hnil : (ofBytes (0 :: rest)).bytes = [] := by simp [ofBytes]
  rw [bytes_ofBytes_of_noNul h, hnil, List.append_nil]

/-- A terminator leaves the string shorter than the bytes… -/
theorem length_ofBytes_lt {l : List UInt8} (h : 0 ∈ l) : (ofBytes l).length < l.length := by
  have hfront : (ofBytes l).bytes <+: l := List.takeWhile_prefix _
  refine lt_of_le_of_ne hfront.length_le fun heq => ?_
  have hmem : 0 ∈ (ofBytes l).bytes := by rwa [hfront.eq_of_length heq]
  exact (ofBytes l).noNul hmem

/-- …and what lies behind it is not looked at. -/
theorem ofBytes_append {l : List UInt8} (h : 0 ∈ l) (rest : List UInt8) :
    ofBytes (l ++ rest) = ofBytes l := by
  have hne : ¬ (l.takeWhile fun b => decide (b ≠ 0)).length = l.length :=
    (length_ofBytes_lt h).ne
  refine ext_bytes ?_
  change (l ++ rest).takeWhile _ = l.takeWhile _
  rw [List.takeWhile_append, if_neg hne]

/-- A string and its terminator are that string. -/
theorem ofBytes_terminated (s : CString) : ofBytes (s.bytes ++ [0]) = s :=
  ext_bytes (bytes_ofBytes_append s.noNul [])

/-- **Memory that begins with a string holds that string iff the terminator follows.** -/
theorem ofBytes_eq_iff {s : CString} {l : List UInt8} (h : s.bytes <+: l) :
    (0 ∈ l ∧ ofBytes l = s) ↔ l[s.length]? = some 0 := by
  obtain ⟨rest, rfl⟩ := h
  rw [length, List.getElem?_append_right (Nat.le_refl _), Nat.sub_self]
  cases rest with
  | nil =>
    rw [List.append_nil]
    exact ⟨fun h => absurd h.1 s.noNul, fun h => absurd h (by simp)⟩
  | cons b rest =>
    rw [List.getElem?_cons_zero, Option.some.injEq]
    constructor
    · rintro ⟨-, h⟩
      by_contra hb
      have hbytes := congrArg bytes h
      have hfirst : (ofBytes (b :: rest)).bytes = b :: (ofBytes rest).bytes := by
        simp [ofBytes, hb]
      rw [bytes_ofBytes_of_noNul s.noNul, hfirst] at hbytes
      exact absurd hbytes (by simp)
    · rintro rfl
      exact ⟨by simp, ext_bytes (bytes_ofBytes_append s.noNul rest)⟩

/-- Bytes hold a string iff it lies at their front with a terminator. -/
theorem ofBytes_eq_iff_prefix {s : CString} {l : List UInt8} :
    (0 ∈ l ∧ ofBytes l = s) ↔ s.bytes ++ [0] <+: l := by
  constructor
  · rintro ⟨hmem, rfl⟩
    have hfront : (ofBytes l).bytes <+: l := List.takeWhile_prefix _
    have hzero := (ofBytes_eq_iff hfront).mp ⟨hmem, rfl⟩
    obtain ⟨rest, hl⟩ := hfront
    generalize ofBytes l = s at hl hzero
    subst hl
    rw [length, List.getElem?_append_right (Nat.le_refl _), Nat.sub_self] at hzero
    obtain ⟨behind, rfl⟩ : ∃ behind, rest = 0 :: behind := by
      cases rest with
      | nil => exact absurd hzero (by simp)
      | cons b behind => exact ⟨behind, congrArg (· :: behind) (Option.some.inj hzero)⟩
    exact ⟨behind, by simp⟩
  · rintro ⟨behind, rfl⟩
    have hmem : 0 ∈ s.bytes ++ [0] := by simp
    exact ⟨List.mem_append_left _ hmem, (ofBytes_append hmem behind).trans (ofBytes_terminated s)⟩

/-- A literal. -/
def ofString (s : String) : CString := ofBytes (s.toList.map fun c => UInt8.ofNat c.toNat)

end CString

/-- `strcmp(m, s) == 0` -/
def Spells (m : ℕ → UInt8) : List UInt8 → Prop
  | [] => m 0 = 0
  | b :: s => m 0 = b ∧ Spells (fun i => m (i + 1)) s

instance decidableSpells : ∀ (m : ℕ → UInt8) (s : List UInt8), Decidable (Spells m s)
  | m, [] => inferInstanceAs (Decidable (m 0 = 0))
  | m, _ :: s => @instDecidableAnd _ _ inferInstance (decidableSpells (fun i => m (i + 1)) s)

/-- `strncmp(m, s, n) == 0`, with zeros behind what is given of either. -/
def sameUpTo : ℕ → List UInt8 → List UInt8 → Bool
  | 0, _, _ => true
  | n + 1, m, s => m.headD 0 = s.headD 0 && (m.headD 0 = 0 || sameUpTo n m.tail s.tail)

theorem sameUpTo_cons {n : ℕ} {b c : UInt8} {m s : List UInt8} (hb : b ≠ 0) :
    sameUpTo (n + 1) (b :: m) (c :: s) ↔ b = c ∧ sameUpTo n m s := by
  simp [sameUpTo, hb]

/-- **As far as the first string goes, it is a prefix**… -/
theorem sameUpTo_length_left {m : List UInt8} (h : 0 ∉ m) (s : List UInt8) :
    sameUpTo m.length m s ↔ m <+: s := by
  induction m generalizing s with
  | nil => simp [sameUpTo]
  | cons b m ih =>
    simp only [List.mem_cons, not_or] at h
    have hb : b ≠ 0 := Ne.symm h.1
    cases s with
    | nil => simp [sameUpTo, hb]
    | cons c s => rw [List.length_cons, sameUpTo_cons hb, ih h.2, List.cons_prefix_cons]

/-- …and as far as the second goes, that one is, or it ends like the first. -/
theorem sameUpTo_length_right {m : List UInt8} (h : 0 ∉ m) (s : List UInt8) :
    sameUpTo s.length m s ↔ s <+: m ∨ m ++ [0] <+: s := by
  induction s generalizing m with
  | nil => simp [sameUpTo]
  | cons c s ih =>
    cases m with
    | nil => simp [sameUpTo, List.cons_prefix_cons, eq_comm]
    | cons b m =>
      simp only [List.mem_cons, not_or] at h
      have hb : b ≠ 0 := Ne.symm h.1
      have hcomm : c = b ↔ b = c := eq_comm
      rw [List.length_cons, sameUpTo_cons hb, ih h.2, List.cons_append, List.cons_prefix_cons,
        List.cons_prefix_cons, hcomm, ← and_or_left]

end Machinery
