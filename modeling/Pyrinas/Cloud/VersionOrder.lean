import Mathlib.Data.List.Lex
import Pyrinas.Cloud.Version

/-!
# Cloud/VersionOrder — the order `ver_comp` finds

The loop of `ver_comp` compares the four numbers of two versions lexicographically.  Where it finds
no difference the hashes decide, and of two different hashes each counts as the newer one: "if
incoming is greater or hash is not equal".
-/

namespace Pyrinas

namespace OtaVersion

/-- `(major, minor, patch, commit)`, in lexicographic order. -/
def quadruple (v : OtaVersion) : List ℕ := v.raw.map UInt8.toNat

end OtaVersion

/-- The loop finds the second greater… -/
theorem verCompRaw_of_lt : ∀ {first second : List UInt8}, first.length = second.length →
    first.map UInt8.toNat < second.map UInt8.toNat → verCompRaw first second = some 1
  | [], [], _, h => absurd h (lt_irrefl _)
  | a :: first, b :: second, hlen, h => by
    rw [verCompRaw]
    rcases List.cons_lt_cons_iff.mp h with hlt | ⟨heq, htl⟩
    · have hne : a ≠ b := fun hab => hlt.ne (congrArg UInt8.toNat hab)
      rw [if_neg (lt_asymm hlt ∘ UInt8.lt_iff_toNat_lt.mp), if_neg hne]
    · obtain rfl := UInt8.toNat_inj.mp heq
      rw [if_neg (lt_irrefl a.toNat ∘ UInt8.lt_iff_toNat_lt.mp), if_pos rfl]
      exact verCompRaw_of_lt (Nat.succ.inj hlen) htl

/-- …the first greater… -/
theorem verCompRaw_of_gt : ∀ {first second : List UInt8}, first.length = second.length →
    second.map UInt8.toNat < first.map UInt8.toNat → verCompRaw first second = some (-1)
  | [], [], _, h => absurd h (lt_irrefl _)
  | a :: first, b :: second, hlen, h => by
    rw [verCompRaw]
    rcases List.cons_lt_cons_iff.mp h with hlt | ⟨heq, htl⟩
    · exact if_pos (UInt8.lt_iff_toNat_lt.mpr hlt)
    · obtain rfl := UInt8.toNat_inj.mp heq
      rw [if_neg (lt_irrefl b.toNat ∘ UInt8.lt_iff_toNat_lt.mp), if_pos rfl]
      exact verCompRaw_of_gt (Nat.succ.inj hlen) htl

/-- …or no difference. -/
theorem verCompRaw_self : ∀ first : List UInt8, verCompRaw first first = none
  | [] => rfl
  | a :: first => by
    have hirr : ¬ a > a := lt_irrefl a.toNat ∘ UInt8.lt_iff_toNat_lt.mp
    rw [verCompRaw, if_neg hirr, if_pos rfl, verCompRaw_self first]

/-! ## What `ver_comp` answers -/

variable {v w : OtaVersion}

namespace OtaVersion

theorem raw_eq_iff : v.raw = w.raw ↔ v.quadruple = w.quadruple :=
  (List.map_injective_iff.mpr fun _ _ => UInt8.toNat_inj.mp).eq_iff.symm

/-- A version is its four numbers and its hash. -/
theorem eq_iff : v = w ↔ v.quadruple = w.quadruple ∧ v.hash = w.hash := by
  rw [← raw_eq_iff]
  cases v
  cases w
  simp [raw, and_assoc]

end OtaVersion

theorem verComp_of_gt (h : w.quadruple < v.quadruple) : verComp v w = -1 := by
  have hraw : verCompRaw v.raw w.raw = some (-1) := verCompRaw_of_gt rfl h
  rw [verComp, hraw]

theorem verComp_of_lt (h : v.quadruple < w.quadruple) : verComp v w = 1 := by
  have hraw : verCompRaw v.raw w.raw = some 1 := verCompRaw_of_lt rfl h
  rw [verComp, hraw]

/-- With the same numbers a different hash is newer, whichever comes first. -/
theorem verComp_of_eq (h : v.quadruple = w.quadruple) :
    verComp v w = if v.hash ≠ w.hash then 1 else 0 := by
  rw [verComp, OtaVersion.raw_eq_iff.mpr h, verCompRaw_self]

theorem verComp_self (v : OtaVersion) : verComp v v = 0 := by
  simp [verComp_of_eq rfl]

/-- **An update is not smaller.** -/
theorem quadruple_le_of_verComp (h : verComp v w = 1) : v.quadruple ≤ w.quadruple := by
  by_contra hgt
  rw [verComp_of_gt (not_le.mp hgt)] at h
  exact absurd h (by decide)

/-- **Only the same version is neither older nor newer.** -/
theorem verComp_eq_zero_iff : verComp v w = 0 ↔ v = w := by
  rw [OtaVersion.eq_iff]
  rcases lt_trichotomy v.quadruple w.quadruple with hlt | heq | hgt
  · simp [verComp_of_lt hlt, hlt.ne]
  · simp [verComp_of_eq heq, heq]
  · simp [verComp_of_gt hgt, hgt.ne']

/-- Each counts as newer than the other. -/
def EachNewer (v w : OtaVersion) : Prop := verComp v w = 1 ∧ verComp w v = 1

/-- **Builds of the same numbers are each newer than the other.** -/
theorem eachNewer_iff : EachNewer v w ↔ v.quadruple = w.quadruple ∧ v.hash ≠ w.hash := by
  rcases lt_trichotomy v.quadruple w.quadruple with hlt | heq | hgt
  · simp [EachNewer, verComp_of_gt hlt, hlt.ne]
  · simp [EachNewer, verComp_of_eq heq, verComp_of_eq heq.symm, heq, ne_comm]
  · simp [EachNewer, verComp_of_gt hgt, hgt.ne']

/-- **Swapping the versions turns the answer around**, but for those. -/
theorem verComp_swap_iff : verComp w v = -verComp v w ↔ ¬ EachNewer v w := by
  rw [eachNewer_iff]
  rcases lt_trichotomy v.quadruple w.quadruple with hlt | heq | hgt
  · simp [verComp_of_lt hlt, verComp_of_gt hlt, hlt.ne]
  · by_cases hhash : v.hash = w.hash
    · simp [verComp_of_eq heq, verComp_of_eq heq.symm, hhash]
    · simp [verComp_of_eq heq, verComp_of_eq heq.symm, heq, hhash, Ne.symm hhash]
  · simp [verComp_of_lt hgt, verComp_of_gt hgt, hgt.ne']

end Pyrinas
