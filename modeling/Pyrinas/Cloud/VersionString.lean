import Pyrinas.Cloud.VersionOrder
import Pyrinas.Machinery.Format

/-!
# Cloud/VersionString — when the text of a version names the version

`get_version_string` prints `major.minor.patch-commit-hash` with `snprintf` into the telemetry
field, which has 24 bytes.  The numerals take from one to three bytes each, the rest takes twelve.

    255.255.255-255-gabcdef1        24 characters and a terminator
    99.255.255-255-gabcdef1         23
-/

open Machinery

namespace Pyrinas

namespace OtaVersion

/-- `.` and `-`. -/
def dot : UInt8 := 46
def dash : UInt8 := 45

/-- `major.minor.patch-commit-`, in front of what follows. -/
def printNumbers (v : OtaVersion) (rest : List UInt8) : List UInt8 :=
  numeral v.major.toNat ++ dot :: (numeral v.minor.toNat ++ dot :: (numeral v.patch.toNat ++
    dash :: (numeral v.commit.toNat ++ dash :: rest)))

/-- The complete text of a version, with all bytes of the hash. -/
def completeText (v : OtaVersion) : List UInt8 := v.printNumbers (List.ofFn v.hash)

/-- What `"%d.%d.%d-%d-%.*s"` prints: at most eight bytes of the hash, as it has no terminator. -/
def format (v : OtaVersion) : List UInt8 :=
  v.printNumbers (CString.ofBytes (List.ofFn v.hash)).bytes

/-- One of the numbers has fewer than three digits. -/
def HasShortNumber (v : OtaVersion) : Prop :=
  v.major.toNat < 100 ∨ v.minor.toNat < 100 ∨ v.patch.toNat < 100 ∨ v.commit.toNat < 100

end OtaVersion

/-- `get_version_string` -/
def getVersionString {n : ℕ} (v : OtaVersion) (p : Area UInt8 n) : Area UInt8 n :=
  p.snprintf v.format

/-- The string in the field after `get_version_string`. -/
def versionField (v : OtaVersion) (field : Area UInt8 24) : List UInt8 :=
  (CString.ofBytes (getVersionString v field).cells).bytes

variable {v w : OtaVersion}

namespace OtaVersion

/-! ## The text -/

theorem length_printNumbers (v : OtaVersion) (rest : List UInt8) :
    (v.printNumbers rest).length = (numeral v.major.toNat).length + (numeral v.minor.toNat).length +
      (numeral v.patch.toNat).length + (numeral v.commit.toNat).length + 4 + rest.length := by
  simp only [printNumbers, List.length_append, List.length_cons]
  omega

/-- **The numbers can be read back**, and what follows them. -/
theorem printNumbers_inj {s t : List UInt8} (h : v.printNumbers s = w.printNumbers t) :
    v.quadruple = w.quadruple ∧ s = t := by
  have hdot : isDigit dot = false := rfl
  have hdash : isDigit dash = false := rfl
  obtain ⟨hmajor, h⟩ := numeral_append_inj hdot hdot h
  obtain ⟨hminor, h⟩ := numeral_append_inj hdot hdot h
  obtain ⟨hpatch, h⟩ := numeral_append_inj hdash hdash h
  obtain ⟨hcommit, h⟩ := numeral_append_inj hdash hdash h
  exact ⟨by simp [quadruple, raw, hmajor, hminor, hpatch, hcommit], h⟩

/-- **Different versions have different texts.** -/
theorem completeText_injective : Function.Injective completeText := by
  intro v w h
  obtain ⟨hquad, hhash⟩ := printNumbers_inj h
  exact eq_iff.mpr ⟨hquad, List.ofFn_injective hhash⟩

/-- There is no terminator in front of the hash. -/
theorem zero_mem_printNumbers_iff (v : OtaVersion) (rest : List UInt8) :
    0 ∈ v.printNumbers rest ↔ 0 ∈ rest := by
  have hnumeral : ∀ n, 0 ∉ numeral n := by
    intro n h
    exact absurd (isDigit_of_mem_numeral h) (by decide)
  simp [printNumbers, hnumeral, dot, dash]

theorem format_eq_completeText (h : ∀ i, v.hash i ≠ 0) : v.format = v.completeText := by
  have hall : ∀ b ∈ List.ofFn v.hash, decide (b ≠ 0) = true := by
    intro b hb
    obtain ⟨i, rfl⟩ := List.mem_ofFn.mp hb
    simpa using h i
  rw [format, completeText]
  exact congrArg v.printNumbers (List.takeWhile_eq_self_iff.mpr hall)

/-! ## When it fits -/

theorem length_numeral_le_three (b : UInt8) : (numeral b.toNat).length ≤ 3 := by
  have := b.toNat_lt
  exact (length_numeral_le_iff (by decide)).mpr (by omega)

/-- **Only four numbers of three digits are too long.** -/
theorem length_completeText_le_iff : v.completeText.length ≤ 23 ↔ v.HasShortNumber := by
  have hshort : ∀ b : UInt8, b.toNat < 100 ↔ (numeral b.toNat).length ≤ 2 := by
    intro b
    rw [length_numeral_le_iff (by decide), Nat.pow_two]
  have hmajor := length_numeral_le_three v.major
  have hminor := length_numeral_le_three v.minor
  have hpatch := length_numeral_le_three v.patch
  have hcommit := length_numeral_le_three v.commit
  rw [HasShortNumber, hshort, hshort, hshort, hshort, completeText, length_printNumbers,
    List.length_ofFn]
  omega

end OtaVersion

/-- The field holds the text, cut to 23 characters. -/
theorem versionField_eq (v : OtaVersion) (field : Area UInt8 24) :
    versionField v field = v.format.take 23 := by
  have hzero : 0 ∉ v.format := by
    rw [OtaVersion.format, OtaVersion.zero_mem_printNumbers_iff]
    exact (CString.ofBytes _).noNul
  have hfield := ofBytes_snprintf field (by decide) hzero []
  rwa [List.append_nil] at hfield

/-- **The published text names the version exactly when one of its numbers has fewer than three
digits.** -/
theorem identifies_iff (hv : ∀ i, v.hash i ≠ 0) (hw : ∀ i, w.hash i ≠ 0)
    (field field' : Area UInt8 24) :
    (versionField v field = v.completeText ∧ versionField w field' = w.completeText ∧
        (v ≠ w → versionField v field ≠ versionField w field'))
      ↔ v.HasShortNumber ∧ w.HasShortNumber := by
  rw [versionField_eq, versionField_eq, OtaVersion.format_eq_completeText hv,
    OtaVersion.format_eq_completeText hw, List.take_eq_self_iff, List.take_eq_self_iff,
    OtaVersion.length_completeText_le_iff, OtaVersion.length_completeText_le_iff]
  constructor
  · rintro ⟨hshort, hshort', -⟩
    exact ⟨hshort, hshort'⟩
  · rintro ⟨hshort, hshort'⟩
    refine ⟨hshort, hshort', fun hne heq => hne ?_⟩
    rw [List.take_of_length_le (OtaVersion.length_completeText_le_iff.mpr hshort),
      List.take_of_length_le (OtaVersion.length_completeText_le_iff.mpr hshort')] at heq
    exact OtaVersion.completeText_injective heq

/-- 100.100.100, a commit, and a hash with a last byte. -/
def longVersion (commit last : UInt8) : OtaVersion :=
  ⟨100, 100, 100, commit, fun i => if i = 7 then last else 97⟩

/-- 100.100.100-4-aaaaaaa1 is not 100.100.100-4-aaaaaaa2. -/
theorem identifies_iff_short :
    versionField (longVersion 4 49) (Area.fill 24 0)
      ≠ versionField (longVersion 4 50) (Area.fill 24 0) := by
  have hcommit : (4 : UInt8).toNat < 100 := by decide
  have hshort : ∀ last, (longVersion 4 last).HasShortNumber := fun _ => .inr (.inr (.inr hcommit))
  have hok := (identifies_iff (by decide) (by decide) (Area.fill 24 0) (Area.fill 24 0)).mpr
    ⟨hshort 49, hshort 50⟩
  exact hok.2.2 (by decide)

/-- 100.100.100-100-aaaaaaa1 loses its last character, which 100.100.100-100-aaaaaaa2 also does. -/
theorem not_identifies_long : ¬ ∀ v w : OtaVersion, (∀ i, v.hash i ≠ 0) → (∀ i, w.hash i ≠ 0) →
    ∀ field : Area UInt8 24, versionField v field = v.completeText ∧
      (v ≠ w → versionField v field ≠ versionField w field) := by
  intro h
  have hne := (h (longVersion 100 49) (longVersion 100 50) (by decide) (by decide)
    (Area.fill 24 0)).2
  exact hne (by decide) (by decide +kernel)

end Pyrinas
