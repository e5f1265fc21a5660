import Mathlib.Data.List.DropRight
import Mathlib.Data.List.OfFn
import Mathlib.Tactic.IntervalCases
import Pyrinas.Cloud.Version
import Pyrinas.Machinery.Regex

/-!
# Build/Describe — the version of an image, read twice

`git describe` names what is built.  `CMakeLists.txt` cuts its output into the numbers and the hash
that `version.c` compiles, and `manifest-generator.ts` into those of the manifest.

    1.12.3-4-gabcdef1 ─CMake─▸ 1, 12, 3, 4, "gabcdef1"        ─generator─▸ 1, 2, 3, 4, "gabcdef1"

In the generator's expression the group is inside the repetition, `([0-9])+`, so it captures the
last digit only.
-/

open Machinery Machinery.Regex

namespace Pyrinas

/-! ## What `version.c` compiles -/

/-- `[0-9]+` -/
def digits : Regex := plus (char Char.isDigit)

/-- `.` in CMake, also where it is written `\.` in a quoted argument. -/
def anyChar : Regex := char fun _ => true

/-- `^([0-9]+).*$` -/
def versionMajorRegex : Regex := seqs [group 1 digits, star anyChar, eos]

/-- `^[0-9]+\.([0-9]+).*$` -/
def versionMinorRegex : Regex := seqs [digits, anyChar, group 1 digits, star anyChar, eos]

/-- `^[0-9]+\.[0-9]+\.([0-9]+).*$` -/
def versionPatchRegex : Regex :=
  seqs [digits, anyChar, digits, anyChar, group 1 digits, star anyChar, eos]

/-- `-` -/
def dash : Regex := char (· = '-')

/-- `^[0-9]+\.[0-9]+\.[0-9]+-([0-9]+)-.*$` -/
def versionCommitRegex : Regex :=
  seqs [digits, anyChar, digits, anyChar, digits, dash, group 1 digits, dash, star anyChar, eos]

/-- `^[0-9]+\.[0-9]+\.[0-9]+-[0-9]+-(.*)$` -/
def versionHashRegex : Regex :=
  seqs [digits, anyChar, digits, anyChar, digits, dash, digits, dash, group 1 (star anyChar), eos]

/-- `string(REGEX REPLACE "^…$" "\\1" …)`: without a match the text stays. -/
def regexReplace (r : Regex) (text : List Char) : List Char :=
  match searchStart r text with
  | some found => (found.captures 1).getD [] ++ found.after
  | none => text

/-- The value of an integer constant in C, decimal or octal. -/
def integerConstant : List Char → Option ℕ
  | '0' :: cs => if cs.all fun c => '0' ≤ c ∧ c ≤ '7' then some (Nat.ofDigitChars 8 cs 0) else none
  | cs => if cs ≠ [] ∧ cs.all Char.isDigit then some (Nat.ofDigitChars 10 cs 0) else none

/-- The bytes of a text. -/
def encode (text : List Char) : List UInt8 := text.flatMap String.utf8EncodeChar

/-- `pyrinas_version`, from the output of `git describe`. -/
def compiledVersion (output : List Char) : Option OtaVersion := do
  let version := output.rdropWhile Char.isWhitespace
  let major ← integerConstant (regexReplace versionMajorRegex version)
  let minor ← integerConstant (regexReplace versionMinorRegex version)
  let patch ← integerConstant (regexReplace versionPatchRegex version)
  let commit ← integerConstant (regexReplace versionCommitRegex version)
  let hash := encode (regexReplace versionHashRegex version)
  some ⟨.ofNat major, .ofNat minor, .ofNat patch, .ofNat commit, fun i => hash.getD i 0⟩

/-! ## What `manifest-generator.ts` writes -/

/-- `OTAVersion` -/
structure ManifestVersion where
  major : ℕ
  minor : ℕ
  patch : ℕ
  commit : ℕ
  hash : List UInt8
  deriving DecidableEq

/-- `.` in JavaScript, also where it is written `\.` in a string. -/
def notLineTerminator (c : Char) : Bool := c ∉ ['\n', '\r', '\u2028', '\u2029']

/-- `([0-9])+\.([0-9])+\.([0-9])+-([0-9])+-(.{8})` -/
def manifestRegex : Regex :=
  let dot := char notLineTerminator
  let number n := plus (group n (char Char.isDigit))
  seqs [number 1, dot, number 2, dot, number 3, dash, number 4, dash, group 5 (times dot 8)]

/-- The number a text of digits stands for. -/
def number (text : Option (List Char)) : ℕ := Nat.ofDigitChars 10 (text.getD []) 0

/-- The `version` of the manifest, from the output of `git describe`; none if it does not match. -/
def generatedVersion (output : List Char) : Option ManifestVersion :=
  let ver := output.filter fun c => c ≠ '\r' ∧ c ≠ '\n'
  (search manifestRegex ver).map fun found =>
    { major := number (found.captures 1)
      minor := number (found.captures 2)
      patch := number (found.captures 3)
      commit := number (found.captures 4)
      hash := encode ((found.captures 5).getD []) }

/-! ## The output of `git describe` -/

/-- A hexadecimal digit. -/
def isHexDigit (c : Char) : Bool :=
  c.isDigit || ('a' ≤ c && c ≤ 'f') || ('A' ≤ c && c ≤ 'F')

/-- A tag `M.m.p`, `c` commits behind it, and an abbreviated commit. -/
structure GitDescribe where
  major : UInt8
  minor : UInt8
  patch : UInt8
  commit : UInt8
  hash : List Char
  isHex : ∀ c ∈ hash, isHexDigit c
  length_le : 7 ≤ hash.length

namespace GitDescribe

/-- A number without leading zeros. -/
def decimal (n : UInt8) : List Char := Nat.toDigits 10 n.toNat

/-- `-gH` -/
def suffix (d : GitDescribe) : List Char := 'g' :: d.hash

/-- `M.m.p-c-gH` -/
def text (d : GitDescribe) : List Char :=
  decimal d.major ++ '.' :: (decimal d.minor ++ '.' :: (decimal d.patch ++ '-' ::
    (decimal d.commit ++ '-' :: d.suffix)))

/-- It is printed as a line. -/
def output (d : GitDescribe) : List Char := d.text ++ ['\n']

/-- `(M, m, p, c, first 8 bytes of gH)` -/
def version (d : GitDescribe) : OtaVersion where
  major := d.major
  minor := d.minor
  patch := d.patch
  commit := d.commit
  hash i := (encode d.suffix).getD i 0

end GitDescribe

/-- A compiled version, as the generator writes it. -/
def ManifestVersion.ofCompiled (v : OtaVersion) : ManifestVersion :=
  ⟨v.major.toNat, v.minor.toNat, v.patch.toNat, v.commit.toNat, List.ofFn v.hash⟩

/-- Both read the version that the output names. -/
def VersionsAgree (d : GitDescribe) : Prop :=
  compiledVersion d.output = some d.version ∧
    generatedVersion d.output = some (.ofCompiled d.version)

/-! ## Numbers and hashes -/

/-- A hexadecimal digit is one byte. -/
theorem utf8Size_of_isHexDigit {c : Char} (h : isHexDigit c) : c.utf8Size = 1 := by
  have hle : c.val ≤ 127 := by
    simp only [isHexDigit, Char.isDigit, Bool.or_eq_true, Bool.and_eq_true, decide_eq_true_eq,
      Char.le_def, UInt32.le_iff_toNat_le] at h ⊢
    rcases h with (⟨-, h⟩ | ⟨-, h⟩) | ⟨-, h⟩ <;> exact h.trans (by decide)
  simp [Char.utf8Size, hle]

section Texts

open GitDescribe

variable {d : GitDescribe} {c : Char}

theorem decimal_ne_nil (n : UInt8) : decimal n ≠ [] := Nat.toDigits_ne_nil

theorem isDigit_of_mem_decimal {n : UInt8} (h : c ∈ decimal n) : c.isDigit :=
  Nat.isDigit_of_mem_toDigits (by decide) (by decide) h

/-- The output is made of hexadecimal digits and three other characters. -/
theorem mem_text (h : c ∈ d.text) : isHexDigit c ∨ c = '.' ∨ c = '-' ∨ c = 'g' := by
  simp only [GitDescribe.text, suffix, List.mem_append, List.mem_cons] at h
  have hdecimal : ∀ n, c ∈ decimal n → isHexDigit c := fun n hc => by
    simp [isHexDigit, isDigit_of_mem_decimal hc]
  rcases h with h | h | h | h | h | h | h | h | h
  · exact .inl (hdecimal _ h)
  · exact .inr (.inl h)
  · exact .inl (hdecimal _ h)
  · exact .inr (.inl h)
  · exact .inl (hdecimal _ h)
  · exact .inr (.inr (.inl h))
  · exact .inl (hdecimal _ h)
  · exact .inr (.inr (.inl h))
  · exact h.elim (fun hg => .inr (.inr (.inr hg))) (fun hh => .inl (d.isHex c hh))

/-- …so it has nothing that is not printed. -/
theorem ne_of_mem_text (h : c ∈ d.text) {b : Char} (hb : isHexDigit b = false)
    (hother : b ∉ ['.', '-', 'g']) : c ≠ b := by
  rintro rfl
  rcases mem_text h with hhex | rfl | rfl | rfl
  · simp [hhex] at hb
  all_goals simp at hother

theorem not_isWhitespace_of_mem_text (h : c ∈ d.text) : c.isWhitespace = false := by
  have hne : ∀ b, isHexDigit b = false → b ∉ ['.', '-', 'g'] → c ≠ b :=
    fun b => ne_of_mem_text h
  simp only [Char.isWhitespace, Bool.or_eq_false_iff, decide_eq_false_iff_not]
  exact ⟨⟨⟨hne ' ' rfl (by decide), hne '\t' rfl (by decide)⟩, hne '\r' rfl (by decide)⟩,
    hne '\n' rfl (by decide)⟩

theorem notLineTerminator_of_mem_text (h : c ∈ d.text) : notLineTerminator c := by
  have hne : ∀ b, isHexDigit b = false → b ∉ ['.', '-', 'g'] → c ≠ b :=
    fun b => ne_of_mem_text h
  simp only [notLineTerminator, List.mem_cons, List.not_mem_nil, or_false, not_or,
    decide_eq_true_eq]
  exact ⟨hne _ rfl (by decide), hne _ rfl (by decide), hne _ rfl (by decide),
    hne _ rfl (by decide)⟩

/-- A number has no leading zero… -/
theorem head_toDigits_ne_zero {n : ℕ} (hn : 0 < n) : (Nat.toDigits 10 n).head? ≠ some '0' := by
  induction n using Nat.strongRecOn with
  | ind n ih =>
    by_cases hlt : n < 10
    · rw [Nat.toDigits_of_lt_base hlt]
      interval_cases n <;> decide
    · have hquot : 0 < n / 10 := by omega
      rw [Nat.toDigits_of_base_le (by decide) (by omega), List.head?_append_of_ne_nil _
        Nat.toDigits_ne_nil]
      exact ih (n / 10) (by omega) hquot

/-- …so C reads it as decimal. -/
theorem integerConstant_decimal (n : UInt8) : integerConstant (decimal n) = some n.toNat := by
  have hall : (decimal n).all Char.isDigit := List.all_eq_true.mpr fun c => isDigit_of_mem_decimal
  have hval : Nat.ofDigitChars 10 (decimal n) 0 = n.toNat := Nat.ofDigitChars_ten_toDigits
  unfold integerConstant
  split
  next cs heq =>
    have hzero : n.toNat = 0 := by
      by_contra hne
      exact head_toDigits_ne_zero (Nat.pos_of_ne_zero hne) (by rw [decimal] at heq; rw [heq]; rfl)
    have hcs : cs = [] := by
      rw [decimal, hzero] at heq
      exact (List.cons.inj heq).2.symm
    simp [hcs, hzero]
  next => rw [if_pos ⟨decimal_ne_nil n, hall⟩, hval]

/-- The last digit. -/
theorem number_getLast_decimal (n : UInt8) :
    number (some [(decimal n).getLast (decimal_ne_nil n)]) = n.toNat % 10 := by
  have hlast : (decimal n).getLast (decimal_ne_nil n) = Nat.digitChar (n.toNat % 10) := by
    by_cases hlt : n.toNat < 10
    · simp only [decimal, Nat.toDigits_of_lt_base hlt, List.getLast_singleton, Nat.mod_eq_of_lt hlt]
    · simp only [decimal, Nat.toDigits_of_base_le (b := 10) (by decide) (not_lt.mp hlt),
        List.getLast_append_singleton]
  rw [number, Option.getD_some, hlast,
    Nat.ofDigitChars_cons_digitChar_of_lt_ten (Nat.mod_lt _ (by decide)), Nat.ofDigitChars_nil,
    Nat.mul_zero, Nat.zero_add]

/-! ## The expressions of `CMakeLists.txt` -/

theorem head_not_digit (h : c.isDigit = false) (rest : List Char) :
    ∀ d ∈ (c :: rest).head?, d.isDigit = false := by
  simpa using h

section CMake

variable {rest : List Char} {k : Captures}

theorem first_digits (n : UInt8) (h : c.isDigit = false) :
    First digits ⟨decimal n ++ c :: rest, k⟩ ⟨c :: rest, k⟩ :=
  first_plus_char (decimal_ne_nil n) (fun _ => isDigit_of_mem_decimal) (head_not_digit h rest) k

theorem first_group_digits (n : UInt8) (h : c.isDigit = false) :
    First (group 1 digits) ⟨decimal n ++ c :: rest, k⟩
      ⟨c :: rest, Function.update k 1 (some (decimal n))⟩ :=
  first_group (decimal n) (first_digits n h)

theorem first_anyChar : First anyChar ⟨c :: rest, k⟩ ⟨rest, k⟩ := first_char rfl rest k

theorem first_dash : First dash ⟨'-' :: rest, k⟩ ⟨rest, k⟩ := first_char rfl rest k

theorem first_star_anyChar (text : List Char) : First (star anyChar) ⟨text, k⟩ ⟨[], k⟩ := by
  have hrun : First (star anyChar) ⟨text ++ [], k⟩ ⟨[], k⟩ :=
    first_star_char (fun _ _ => rfl) (fun _ h => absurd h (by simp)) k
  rwa [List.append_nil] at hrun

/-- `.*$` -/
theorem first_toEnd (text : List Char) : First (seqs [star anyChar, eos]) ⟨text, k⟩ ⟨[], k⟩ :=
  first_seqs_cons (first_star_anyChar text) (first_seqs_cons (first_eos k) (first_empty _))

theorem regexReplace_of_first {r : Regex} {text cs : List Char}
    (h : First r ⟨text, fun _ => none⟩ ⟨[], Function.update (fun _ => none) 1 (some cs)⟩) :
    regexReplace r text = cs := by
  rw [regexReplace, searchStart_of_first h]
  simp

variable (d)

theorem regexReplace_major : regexReplace versionMajorRegex d.text = decimal d.major := by
  refine regexReplace_of_first ?_
  exact first_seqs_cons (first_group_digits d.major rfl) (first_toEnd _)

theorem regexReplace_minor : regexReplace versionMinorRegex d.text = decimal d.minor := by
  refine regexReplace_of_first ?_
  refine first_seqs_cons (first_digits d.major rfl) (first_seqs_cons first_anyChar ?_)
  exact first_seqs_cons (first_group_digits d.minor rfl) (first_toEnd _)

theorem regexReplace_patch : regexReplace versionPatchRegex d.text = decimal d.patch := by
  refine regexReplace_of_first ?_
  refine first_seqs_cons (first_digits d.major rfl) (first_seqs_cons first_anyChar ?_)
  refine first_seqs_cons (first_digits d.minor rfl) (first_seqs_cons first_anyChar ?_)
  exact first_seqs_cons (first_group_digits d.patch rfl) (first_toEnd _)

theorem regexReplace_commit : regexReplace versionCommitRegex d.text = decimal d.commit := by
  refine regexReplace_of_first ?_
  refine first_seqs_cons (first_digits d.major rfl) (first_seqs_cons first_anyChar ?_)
  refine first_seqs_cons (first_digits d.minor rfl) (first_seqs_cons first_anyChar ?_)
  refine first_seqs_cons (first_digits d.patch rfl) (first_seqs_cons first_dash ?_)
  exact first_seqs_cons (first_group_digits d.commit rfl)
    (first_seqs_cons first_dash (first_toEnd _))

theorem regexReplace_hash : regexReplace versionHashRegex d.text = d.suffix := by
  refine regexReplace_of_first ?_
  refine first_seqs_cons (first_digits d.major rfl) (first_seqs_cons first_anyChar ?_)
  refine first_seqs_cons (first_digits d.minor rfl) (first_seqs_cons first_anyChar ?_)
  refine first_seqs_cons (first_digits d.patch rfl) (first_seqs_cons first_dash ?_)
  refine first_seqs_cons (first_digits d.commit rfl) (first_seqs_cons first_dash ?_)
  have hgroup : First (group 1 (star anyChar)) ⟨d.suffix ++ [], fun _ => none⟩
      ⟨[], Function.update (fun _ => none) 1 (some d.suffix)⟩ := by
    refine first_group d.suffix ?_
    rw [List.append_nil]
    exact first_star_anyChar d.suffix
  rw [List.append_nil] at hgroup
  exact first_seqs_cons hgroup (first_seqs_cons (first_eos _) (first_empty _))

/-- The line break goes, and nothing else. -/
theorem rdropWhile_output : d.output.rdropWhile Char.isWhitespace = d.text := by
  rw [GitDescribe.output, List.rdropWhile_concat_pos _ _ _ (by decide),
    List.rdropWhile_eq_self_iff]
  intro hne hlast
  have hfree := not_isWhitespace_of_mem_text (List.getLast_mem hne)
  exact absurd (hlast.symm.trans hfree) (by decide)

/-- **CMake and the compiler read every version right.** -/
theorem compiledVersion_output : compiledVersion d.output = some d.version := by
  simp only [compiledVersion, rdropWhile_output, regexReplace_major, regexReplace_minor,
    regexReplace_patch, regexReplace_commit, regexReplace_hash, integerConstant_decimal,
    Option.bind_eq_bind, Option.bind_some, UInt8.ofNat_toNat]
  rfl

end CMake

/-! ## The expression of `manifest-generator.ts` -/

section Generator

variable {rest : List Char} {k : Captures}

/-- The last digit of a number is captured. -/
theorem first_number (i : ℕ) (n : UInt8) (h : c.isDigit = false) :
    First (plus (group i (char Char.isDigit))) ⟨decimal n ++ c :: rest, k⟩
      ⟨c :: rest, Function.update k i (some [(decimal n).getLast (decimal_ne_nil n)])⟩ :=
  first_plus_group i (decimal_ne_nil n) (fun _ => isDigit_of_mem_decimal) (head_not_digit h rest) k

theorem first_dot : First (char notLineTerminator) ⟨'.' :: rest, k⟩ ⟨rest, k⟩ :=
  first_char (by decide) rest k

variable (d)

/-- Eight characters from the `g` on. -/
theorem suffix_eq : d.suffix = d.suffix.take 8 ++ d.hash.drop 7 :=
  (List.take_append_drop 8 d.suffix).symm

theorem length_take_suffix : (d.suffix.take 8).length = 8 := by
  have := d.length_le
  simp [GitDescribe.suffix]
  omega

theorem suffix_subset : ∀ c ∈ d.suffix, c ∈ d.text := by
  intro c hc
  simp only [GitDescribe.text, List.mem_append, List.mem_cons, hc, or_true]

theorem first_hash : First (group 5 (times (char notLineTerminator) 8)) ⟨d.suffix, k⟩
    ⟨d.hash.drop 7, Function.update k 5 (some (d.suffix.take 8))⟩ := by
  have htimes : First (times (char notLineTerminator) (d.suffix.take 8).length)
      ⟨d.suffix.take 8 ++ d.hash.drop 7, k⟩ ⟨d.hash.drop 7, k⟩ := by
    refine first_times_char (fun c hc => ?_) k
    exact notLineTerminator_of_mem_text (suffix_subset d c (List.mem_of_mem_take hc))
  rw [length_take_suffix] at htimes
  have hgroup := first_group (n := 5) _ htimes
  rwa [← suffix_eq] at hgroup

/-- What the five groups capture. -/
def generatorCaptures (d : GitDescribe) : Captures :=
  let last (n : UInt8) : Option (List Char) := some [(decimal n).getLast (decimal_ne_nil n)]
  Function.update (Function.update (Function.update (Function.update (Function.update
    (fun _ => none) 1 (last d.major)) 2 (last d.minor)) 3 (last d.patch)) 4 (last d.commit))
    5 (some (d.suffix.take 8))

theorem search_text :
    search manifestRegex d.text = some ⟨[], generatorCaptures d, d.hash.drop 7⟩ := by
  refine search_of_first (t := ⟨d.hash.drop 7, generatorCaptures d⟩) ?_
  refine first_seqs_cons (first_number 1 d.major rfl) (first_seqs_cons first_dot ?_)
  refine first_seqs_cons (first_number 2 d.minor rfl) (first_seqs_cons first_dot ?_)
  refine first_seqs_cons (first_number 3 d.patch rfl) (first_seqs_cons first_dash ?_)
  refine first_seqs_cons (first_number 4 d.commit rfl) (first_seqs_cons first_dash ?_)
  exact first_seqs_cons (first_hash d) (first_empty _)

theorem filter_output : (d.output.filter fun c => c ≠ '\r' ∧ c ≠ '\n') = d.text := by
  have htext : (d.text.filter fun c => c ≠ '\r' ∧ c ≠ '\n') = d.text := by
    refine List.filter_eq_self.mpr fun c hc => decide_eq_true ⟨?_, ?_⟩
    · exact ne_of_mem_text hc rfl (by decide)
    · exact ne_of_mem_text hc rfl (by decide)
  rw [GitDescribe.output, List.filter_append, htext]
  simp

/-- **The generator keeps the last digit of every number.** -/
theorem generatedVersion_output : generatedVersion d.output = some
    ⟨d.major.toNat % 10, d.minor.toNat % 10, d.patch.toNat % 10, d.commit.toNat % 10,
      encode (d.suffix.take 8)⟩ := by
  simp only [generatedVersion, filter_output, search_text, Option.map_some, Option.some.injEq,
    ManifestVersion.mk.injEq]
  refine ⟨?_, ?_, ?_, ?_, rfl⟩
  · exact number_getLast_decimal d.major
  · exact number_getLast_decimal d.minor
  · exact number_getLast_decimal d.patch
  · exact number_getLast_decimal d.commit

theorem utf8Size_of_mem_suffix (h : c ∈ d.suffix) : c.utf8Size = 1 := by
  rcases List.mem_cons.mp h with rfl | hc
  · decide
  · exact utf8Size_of_isHexDigit (d.isHex c hc)

/-- One byte for every character of the hash. -/
theorem encode_of_subset {text : List Char} (h : ∀ c ∈ text, c ∈ d.suffix) :
    encode text = text.map fun c => c.val.toUInt8 := by
  induction text with
  | nil => rfl
  | cons c text ih =>
    have hc : c.utf8Size = 1 := utf8Size_of_mem_suffix d (h c List.mem_cons_self)
    have htext := ih fun e he => h e (List.mem_cons_of_mem c he)
    rw [encode, List.flatMap_cons, String.utf8EncodeChar_eq_singleton hc, ← encode, htext]
    rfl

/-- **The hash of the manifest is the compiled one.** -/
theorem encode_take_suffix : encode (d.suffix.take 8) = List.ofFn d.version.hash := by
  have hlen : 8 ≤ d.suffix.length := Nat.succ_le_succ d.length_le
  rw [encode_of_subset d fun c hc => List.mem_of_mem_take hc]
  refine List.ext_getElem ?_ ?_
  · simp [hlen]
  · intro i hi hi'
    have hlt : i < d.suffix.length := by simp at hi; omega
    rw [List.getElem_ofFn, List.getElem_map, List.getElem_take, GitDescribe.version,
      encode_of_subset d fun c hc => hc]
    simp [hlt]

end Generator

/-- **The two versions agree exactly when every number is a single digit.** -/
theorem versionsAgree_iff (d : GitDescribe) :
    VersionsAgree d ↔ d.major ≤ 9 ∧ d.minor ≤ 9 ∧ d.patch ≤ 9 ∧ d.commit ≤ 9 := by
  have hdigit : ∀ n : UInt8, n.toNat % 10 = n.toNat ↔ n ≤ 9 := by
    intro n
    rw [UInt8.le_iff_toNat_le, Nat.mod_eq_iff_lt (by decide)]
    exact Nat.lt_succ_iff
  simp only [VersionsAgree, compiledVersion_output, generatedVersion_output, true_and,
    Option.some.injEq, ManifestVersion.ofCompiled, ManifestVersion.mk.injEq, encode_take_suffix,
    and_true]
  simp only [GitDescribe.version, hdigit]

end Texts

/-- Version 1.12.3-4. -/
def describeTwelve : GitDescribe :=
  ⟨1, 12, 3, 4, ['a', 'b', 'c', 'd', 'e', 'f', '1'], List.all_eq_true.mp rfl, by decide⟩

/-- The manifest announces 1.2.3-4. -/
theorem not_versionsAgree_twelve : ¬ VersionsAgree describeTwelve := by
  intro h
  exact absurd h.2 (by decide +kernel)

end Pyrinas
