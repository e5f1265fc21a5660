import Mathlib.Data.List.Basic
import Mathlib.Logic.Function.Basic

/-!
# Machinery/Regex — regular expressions with captures, matched by backtracking

`results r s` lists the ways to match `r` from `s` on, the greedy ones first; what an engine finds
is the first of them.  `First r s t` says that it is `t`, and composes: if the first choice of a
part lets the rest match, it is the choice of the whole.

    ([0-9])+  on "12."      first: rest ".", capture "2"       then: rest "2.", capture "1"
-/

namespace Machinery

/-- Regular expressions, as far as version strings need them. -/
inductive Regex
  | empty
  | eos
  | char (p : Char → Bool)
  | seq (a b : Regex)
  | star (a : Regex)
  | group (n : ℕ) (a : Regex)

/-- What the groups have captured. -/
abbrev Captures := ℕ → Option (List Char)

/-- Where a match has got to: the text that is left, and the captures. -/
structure Scan where
  rest : List Char
  captures : Captures

/-- What is consumed between two positions becomes a capture. -/
def Scan.capture (s : Scan) (n : ℕ) (t : Scan) : Scan where
  rest := t.rest
  captures :=
    Function.update t.captures n (some (s.rest.take (s.rest.length - t.rest.length)))

namespace Regex

/-- Repeat as often as possible, or less often.  Every round has to consume something, so the length
of the text bounds the rounds. -/
def starResults (f : Scan → List Scan) : ℕ → Scan → List Scan
  | 0, s => [s]
  | fuel + 1, s =>
    ((f s).filter fun t => t.rest.length < s.rest.length).flatMap (starResults f fuel) ++ [s]

/-- The ways to match, in the order in which they are tried. -/
def results : Regex → Scan → List Scan
  | empty, s => [s]
  | eos, s => if s.rest = [] then [s] else []
  | char p, s =>
    match s.rest with
    | [] => []
    | c :: rest => if p c then [{ s with rest := rest }] else []
  | seq a b, s => (results a s).flatMap (results b)
  | star a, s => starResults (results a) s.rest.length s
  | group n a, s => (results a s).map (s.capture n)

/-- `a+` -/
def plus (a : Regex) : Regex := seq a (star a)

/-- `a{n}` -/
def times (a : Regex) : ℕ → Regex
  | 0 => empty
  | n + 1 => seq a (times a n)

/-- One after the other. -/
def seqs : List Regex → Regex
  | [] => empty
  | a :: l => seq a (seqs l)

/-- The match that is found from `s` on ends in `t`. -/
def First (r : Regex) (s t : Scan) : Prop := (r.results s).head? = some t

/-! ## Composing matches -/

section First

variable {a b : Regex} {s t u : Scan}

theorem first_empty (s : Scan) : First empty s s := rfl

theorem first_eos (captures : Captures) : First eos ⟨[], captures⟩ ⟨[], captures⟩ :=
  rfl

theorem first_char {p : Char → Bool} {c : Char} (h : p c) (rest : List Char)
    (captures : Captures) :
    First (char p) ⟨c :: rest, captures⟩ ⟨rest, captures⟩ := by
  simp [First, results, h]

theorem first_seq (ha : First a s t) (hb : First b t u) : First (seq a b) s u := by
  obtain ⟨l, hl⟩ := List.head?_eq_some_iff.mp ha
  obtain ⟨m, hm⟩ := List.head?_eq_some_iff.mp hb
  simp [First, results, hl, hm]

theorem first_seqs_cons {l : List Regex} (ha : First a s t) (hl : First (seqs l) t u) :
    First (seqs (a :: l)) s u := first_seq ha hl

/-- A group captures what it consumes. -/
theorem first_group {n : ℕ} (consumed : List Char) {rest : List Char}
    {captures captures' : Captures} (h : First a ⟨consumed ++ rest, captures⟩ ⟨rest, captures'⟩) :
    First (group n a) ⟨consumed ++ rest, captures⟩
      ⟨rest, Function.update captures' n (some consumed)⟩ := by
  obtain ⟨l, hl⟩ := List.head?_eq_some_iff.mp h
  simp [First, results, hl, Scan.capture]

/-- Enough fuel is enough. -/
theorem starResults_fuel (f : Scan → List Scan) :
    ∀ {n m : ℕ} {s : Scan}, s.rest.length ≤ n → s.rest.length ≤ m →
      starResults f n s = starResults f m s
  | 0, 0, _, _, _ => rfl
  | 0, m + 1, s, hn, _ => by
    have hnone : (f s).filter (fun t => t.rest.length < s.rest.length) = [] :=
      List.filter_eq_nil_iff.mpr fun t _ => by simp; omega
    simp [starResults, hnone]
  | n + 1, 0, s, _, hm => by
    have hnone : (f s).filter (fun t => t.rest.length < s.rest.length) = [] :=
      List.filter_eq_nil_iff.mpr fun t _ => by simp; omega
    simp [starResults, hnone]
  | n + 1, m + 1, s, hn, hm => by
    rw [starResults, starResults]
    congr 1
    refine List.flatMap_congr fun t ht => ?_
    have hlt : t.rest.length < s.rest.length := by simpa using (List.mem_filter.mp ht).2
    exact starResults_fuel f (by omega) (by omega)

/-- No further round. -/
theorem first_star_stop (h : a.results s = []) : First (star a) s s := by
  rw [First, results]
  cases s.rest.length with
  | zero => rfl
  | succ n => simp [starResults, h]

/-- One more round. -/
theorem first_star_step (ha : First a s t) (hlt : t.rest.length < s.rest.length)
    (hstar : First (star a) t u) : First (star a) s u := by
  obtain ⟨l, hl⟩ := List.head?_eq_some_iff.mp ha
  obtain ⟨n, hn⟩ : ∃ n, s.rest.length = n + 1 := ⟨s.rest.length - 1, by omega⟩
  obtain ⟨m, hm⟩ := List.head?_eq_some_iff.mp hstar
  rw [results] at hm
  rw [First, results, hn, starResults, hl, List.filter_cons_of_pos (by simpa using hlt),
    List.flatMap_cons,
    starResults_fuel (results a) (n := n) (m := t.rest.length) (by omega) (Nat.le_refl _), hm]
  rfl

/-- **A greedy run**: if every round takes one character with `p`, all of them are taken. -/
theorem first_star_run {p : Char → Bool} {f : Char → Captures → Captures}
    (htake : ∀ c rest captures, p c → First a ⟨c :: rest, captures⟩ ⟨rest, f c captures⟩)
    (hstop : ∀ s : Scan, (∀ c ∈ s.rest.head?, p c = false) → a.results s = [])
    {cs rest : List Char} (hcs : ∀ c ∈ cs, p c) (hrest : ∀ c ∈ rest.head?, p c = false)
    (captures : Captures) :
    First (star a) ⟨cs ++ rest, captures⟩ ⟨rest, cs.foldl (fun k c => f c k) captures⟩ := by
  induction cs generalizing captures with
  | nil => exact first_star_stop (hstop _ hrest)
  | cons c cs ih =>
    have hc : p c := hcs c List.mem_cons_self
    exact first_star_step (htake c (cs ++ rest) captures hc) (Nat.lt_succ_self _)
      (ih (fun d hd => hcs d (List.mem_cons_of_mem c hd)) _)

theorem first_plus_run {p : Char → Bool} {f : Char → Captures → Captures}
    (htake : ∀ c rest captures, p c → First a ⟨c :: rest, captures⟩ ⟨rest, f c captures⟩)
    (hstop : ∀ s : Scan, (∀ c ∈ s.rest.head?, p c = false) → a.results s = [])
    {cs rest : List Char} (hne : cs ≠ []) (hcs : ∀ c ∈ cs, p c)
    (hrest : ∀ c ∈ rest.head?, p c = false) (captures : Captures) :
    First (plus a) ⟨cs ++ rest, captures⟩ ⟨rest, cs.foldl (fun k c => f c k) captures⟩ := by
  cases cs with
  | nil => exact absurd rfl hne
  | cons c cs =>
    have hc : p c := hcs c List.mem_cons_self
    exact first_seq (htake c (cs ++ rest) captures hc)
      (first_star_run htake hstop (fun d hd => hcs d (List.mem_cons_of_mem c hd)) hrest _)

/-! ## Runs of one kind of character -/

section Runs

variable {p : Char → Bool} {cs rest : List Char}

theorem results_char_stop {s : Scan} (h : ∀ c ∈ s.rest.head?, p c = false) :
    (char p).results s = [] := by
  obtain ⟨rest, captures⟩ := s
  cases rest with
  | nil => rfl
  | cons c rest => simp [results, h c rfl]

theorem first_star_char (hcs : ∀ c ∈ cs, p c) (hrest : ∀ c ∈ rest.head?, p c = false)
    (captures : Captures) :
    First (star (char p)) ⟨cs ++ rest, captures⟩ ⟨rest, captures⟩ := by
  have hrun := first_star_run (f := fun _ k => k)
    (fun c rest captures h => first_char h rest captures) (fun s => results_char_stop) hcs hrest
    captures
  rwa [List.foldl_fixed] at hrun

/-- `[p]+` takes the run. -/
theorem first_plus_char (hne : cs ≠ []) (hcs : ∀ c ∈ cs, p c)
    (hrest : ∀ c ∈ rest.head?, p c = false) (captures : Captures) :
    First (plus (char p)) ⟨cs ++ rest, captures⟩ ⟨rest, captures⟩ := by
  have hrun := first_plus_run (f := fun _ k => k)
    (fun c rest captures h => first_char h rest captures) (fun s => results_char_stop) hne hcs
    hrest captures
  rwa [List.foldl_fixed] at hrun

theorem foldl_update (n : ℕ) (hne : cs ≠ []) (captures : Captures) :
    cs.foldl (fun k c => Function.update k n (some [c])) captures
      = Function.update captures n (some [cs.getLast hne]) := by
  induction cs generalizing captures with
  | nil => exact absurd rfl hne
  | cons c cs ih =>
    cases cs with
    | nil => rfl
    | cons d cs =>
      rw [List.foldl_cons, ih (List.cons_ne_nil d cs), Function.update_idem]
      rfl

/-- **`([p])+` captures the last character of the run.** -/
theorem first_plus_group (n : ℕ) (hne : cs ≠ []) (hcs : ∀ c ∈ cs, p c)
    (hrest : ∀ c ∈ rest.head?, p c = false) (captures : Captures) :
    First (plus (group n (char p))) ⟨cs ++ rest, captures⟩
      ⟨rest, Function.update captures n (some [cs.getLast hne])⟩ := by
  rw [← foldl_update n hne captures]
  refine first_plus_run (f := fun c k => Function.update k n (some [c])) ?_ ?_ hne hcs hrest
    captures
  · intro c rest captures h
    exact first_group [c] (first_char h rest captures)
  · intro s h
    rw [results, results_char_stop h, List.map_nil]

/-- `[p]{n}` takes `n` characters. -/
theorem first_times_char (hcs : ∀ c ∈ cs, p c) (captures : Captures) :
    First (times (char p) cs.length) ⟨cs ++ rest, captures⟩ ⟨rest, captures⟩ := by
  induction cs with
  | nil => exact first_empty _
  | cons c cs ih =>
    have hc : p c := hcs c List.mem_cons_self
    exact first_seq (first_char hc _ captures) (ih fun d hd => hcs d (List.mem_cons_of_mem c hd))

end Runs

end First

/-! ## Searching -/

/-- What a search finds: the text around the match, and the captures. -/
structure Found where
  before : List Char
  captures : Captures
  after : List Char

/-- The match at the start of the text, as with `^` in front. -/
def searchStart (r : Regex) (text : List Char) : Option Found :=
  (r.results ⟨text, fun _ => none⟩).head?.map fun t => ⟨[], t.captures, t.rest⟩

/-- The leftmost match. -/
def search (r : Regex) : List Char → Option Found
  | [] => searchStart r []
  | c :: text =>
    searchStart r (c :: text) <|>
      (search r text).map fun found => { found with before := c :: found.before }

variable {r : Regex} {text : List Char} {t : Scan}

theorem searchStart_of_first (h : First r ⟨text, fun _ => none⟩ t) :
    searchStart r text = some ⟨[], t.captures, t.rest⟩ := by
  rw [searchStart, h]
  rfl

/-- **A match at the start is the leftmost.** -/
theorem search_of_first (h : First r ⟨text, fun _ => none⟩ t) :
    search r text = some ⟨[], t.captures, t.rest⟩ := by
  cases text with
  | nil => exact searchStart_of_first h
  | cons c text =>
    rw [search, searchStart_of_first h]
    rfl

end Regex

end Machinery
