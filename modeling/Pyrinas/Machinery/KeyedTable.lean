import Mathlib.Data.Finmap

/-!
# Machinery/KeyedTable — a table that is searched by key, and the map it stands for

    [(a, 1), (b, 2)]  upsert (a, 3) ──▸ [(a, 3), (b, 2)]  upsert (c, 4) ──▸ [(a, 3), (b, 2), (c, 4)]

An entry replaces the one with its key or goes to the end, so the keys stay distinct and looking one
up finds what was put under it last.  `insertWithin` says the same of a map that takes new keys only
up to a capacity.
-/

namespace Machinery

variable {ε κ α : Type*} [DecidableEq κ]

section Table

variable (key : ε → κ)

/-- Where the first entry with a key is. -/
def searchKey (l : List ε) (k : κ) : Option ℕ := l.findIdx? fun a => key a = k

/-- The first entry with a key. -/
def entryFor (l : List ε) (k : κ) : Option ε := (searchKey key l k).bind fun i => l[i]?

/-- Replace the entry with the same key, or append. -/
def upsert (l : List ε) (e : ε) : List ε :=
  match searchKey key l (key e) with
  | some i => l.set i e
  | none => l ++ [e]

variable {key}

@[simp] theorem entryFor_nil (k : κ) : entryFor key [] k = none := rfl

theorem searchKey_cons (a : ε) (l : List ε) (k : κ) :
    searchKey key (a :: l) k = if key a = k then some 0 else (searchKey key l k).map (· + 1) := by
  simp [searchKey, List.findIdx?_cons]

@[simp] theorem entryFor_cons (a : ε) (l : List ε) (k : κ) :
    entryFor key (a :: l) k = if key a = k then some a else entryFor key l k := by
  unfold entryFor
  rw [searchKey_cons]
  split_ifs
  · rfl
  · cases searchKey key l k <;> rfl

@[simp] theorem upsert_nil (e : ε) : upsert key [] e = [e] := rfl

@[simp] theorem upsert_cons (a : ε) (l : List ε) (e : ε) :
    upsert key (a :: l) e = if key a = key e then e :: l else a :: upsert key l e := by
  unfold upsert
  rw [searchKey_cons]
  split_ifs
  · rfl
  · cases searchKey key l (key e) <;> rfl

theorem entryFor_eq_none_iff {l : List ε} {k : κ} :
    entryFor key l k = none ↔ k ∉ l.map key := by
  induction l with
  | nil => simp
  | cons a l ih =>
    rw [entryFor_cons, List.map_cons, List.mem_cons, not_or, ← ih]
    split_ifs with h
    · simp [h]
    · simp [Ne.symm h]

/-- **Looking up finds what was put last.** -/
theorem entryFor_upsert (l : List ε) (e : ε) (k : κ) :
    entryFor key (upsert key l e) k = if key e = k then some e else entryFor key l k := by
  induction l with
  | nil => simp
  | cons a l ih =>
    by_cases hae : key a = key e
    · rw [upsert_cons, if_pos hae, entryFor_cons, entryFor_cons, hae]
      split_ifs <;> rfl
    · simp only [upsert_cons, if_neg hae, entryFor_cons, ih]
      split_ifs with hak hek
      · exact absurd (hak.trans hek.symm) hae
      all_goals rfl

/-- A new key goes behind the others. -/
theorem map_key_upsert (l : List ε) (e : ε) :
    (upsert key l e).map key
      = if key e ∈ l.map key then l.map key else l.map key ++ [key e] := by
  induction l with
  | nil => simp
  | cons a l ih =>
    by_cases hae : key a = key e
    · simp [hae]
    · have hea : key e ≠ key a := Ne.symm hae
      simp only [upsert_cons, if_neg hae, List.map_cons, ih, List.mem_cons, hea, false_or]
      split_ifs <;> rfl

/-- **The keys stay distinct.** -/
theorem nodup_upsert {l : List ε} (h : (l.map key).Nodup) (e : ε) :
    ((upsert key l e).map key).Nodup := by
  rw [map_key_upsert]
  split_ifs with hmem
  · exact h
  · exact List.Nodup.append h (List.nodup_singleton _) (by simpa using hmem)

end Table

/-! ## The map -/

/-- Put a value under a key: a key that is there gets the new value, and another one is taken while
there are less than `cap`. -/
def insertWithin (cap : ℕ) (k : κ) (v : α) (m : Finmap fun _ : κ => α) : Finmap fun _ : κ => α :=
  if k ∈ m ∨ m.keys.card < cap then m.insert k v else m

/-- A table with distinct keys, and the map from keys to values that it stands for. -/
structure Represents (key : ε → κ) (val : ε → α) (l : List ε) (m : Finmap fun _ : κ => α) :
    Prop where
  distinct : (l.map key).Nodup
  lookup : ∀ k, (entryFor key l k).map val = m.lookup k

namespace Represents

variable {key : ε → κ} {val : ε → α} {l : List ε} {m : Finmap fun _ : κ => α}

theorem nil : Represents key val [] ∅ := ⟨List.nodup_nil, fun _ => rfl⟩

theorem mem_iff (h : Represents key val l m) {k : κ} : k ∈ m ↔ k ∈ l.map key := by
  rw [← not_iff_not, ← Finmap.lookup_eq_none, ← h.lookup, Option.map_eq_none_iff,
    entryFor_eq_none_iff]

/-- As many keys as entries. -/
theorem card_keys (h : Represents key val l m) : m.keys.card = l.length := by
  have hkeys : m.keys = (l.map key).toFinset := by
    ext k
    rw [Finmap.mem_keys, h.mem_iff, List.mem_toFinset]
  rw [hkeys, List.toFinset_card_of_nodup h.distinct, List.length_map]

/-- **An upsert is an insert.** -/
theorem upsert (h : Represents key val l m) (e : ε) :
    Represents key val (upsert key l e) (m.insert (key e) (val e)) := by
  refine ⟨nodup_upsert h.distinct e, ?_⟩
  intro k
  rw [entryFor_upsert]
  split_ifs with hk
  · subst hk
    exact (Finmap.lookup_insert m).symm
  · rw [Finmap.lookup_insert_of_ne m (Ne.symm hk)]
    exact h.lookup k

end Represents

end Machinery
