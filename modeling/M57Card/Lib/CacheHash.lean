import Mathlib.Data.List.AList

/-!
# Bounded tables with integer keys

A table of at most `maxEntries` entries, each under its own integer key. The entries are an
association list without repeated keys, the newest first; operations that change an entry in place
keep its position.

## Main definitions

* `CacheHash`, `CacheHash.find`, `CacheHash.count`.
* `CacheHash.add`, `CacheHash.remove`, `CacheHash.clear`, `CacheHash.modify`.
* `CacheHash.forEach` : the entries in the order of their insertion.

## Main results

* `CacheHash.find_add`, `CacheHash.find_remove`, `CacheHash.find_modify` : what is found after an
  operation.
* `CacheHash.find_foldl_modify` : an operation on all entries, one key after the other.
* `CacheHash.filterMap_forEach` : an iteration meets each key once.
-/

namespace M57Card

/-- A table with integer keys and a bound on the number of its entries. -/
structure CacheHash (α : Type) where
  maxEntries : ℕ
  entries : AList fun _ : ℤ => α

namespace CacheHash

variable {α β : Type} (t : CacheHash α)

/-- The entry under a key. -/
def find (k : ℤ) : Option α := t.entries.lookup k

/-- The number of entries. -/
def count : ℕ := t.entries.keys.length

/-- The table with a new entry. -/
def add (k : ℤ) (a : α) : CacheHash α := { t with entries := t.entries.insert k a }

/-- The table without the entry of a key. -/
def remove (k : ℤ) : CacheHash α := { t with entries := t.entries.erase k }

/-- The table without entries. -/
def clear : CacheHash α := { t with entries := ∅ }

/-- Change the entry of a key in place. -/
def modify (k : ℤ) (f : α → α) : CacheHash α :=
  { t with
    entries :=
      { entries := t.entries.entries.map (.map id fun k' a => if k' = k then f a else a)
        nodupKeys := by
          have h := t.entries.nodupKeys
          rw [List.NodupKeys, List.keys] at h ⊢
          rwa [List.map_map] } }

/-- The keys and the entries in the order of their insertion. -/
def forEach : List (ℤ × α) := t.entries.entries.reverse.map fun e => (e.1, e.2)

@[simp] theorem find_add (k : ℤ) (a : α) : (t.add k a).find k = some a :=
  AList.lookup_insert _

theorem find_add_ne {k k' : ℤ} (h : k' ≠ k) (a : α) : (t.add k a).find k' = t.find k' :=
  AList.lookup_insert_ne h

@[simp] theorem find_remove (k : ℤ) : (t.remove k).find k = none :=
  AList.lookup_erase _ _

theorem find_remove_ne {k k' : ℤ} (h : k' ≠ k) : (t.remove k).find k' = t.find k' :=
  AList.lookup_erase_ne h

@[simp] theorem find_clear (k : ℤ) : t.clear.find k = none :=
  AList.lookup_empty k

theorem find_modify (k k' : ℤ) (f : α → α) :
    (t.modify k f).find k' = if k' = k then (t.find k').map f else t.find k' := by
  have h : (t.modify k f).find k' = (t.find k').map fun a => if k' = k then f a else a :=
    List.dlookup_map₂ k'
  rw [h]
  split_ifs
  · rfl
  · exact congrFun Option.map_id _

@[simp] theorem keys_modify (k : ℤ) (f : α → α) :
    (t.modify k f).entries.keys = t.entries.keys := by
  change ((t.entries.entries.map _).map Sigma.fst) = t.entries.entries.map Sigma.fst
  rw [List.map_map]
  rfl

theorem mem_keys_iff (k : ℤ) : k ∈ t.entries.keys ↔ t.find k ≠ none := by
  rw [← AList.mem_keys, find, Ne, AList.lookup_eq_none, not_not]

/-- An operation on the entries of some keys, one after the other. -/
theorem find_foldl_modify {f : α → α} (hf : ∀ a, f (f a) = f a) (ks : List ℤ) (k : ℤ) :
    (ks.foldl (fun t k => t.modify k f) t).find k =
      if k ∈ ks then (t.find k).map f else t.find k := by
  induction ks generalizing t with
  | nil => rfl
  | cons k' ks ih =>
    rw [List.foldl_cons, ih, find_modify]
    by_cases hk : k = k'
    · subst hk
      have hmem : k ∈ k :: ks := List.mem_cons_self
      rw [if_pos rfl, if_pos hmem, Option.map_map]
      have hff : f ∘ f = f := funext hf
      rw [hff, ite_self]
    · simp only [List.mem_cons, hk, false_or, if_false]

/-- An iteration meets a key once, with its entry. -/
theorem filterMap_forEach (k : ℤ) :
    (t.forEach.filterMap fun p => if p.1 = k then some p.2 else none) = (t.find k).toList := by
  have hall (l : List (Σ _ : ℤ, α)) :
      (l.filterMap fun e => if e.1 = k then some e.2 else none) = l.lookupAll k := by
    induction l with
    | nil => rfl
    | cons e l ih =>
      obtain ⟨k', a⟩ := e
      by_cases hk : k' = k
      · subst hk
        rw [List.lookupAll_cons_eq, ← ih]
        simp only [List.filterMap_cons, if_true]
      · rw [List.lookupAll_cons_ne _ _ (Ne.symm hk), ← ih]
        simp only [List.filterMap_cons, hk, if_false]
  have hone : t.entries.entries.lookupAll k = (t.find k).toList :=
    List.lookupAll_eq_dlookup k t.entries.nodupKeys
  rw [forEach, List.filterMap_map, List.filterMap_reverse]
  change (t.entries.entries.filterMap fun e => if e.1 = k then some e.2 else none).reverse = _
  rw [hall, hone]
  cases t.find k <;> rfl

end CacheHash

end M57Card
