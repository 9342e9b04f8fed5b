import Mathlib.Algebra.Group.Nat.Defs
import Mathlib.Data.List.Induction
import M57Card.Lib.CacheHash

/-!
# The vectors of a block, by key

The router files the parts of a block in a table (`spm_hash.c`): under each key the table has up to
`MAX_SPM_HASH_DATA` vectors and the number of bytes sent for the key. The table is a `cache_hash`
(`utils/hash.c`), which is reached in three ways: `hash_lookup`, which refuses the key zero as a
missing argument, `HASH_FIND_INT` and `HASH_ITER`, which take every key.

A history of the operations on a table has the result of each of them. `held` reads from a history
which vectors a key should have: those accepted since the key was last cleared or deleted. For every
key but zero this is what the table has after every history, by both ways of visiting the vectors;
for the key zero it is so only as long as the table has no entry for it, because the second vector
finds no entry to be appended to and cannot be inserted either.

## Main definitions

* `hashLookup`, `hashInsert` : the functions of `utils/hash.c`.
* `spmHashRenew`, `spmHashInsert`, `spmClearAllHash`, `spmHashDeleteItem`, `spmHashDelete`,
  `spmHashSetSendbytes`, `spmHashDoForEach`, `spmHashDoForEachVec`.
* `SpmOp`, `SpmOp.run`, `runOps` : histories.
* `held`, `Serves` : what a key should have, and the contract of the table for a key.

## Main results

* `vecs_runOps` : after every history the table has the vectors that the history says.
* `serves_iff` : the keys for which the contract holds after a history.
-/

namespace M57Card.Uplink

/-! ### `utils/hash.c` -/

section CacheHash

variable {α : Type}

/-- `hash_lookup`: the key zero is refused like a missing argument. -/
def hashLookup (t : CacheHash α) (key : ℤ) : Option α := if key = 0 then none else t.find key

/-- `hash_insert`: a full table and a key that has an entry are refused. -/
def hashInsert (t : CacheHash α) (key : ℤ) (data : α) : CacheHash α × ℤ :=
  if t.maxEntries ≤ t.count then
    (t, -1)
  else
    match t.find key with
    | none => (t.add key data, 0)
    | some _ => (t, -1)

theorem hashLookup_of_ne {key : ℤ} (h : key ≠ 0) (t : CacheHash α) :
    hashLookup t key = t.find key := if_neg h

/-- An insertion adds an entry or changes nothing. -/
theorem hashInsert_cases (t : CacheHash α) (key : ℤ) (data : α) :
    t.count < t.maxEntries ∧ t.find key = none ∧ hashInsert t key data = (t.add key data, 0) ∨
      (t.maxEntries ≤ t.count ∨ t.find key ≠ none) ∧ hashInsert t key data = (t, -1) := by
  unfold hashInsert
  split_ifs with hfull
  · exact .inr ⟨.inl hfull, rfl⟩
  · cases hfind : t.find key with
    | none => exact .inl ⟨not_le.mp hfull, rfl, rfl⟩
    | some a => exact .inr ⟨.inr (Option.some_ne_none a), rfl⟩

end CacheHash

/-! ### `spm_hash.c` -/

/-- `MAX_SPM_RANDOM_ENTRIES`. -/
def MAX_SPM_RANDOM_ENTRIES : ℕ := 8192

/-- `MAX_SPM_HASH_DATA`. -/
def MAX_SPM_HASH_DATA : ℕ := 65536

/-- `struct _hash_data`: `data` has the first `cnt` vectors. -/
structure HashData (V : Type) where
  data : List V
  sendBytes : ℕ := 0
  deriving DecidableEq

/-- The table of a channel. -/
abbrev SpmHash (V : Type) : Type := CacheHash (HashData V)

section SpmHash

variable {V : Type}

/-- `spm_hash_create`. -/
def spmHashCreate : SpmHash V := { maxEntries := MAX_SPM_RANDOM_ENTRIES, entries := ∅ }

/-- `spm_hash_insert`. -/
def spmHashInsert (t : SpmHash V) (key : ℤ) (v : V) : SpmHash V × ℤ :=
  hashInsert t key { data := [v] }

/-- `spm_hash_renew`: a vector is appended to the entry that `hash_lookup` finds; without one, a new
entry is inserted. -/
def spmHashRenew (t : SpmHash V) (key : ℤ) (v : V) : SpmHash V × ℤ :=
  match hashLookup t key with
  | none =>
      let (t', rv) := spmHashInsert t key v
      if rv = 0 then (t', 1) else (t', -1)
  | some d =>
      if MAX_SPM_HASH_DATA ≤ d.data.length then
        (t, -1)
      else
        (t.modify key fun d => { d with data := d.data ++ [v] }, d.data.length + 1)

/-- `_spm_hash_clear_vec_data`, through `HASH_FIND_INT`. -/
def spmHashClearVecData (t : SpmHash V) (key : ℤ) : SpmHash V :=
  t.modify key fun d => { d with data := [] }

/-- `spm_clear_all_hash`: the keys of the table are visited one after the other. -/
def spmClearAllHash (t : SpmHash V) : SpmHash V :=
  (t.forEach.map Prod.fst).foldl spmHashClearVecData t

/-- `spm_hash_delete_item`. -/
def spmHashDeleteItem (t : SpmHash V) (key : ℤ) : SpmHash V := t.remove key

/-- `spm_hash_delete`. -/
def spmHashDelete (t : SpmHash V) : SpmHash V := t.clear

/-- `spm_hash_set_sendbytes` on the entry of a key. -/
def spmHashSetSendbytes (t : SpmHash V) (key : ℤ) (bytes : ℕ) : SpmHash V :=
  t.modify key fun d => { d with sendBytes := (d.sendBytes + bytes) % 2 ^ 64 }

/-- `spm_hash_do_for_each`: the keys and the vectors that the callback gets, in their order. -/
def spmHashDoForEach (t : SpmHash V) : List (ℤ × V) :=
  t.forEach.flatMap fun p => p.2.data.map fun v => (p.1, v)

/-- `spm_hash_do_for_each_vec`: the vectors that the callback gets; `none` when the function
returns before its loop. -/
def spmHashDoForEachVec (t : SpmHash V) (key : ℤ) : Option (List V) :=
  (hashLookup t key).map HashData.data

/-- The bytes sent for a key, `none` without an entry. -/
def sendBytes (t : SpmHash V) (key : ℤ) : Option ℕ := (t.find key).map HashData.sendBytes

/-- The vectors that the table has for a key. -/
def vecs (t : SpmHash V) (key : ℤ) : List V := ((t.find key).map HashData.data).getD []

/-- What `spm_hash_renew` can do: insert an entry, append to one, or refuse and change nothing. -/
theorem spmHashRenew_cases (t : SpmHash V) (key : ℤ) (v : V) :
    (t.count < t.maxEntries ∧ t.find key = none ∧
        spmHashRenew t key v = (t.add key { data := [v] }, 1)) ∨
      (∃ d, hashLookup t key = some d ∧ d.data.length < MAX_SPM_HASH_DATA ∧
        spmHashRenew t key v =
          (t.modify key fun d => { d with data := d.data ++ [v] }, (d.data.length : ℤ) + 1)) ∨
      ((hashLookup t key = none ∧ (t.maxEntries ≤ t.count ∨ t.find key ≠ none) ∨
          ∃ d, hashLookup t key = some d ∧ MAX_SPM_HASH_DATA ≤ d.data.length) ∧
        spmHashRenew t key v = (t, -1)) := by
  cases hlook : hashLookup t key with
  | none =>
    rcases hashInsert_cases t key { data := [v] } with ⟨hroom, hnone, hins⟩ | ⟨hrefuse, hins⟩
    · refine .inl ⟨hroom, hnone, ?_⟩
      simp only [spmHashRenew, hlook, spmHashInsert, hins, if_true]
    · refine .inr (.inr ⟨.inl ⟨rfl, hrefuse⟩, ?_⟩)
      simp only [spmHashRenew, hlook, spmHashInsert, hins]
      rfl
  | some d =>
    by_cases hfull : MAX_SPM_HASH_DATA ≤ d.data.length
    · refine .inr (.inr ⟨.inr ⟨d, rfl, hfull⟩, ?_⟩)
      simp only [spmHashRenew, hlook, hfull, if_true]
    · refine .inr (.inl ⟨d, rfl, not_le.mp hfull, ?_⟩)
      simp only [spmHashRenew, hlook, hfull, if_false]

/-! ### What the operations do to the vectors of a key -/

theorem vecs_of_find_none {t : SpmHash V} {key : ℤ} (h : t.find key = none) : vecs t key = [] := by
  rw [vecs, h]
  rfl

theorem vecs_add (t : SpmHash V) (key k : ℤ) (v : V) (h : t.find key = none) :
    vecs (t.add key { data := [v] }) k = if k = key then vecs t k ++ [v] else vecs t k := by
  split_ifs with hk
  · subst hk
    rw [vecs_of_find_none h, vecs, CacheHash.find_add]
    rfl
  · rw [vecs, CacheHash.find_add_ne _ hk, vecs]

theorem vecs_modify_append (t : SpmHash V) (key k : ℤ) (v : V) (h : t.find key ≠ none) :
    vecs (t.modify key fun d => { d with data := d.data ++ [v] }) k =
      if k = key then vecs t k ++ [v] else vecs t k := by
  rw [vecs, CacheHash.find_modify]
  split_ifs with hk
  · subst hk
    obtain ⟨d, hd⟩ := Option.ne_none_iff_exists'.mp h
    rw [vecs, hd]
    rfl
  · rfl

theorem find_spmClearAllHash (t : SpmHash V) (key : ℤ) :
    (spmClearAllHash t).find key = (t.find key).map fun d => { d with data := [] } := by
  have hfold := CacheHash.find_foldl_modify t (f := fun d : HashData V => { d with data := [] })
    (fun _ => rfl) (t.forEach.map Prod.fst) key
  have hmem : key ∈ t.forEach.map Prod.fst ↔ t.find key ≠ none := by
    rw [← CacheHash.mem_keys_iff, CacheHash.forEach, List.map_map, AList.keys, List.keys]
    simp only [List.mem_map, List.mem_reverse, Function.comp_apply]
  change (spmClearAllHash t).find key = _ at hfold
  rw [hfold]
  split_ifs with hin
  · rfl
  · rw [hmem, not_not] at hin
    rw [hin]
    rfl

theorem vecs_spmClearAllHash (t : SpmHash V) (key : ℤ) : vecs (spmClearAllHash t) key = [] := by
  rw [vecs, find_spmClearAllHash]
  cases t.find key <;> rfl

theorem sendBytes_spmClearAllHash (t : SpmHash V) (key : ℤ) :
    sendBytes (spmClearAllHash t) key = sendBytes t key := by
  rw [sendBytes, find_spmClearAllHash, sendBytes]
  cases t.find key <;> rfl

theorem vecs_spmHashSetSendbytes (t : SpmHash V) (key k : ℤ) (bytes : ℕ) :
    vecs (spmHashSetSendbytes t key bytes) k = vecs t k := by
  rw [vecs, spmHashSetSendbytes, CacheHash.find_modify, vecs]
  split_ifs
  · cases t.find k <;> rfl
  · rfl

/-- The vectors of a key that an iteration over the whole table meets. -/
theorem filter_spmHashDoForEach (t : SpmHash V) (key : ℤ) :
    ((spmHashDoForEach t).filter fun p => p.1 = key).map Prod.snd = vecs t key := by
  have hlist (l : List (ℤ × HashData V)) :
      ((l.flatMap fun p => p.2.data.map fun v => (p.1, v)).filter fun p => p.1 = key).map Prod.snd =
        (l.filterMap fun p => if p.1 = key then some p.2 else none).flatMap HashData.data := by
    induction l with
    | nil => rfl
    | cons p l ih =>
      obtain ⟨k, d⟩ := p
      rw [List.flatMap_cons, List.filter_append, List.map_append, ih, List.filter_map, List.map_map]
      by_cases hk : k = key
      · simp only [List.filterMap_cons, hk, if_true, List.flatMap_cons]
        simp [Function.comp_def]
      · simp only [List.filterMap_cons, hk, if_false]
        simp [Function.comp_def, hk]
  rw [spmHashDoForEach, hlist, CacheHash.filterMap_forEach, vecs]
  cases t.find key with
  | none => rfl
  | some d => exact List.append_nil _

/-! ### Histories -/

/-- The operations on a table. -/
inductive SpmOp (V : Type) where
  | renew (key : ℤ) (v : V)
  | insert (key : ℤ) (v : V)
  | clear
  | deleteItem (key : ℤ)
  | delete
  | setSendbytes (key : ℤ) (bytes : ℕ)
  deriving DecidableEq

/-- The table after an operation, and the result of the operation. -/
def SpmOp.run (t : SpmHash V) : SpmOp V → SpmHash V × ℤ
  | .renew key v => spmHashRenew t key v
  | .insert key v => spmHashInsert t key v
  | .clear => (spmClearAllHash t, 0)
  | .deleteItem key => (spmHashDeleteItem t key, 0)
  | .delete => (spmHashDelete t, 0)
  | .setSendbytes key bytes => (spmHashSetSendbytes t key bytes, 0)

/-- A new table after some operations, with the history of their results. -/
def runOps (ops : List (SpmOp V)) : SpmHash V × List (SpmOp V × ℤ) :=
  ops.foldl (fun s op => ((op.run s.1).1, s.2 ++ [(op, (op.run s.1).2)])) (spmHashCreate, [])

/-- The vectors that a key should have after one more operation. -/
def heldStep (key : ℤ) (vs : List V) : SpmOp V × ℤ → List V
  | (.renew k v, r) => if k = key ∧ 0 < r then vs ++ [v] else vs
  | (.insert k v, r) => if k = key ∧ r = 0 then vs ++ [v] else vs
  | (.clear, _) => []
  | (.deleteItem k, _) => if k = key then [] else vs
  | (.delete, _) => []
  | (.setSendbytes _ _, _) => vs

/-- The vectors that a key should have after a history: those accepted since the key was last
cleared or deleted, in their order. -/
def held (key : ℤ) (h : List (SpmOp V × ℤ)) : List V := h.foldl (heldStep key) []

/-- An operation does to the vectors of every key what its result says. -/
theorem vecs_run (t : SpmHash V) (op : SpmOp V) (key : ℤ) :
    vecs (op.run t).1 key = heldStep key (vecs t key) (op, (op.run t).2) := by
  cases op with
  | renew k v =>
    rw [SpmOp.run]
    rcases spmHashRenew_cases t k v with ⟨-, hnone, heq⟩ | ⟨d, hlook, -, heq⟩ | ⟨-, heq⟩
    · rw [heq, vecs_add t k key v hnone]
      simp only [heldStep, eq_comm, Int.one_pos, and_true]
    · have hfind : t.find k ≠ none := by
        rintro hnone
        rw [hashLookup, hnone, ite_self] at hlook
        cases hlook
      have hpos : (0 : ℤ) < (d.data.length : ℤ) + 1 := by omega
      rw [heq, vecs_modify_append t k key v hfind]
      simp only [heldStep, eq_comm, hpos, and_true]
    · have hneg : ¬ (0 : ℤ) < -1 := by decide
      rw [heq]
      simp only [heldStep, hneg, and_false, if_false]
  | insert k v =>
    rw [SpmOp.run, spmHashInsert]
    rcases hashInsert_cases t k { data := [v] } with ⟨-, hnone, heq⟩ | ⟨-, heq⟩
    · rw [heq, vecs_add t k key v hnone]
      simp only [heldStep, eq_comm, and_true]
    · have hneg : ¬ (-1 : ℤ) = 0 := by decide
      rw [heq]
      simp only [heldStep, hneg, and_false, if_false]
  | clear => exact vecs_spmClearAllHash t key
  | deleteItem k =>
    rw [SpmOp.run, heldStep, spmHashDeleteItem]
    split_ifs with hk
    · subst hk
      exact vecs_of_find_none (t.find_remove k)
    · rw [vecs, CacheHash.find_remove_ne _ (Ne.symm hk), vecs]
  | delete => exact vecs_of_find_none (t.find_clear key)
  | setSendbytes k bytes => exact vecs_spmHashSetSendbytes t k key bytes

theorem maxEntries_run (t : SpmHash V) (op : SpmOp V) :
    (op.run t).1.maxEntries = t.maxEntries := by
  cases op with
  | renew k v =>
    rw [SpmOp.run]
    rcases spmHashRenew_cases t k v with ⟨-, -, heq⟩ | ⟨d, -, -, heq⟩ | ⟨-, heq⟩
    · exact congrArg (fun r => r.1.maxEntries) heq
    · exact congrArg (fun r => r.1.maxEntries) heq
    · exact congrArg (fun r => r.1.maxEntries) heq
  | insert k v =>
    rw [SpmOp.run, spmHashInsert]
    rcases hashInsert_cases t k { data := [v] } with ⟨-, -, heq⟩ | ⟨-, heq⟩
    · exact congrArg (fun r => r.1.maxEntries) heq
    · exact congrArg (fun r => r.1.maxEntries) heq
  | clear =>
    have hfold (ks : List ℤ) (t : SpmHash V) :
        (ks.foldl spmHashClearVecData t).maxEntries = t.maxEntries := by
      induction ks generalizing t with
      | nil => rfl
      | cons k ks ih => exact ih _
    exact hfold _ t
  | deleteItem k => rfl
  | delete => rfl
  | setSendbytes k bytes => rfl

/-- After every history the table has the vectors that the history says, and its bound. -/
theorem vecs_runOps (ops : List (SpmOp V)) :
    (runOps ops).1.maxEntries = MAX_SPM_RANDOM_ENTRIES ∧
      ∀ key, vecs (runOps ops).1 key = held key (runOps ops).2 := by
  induction ops using List.reverseRecOn with
  | nil => exact ⟨rfl, fun key => rfl⟩
  | append_singleton ops op ih =>
    obtain ⟨hmax, hvecs⟩ := ih
    have hlast : runOps (ops ++ [op]) = ((op.run (runOps ops).1).1,
        (runOps ops).2 ++ [(op, (op.run (runOps ops).1).2)]) := by
      rw [runOps, List.foldl_append]
      rfl
    rw [hlast]
    refine ⟨(maxEntries_run _ op).trans hmax, fun key => ?_⟩
    rw [vecs_run, hvecs, held, held, List.foldl_append]
    rfl

/-! ### The contract of a key -/

/-- The contract of the table for a key, with a history of results: both ways of visiting the
vectors meet those that the key should have, a vector is accepted as long as there is room for it,
a refused vector changes nothing, and the bytes sent survive a clearing. -/
structure Serves (t : SpmHash V) (h : List (SpmOp V × ℤ)) (key : ℤ) : Prop where
  forEach : ((spmHashDoForEach t).filter fun p => p.1 = key).map Prod.snd = held key h
  forEachVec : (spmHashDoForEachVec t key).getD [] = held key h
  accepts (v : V) : (held key h).length < MAX_SPM_HASH_DATA →
    t.find key ≠ none ∨ t.count < MAX_SPM_RANDOM_ENTRIES → 0 < (spmHashRenew t key v).2
  refuses (v : V) : (spmHashRenew t key v).2 ≤ 0 → (spmHashRenew t key v).1 = t
  sendBytes : Uplink.sendBytes (spmClearAllHash t) key = Uplink.sendBytes t key

/-- A refused vector changes nothing. -/
theorem spmHashRenew_of_refused {t : SpmHash V} {key : ℤ} {v : V}
    (h : (spmHashRenew t key v).2 ≤ 0) : (spmHashRenew t key v).1 = t := by
  rcases spmHashRenew_cases t key v with ⟨-, -, heq⟩ | ⟨d, -, -, heq⟩ | ⟨-, heq⟩
  · rw [heq] at h
    exact absurd h (show ¬ (1 : ℤ) ≤ 0 by decide)
  · rw [heq] at h
    dsimp only at h
    omega
  · rw [heq]

/-- A vector is accepted as long as there is room for it, under every key that `hash_lookup`
takes. -/
theorem spmHashRenew_pos {t : SpmHash V} {key : ℤ} (hkey : key ≠ 0 ∨ t.find key = none) (v : V)
    (hdata : (vecs t key).length < MAX_SPM_HASH_DATA)
    (hroom : t.find key ≠ none ∨ t.count < t.maxEntries) : 0 < (spmHashRenew t key v).2 := by
  rcases spmHashRenew_cases t key v with ⟨-, -, heq⟩ | ⟨d, -, -, heq⟩ | ⟨hwhy, heq⟩
  · rw [heq]
    exact Int.one_pos
  · rw [heq]
    dsimp only
    omega
  · exfalso
    rcases hwhy with ⟨hlook, hfull⟩ | ⟨d, hlook, hfull⟩
    · have hnone : t.find key = none := by
        rcases hkey with hne | hnone
        · rwa [hashLookup_of_ne hne] at hlook
        · exact hnone
      rcases hfull with hle | hsome
      · rcases hroom with hsome | hlt
        · exact hsome hnone
        · omega
      · exact hsome hnone
    · have hfind : t.find key = some d := by
        rw [hashLookup] at hlook
        split_ifs at hlook
        exact hlook
      rw [vecs, hfind] at hdata
      exact absurd hdata (not_lt.mpr hfull)

/-- **The keys that the table serves.** After every history the contract of the table holds for
exactly the keys other than zero, and for zero as long as the table has no entry for it. -/
theorem serves_iff [Inhabited V] (ops : List (SpmOp V)) (key : ℤ) :
    Serves (runOps ops).1 (runOps ops).2 key ↔ key ≠ 0 ∨ (runOps ops).1.find key = none := by
  obtain ⟨hmax, hvecs⟩ := vecs_runOps ops
  generalize runOps ops = s at hmax hvecs
  obtain ⟨t, h⟩ := s
  dsimp only at hmax hvecs ⊢
  constructor
  · rintro hserves
    by_contra hcon
    push Not at hcon
    obtain ⟨rfl, hfind⟩ := hcon
    have hlook : hashLookup t 0 = none := if_pos rfl
    have hheld : held 0 h = [] := by
      rw [← hserves.forEachVec, spmHashDoForEachVec, hlook]
      rfl
    have hpos := hserves.accepts default (by rw [hheld]; exact Nat.zero_lt_succ _) (.inl hfind)
    rcases spmHashRenew_cases t 0 default with ⟨-, hnone, -⟩ | ⟨d, hsome, -, -⟩ | ⟨-, heq⟩
    · exact hfind hnone
    · rw [hlook] at hsome
      cases hsome
    · rw [heq] at hpos
      exact absurd hpos (show ¬ (0 : ℤ) < -1 by decide)
  · rintro hkey
    have hlook : (spmHashDoForEachVec t key).getD [] = vecs t key := by
      rw [spmHashDoForEachVec, vecs]
      rcases hkey with hne | hnone
      · rw [hashLookup_of_ne hne]
      · rw [hashLookup, hnone, ite_self]
    exact
      { forEach := (filter_spmHashDoForEach t key).trans (hvecs key)
        forEachVec := hlook.trans (hvecs key)
        accepts := fun v hdata hroom =>
          spmHashRenew_pos hkey v (by rwa [hvecs key]) (by rwa [hmax])
        refuses := fun v hle => spmHashRenew_of_refused hle
        sendBytes := sendBytes_spmClearAllHash t key }

end SpmHash

/-- After one vector under the key zero, a visit of that key meets nothing. -/
theorem not_serves_zero :
    ¬ Serves (runOps [SpmOp.renew 0 (7 : ℕ)]).1 (runOps [SpmOp.renew 0 (7 : ℕ)]).2 0 := by
  intro h
  have hvec := h.forEachVec
  revert hvec
  decide

end M57Card.Uplink
