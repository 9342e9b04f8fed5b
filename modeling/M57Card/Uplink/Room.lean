import Mathlib.Data.Finset.Card
import M57Card.Uplink.Dispatch

/-!
# Room in the table

The router passes the vectors of its blocks to the table one after the other, and the table can
refuse any of them: a new key finds no free entry, or the entry of a key has `MAX_SPM_HASH_DATA`
vectors. The vectors that the table has afterwards are those that it had and, behind them, those
that it has accepted (`vecs_renewAll`).

## Main definitions

* `HasRoom` : the table has room for a vector under each of some keys.
* `renewAll`, `accepted` : vectors that are filed one after the other, and those of them that the
  table accepts.
* `added` : the vectors that a call of the router puts into the table under a key.

## Main results

* `accepted_eq_self_iff` : the table accepts all vectors if and only if it has room for them.
* `added_eq` : the vectors that a call puts into the table.
-/

namespace M57Card.Uplink

open M57

/-- The table has room for a vector under each of the keys: their entries do not get too long, and
no further entry is needed, or there are enough. -/
def HasRoom {V : Type} (t : SpmHash V) (keys : List ℤ) : Prop :=
  (∀ k ∈ keys, (vecs t k).length + keys.count k ≤ MAX_SPM_HASH_DATA) ∧
    (t.entries.keys.toFinset ∪ keys.toFinset).card ≤ max t.maxEntries t.count

/-- Vectors are filed one after the other. -/
def renewAll {V : Type} (t : SpmHash V) (es : List (ℤ × V)) : SpmHash V :=
  es.foldl (fun t e => (spmHashRenew t e.1 e.2).1) t

/-- The vectors that the table accepts when they are filed one after the other. -/
def accepted {V : Type} (t : SpmHash V) : List (ℤ × V) → List (ℤ × V)
  | [] => []
  | e :: es =>
      if 0 < (spmHashRenew t e.1 e.2).2 then e :: accepted (spmHashRenew t e.1 e.2).1 es
      else accepted (spmHashRenew t e.1 e.2).1 es

section Table

variable {V : Type} {t : SpmHash V} {key : ℤ} {keys : List ℤ} {v : V} {es : List (ℤ × V)}

theorem hasRoom_nil (t : SpmHash V) : HasRoom t [] := by
  refine ⟨List.forall_mem_nil _, ?_⟩
  rw [List.toFinset_nil, Finset.union_empty, List.toFinset_card_of_nodup t.entries.keys_nodup]
  exact le_max_right _ _

/-- A new table has room for as many vectors as it can have entries. -/
theorem hasRoom_create (hlen : keys.length ≤ MAX_SPM_RANDOM_ENTRIES) :
    HasRoom (spmHashCreate : SpmHash V) keys := by
  refine ⟨fun k _ => ?_, le_max_of_le_left ?_⟩
  · have hnone : (vecs (spmHashCreate : SpmHash V) k).length = 0 := rfl
    have hmax : MAX_SPM_RANDOM_ENTRIES ≤ MAX_SPM_HASH_DATA := by decide
    rw [hnone, Nat.zero_add]
    exact List.count_le_length.trans (hlen.trans hmax)
  · have hkeys : (spmHashCreate : SpmHash V).entries.keys.toFinset = ∅ := rfl
    rw [hkeys, Finset.empty_union]
    exact (List.toFinset_card_le keys).trans hlen

/-- The keys of the table after a vector. -/
theorem mem_keys_spmHashRenew {k : ℤ} (h : k ∈ (spmHashRenew t key v).1.entries.keys) :
    k = key ∨ k ∈ t.entries.keys := by
  rcases spmHashRenew_cases t key v with ⟨-, -, heq⟩ | ⟨d, -, -, heq⟩ | ⟨-, heq⟩
  · rw [heq, CacheHash.add, AList.keys_insert] at h
    rcases List.mem_cons.mp h with rfl | hmem
    · exact .inl rfl
    · exact .inr (List.mem_of_mem_erase hmem)
  · rw [heq, CacheHash.keys_modify] at h
    exact .inr h
  · rw [heq] at h
    exact .inr h

/-- A vector is accepted if and only if the entry of its key is not too long, and there is one or
one can be added. -/
theorem spmHashRenew_pos_iff (hkey : key ≠ 0) :
    0 < (spmHashRenew t key v).2 ↔
      (vecs t key).length < MAX_SPM_HASH_DATA ∧ (t.find key ≠ none ∨ t.count < t.maxEntries) := by
  refine ⟨fun h => ?_, fun h => spmHashRenew_pos (.inl hkey) v h.1 h.2⟩
  rcases spmHashRenew_cases t key v with ⟨hroom, hnone, -⟩ | ⟨d, hlook, hlt, -⟩ | ⟨-, heq⟩
  · rw [vecs_of_find_none hnone]
    exact ⟨Nat.zero_lt_succ _, .inr hroom⟩
  · rw [hashLookup_of_ne hkey] at hlook
    rw [vecs, hlook]
    exact ⟨hlt, .inl (Option.some_ne_none d)⟩
  · rw [heq] at h
    exact absurd h (show ¬ (0 : ℤ) < -1 by decide)

/-- What a vector does to those of a key. -/
theorem vecs_spmHashRenew (t : SpmHash V) (key k : ℤ) (v : V) :
    vecs (spmHashRenew t key v).1 k =
      if key = k ∧ 0 < (spmHashRenew t key v).2 then vecs t k ++ [v] else vecs t k := by
  have hrun := vecs_run t (.renew key v) k
  rwa [heldStep] at hrun

/-- The keys of the table after a vector that is accepted. -/
theorem keys_spmHashRenew_of_pos (h : 0 < (spmHashRenew t key v).2) :
    (spmHashRenew t key v).1.entries.keys.toFinset = insert key t.entries.keys.toFinset := by
  rcases spmHashRenew_cases t key v with ⟨-, hnone, heq⟩ | ⟨d, hlook, -, heq⟩ | ⟨-, heq⟩
  · have hnot : key ∉ t.entries.keys := by
      rwa [CacheHash.mem_keys_iff, not_not]
    rw [heq, CacheHash.add, AList.keys_insert, List.erase_of_not_mem hnot, List.toFinset_cons]
  · have hmem : key ∈ t.entries.keys := by
      rw [hashLookup] at hlook
      split_ifs at hlook
      rw [CacheHash.mem_keys_iff, hlook]
      exact Option.some_ne_none d
    rw [heq, CacheHash.keys_modify, Finset.insert_eq_self.mpr (List.mem_toFinset.mpr hmem)]
  · rw [heq] at h
    exact absurd h (show ¬ (0 : ℤ) < -1 by decide)

theorem card_keys (t : SpmHash V) : t.entries.keys.toFinset.card = t.count :=
  List.toFinset_card_of_nodup t.entries.keys_nodup

/-- Room for some vectors is room for the first one, and then for the others. -/
theorem hasRoom_cons_iff (hkey : key ≠ 0) (v : V) :
    HasRoom t (key :: keys) ↔
      0 < (spmHashRenew t key v).2 ∧ HasRoom (spmHashRenew t key v).1 keys := by
  have hunion : t.entries.keys.toFinset ∪ (key :: keys).toFinset =
      insert key t.entries.keys.toFinset ∪ keys.toFinset := by
    rw [List.toFinset_cons, Finset.union_insert, Finset.insert_union]
  have hold : t.find key ≠ none → insert key t.entries.keys.toFinset = t.entries.keys.toFinset :=
    fun hfind => Finset.insert_eq_self.mpr (List.mem_toFinset.mpr ((t.mem_keys_iff key).mpr hfind))
  have hnew : t.find key = none →
      (insert key t.entries.keys.toFinset).card = t.count + 1 := by
    intro hnone
    have hnot : key ∉ t.entries.keys.toFinset := by
      rwa [List.mem_toFinset, CacheHash.mem_keys_iff, not_not]
    rw [Finset.card_insert_of_notMem hnot, card_keys]
  have hdata : 0 < (spmHashRenew t key v).2 →
      ((∀ k ∈ key :: keys, (vecs t k).length + (key :: keys).count k ≤ MAX_SPM_HASH_DATA) ↔
        ∀ k ∈ keys, (vecs (spmHashRenew t key v).1 k).length + keys.count k ≤
          MAX_SPM_HASH_DATA) := by
    intro hpos
    obtain ⟨hlt, -⟩ := (spmHashRenew_pos_iff hkey).mp hpos
    have hcount (k : ℤ) : (vecs t k).length + (key :: keys).count k =
        (vecs (spmHashRenew t key v).1 k).length + keys.count k := by
      rw [vecs_spmHashRenew, List.count_cons]
      simp only [beq_iff_eq, hpos, and_true]
      split_ifs
      · rw [List.length_append, List.length_singleton]
        omega
      · rfl
    rw [List.forall_mem_cons]
    simp only [hcount]
    refine and_iff_right_of_imp fun hall => ?_
    by_cases hmem : key ∈ keys
    · exact hall key hmem
    · rw [← hcount, List.count_cons_self, List.count_eq_zero_of_not_mem hmem]
      exact hlt
  have hcard : 0 < (spmHashRenew t key v).2 →
      ((t.entries.keys.toFinset ∪ (key :: keys).toFinset).card ≤ max t.maxEntries t.count ↔
        ((spmHashRenew t key v).1.entries.keys.toFinset ∪ keys.toFinset).card ≤
          max (spmHashRenew t key v).1.maxEntries (spmHashRenew t key v).1.count) := by
    intro hpos
    obtain ⟨-, hroom⟩ := (spmHashRenew_pos_iff hkey).mp hpos
    have hkeys := keys_spmHashRenew_of_pos hpos
    have hmax : (spmHashRenew t key v).1.maxEntries = t.maxEntries :=
      maxEntries_run t (.renew key v)
    rw [hunion, hmax, hkeys, ← card_keys (spmHashRenew t key v).1, hkeys]
    by_cases hfind : t.find key = none
    · -- a new entry: there was a free one
      have hlt := hroom.resolve_left (not_not.mpr hfind)
      rw [hnew hfind, max_eq_left hlt.le, max_eq_left (show t.count + 1 ≤ t.maxEntries from hlt)]
    · rw [hold hfind, card_keys]
  constructor
  · intro h
    have hpos : 0 < (spmHashRenew t key v).2 := by
      have hfirst := h.1 key List.mem_cons_self
      rw [List.count_cons_self] at hfirst
      refine (spmHashRenew_pos_iff hkey).mpr ⟨by omega, ?_⟩
      by_contra hfull
      rw [not_or, not_not, not_lt] at hfull
      have hsub : (insert key t.entries.keys.toFinset).card ≤
          (insert key t.entries.keys.toFinset ∪ keys.toFinset).card :=
        Finset.card_le_card Finset.subset_union_left
      have hle := h.2
      rw [hunion, max_eq_right hfull.2] at hle
      rw [hnew hfull.1] at hsub
      omega
    exact ⟨hpos, (hdata hpos).mp h.1, (hcard hpos).mp h.2⟩
  · rintro ⟨hpos, hvecs, hentries⟩
    exact ⟨(hdata hpos).mpr hvecs, (hcard hpos).mpr hentries⟩

theorem accepted_sublist (t : SpmHash V) (es : List (ℤ × V)) : (accepted t es).Sublist es := by
  induction es generalizing t with
  | nil => exact .slnil
  | cons e es ih =>
    rw [accepted]
    split_ifs
    · exact (ih _).cons_cons e
    · exact (ih _).cons e

/-- **The vectors of a key** after some vectors: those that the table had, and behind them those
that it has accepted. -/
theorem vecs_renewAll (t : SpmHash V) (es : List (ℤ × V)) (k : ℤ) :
    vecs (renewAll t es) k =
      vecs t k ++ ((accepted t es).filter fun e => e.1 = k).map Prod.snd := by
  induction es generalizing t with
  | nil => exact (List.append_nil _).symm
  | cons e es ih =>
    have hstep : vecs (renewAll t (e :: es)) k =
        vecs (renewAll (spmHashRenew t e.1 e.2).1 es) k := rfl
    rw [hstep, ih, vecs_spmHashRenew, accepted]
    by_cases hpos : 0 < (spmHashRenew t e.1 e.2).2
    · rw [if_pos hpos, List.filter_cons]
      simp only [hpos, and_true, decide_eq_true_eq]
      split_ifs
      · rw [List.map_cons, List.append_assoc]
        rfl
      · rfl
    · rw [if_neg hpos, if_neg fun h => hpos h.2]

/-- **The table accepts all vectors** if and only if it has room for them. -/
theorem accepted_eq_self_iff (hne : ∀ e ∈ es, e.1 ≠ 0) :
    accepted t es = es ↔ HasRoom t (es.map Prod.fst) := by
  induction es generalizing t with
  | nil => exact iff_of_true rfl (hasRoom_nil t)
  | cons e es ih =>
    obtain ⟨hkey, hne⟩ := List.forall_mem_cons.mp hne
    rw [List.map_cons, hasRoom_cons_iff hkey e.2, ← ih hne, accepted]
    split_ifs with hpos
    · rw [List.cons.injEq, and_iff_right rfl, and_iff_right hpos]
    · refine iff_of_false (fun heq => ?_) fun h => hpos h.1
      have hle := (accepted_sublist (spmHashRenew t e.1 e.2).1 es).length_le
      rw [heq, List.length_cons] at hle
      omega

theorem HasRoom.vecs_renewAll (h : HasRoom t (es.map Prod.fst)) (hne : ∀ e ∈ es, e.1 ≠ 0) (k : ℤ) :
    vecs (renewAll t es) k = vecs t k ++ (es.filter fun e => e.1 = k).map Prod.snd := by
  rw [Uplink.vecs_renewAll, (accepted_eq_self_iff hne).mpr h]

end Table

/-! ### The vectors that a call puts into the table -/

/-- The router files the vectors of its blocks one after the other. -/
theorem table_xdmaDataDispatcherBuffer (m : Mem) (cards : CardsStatus) (blocks : List (ℕ × ℕ))
    (u : Channel) :
    (xdmaDataDispatcherBuffer m cards blocks u).table =
      renewAll u.table (blocks.flatMap fun b =>
        (vectors m cards b.1 b.2).map (Segment.entry m)) := by
  have hload (ss : List Segment) (u : Channel) :
      (ss.foldl (Segment.load m) u).table = renewAll u.table (ss.map (Segment.entry m)) := by
    induction ss generalizing u with
    | nil => rfl
    | cons s ss ih => exact ih _
  induction blocks generalizing u with
  | nil => rfl
  | cons b blocks ih =>
    have hblock : (dispatchBlock m cards u b.1 b.2).table =
        renewAll u.table ((vectors m cards b.1 b.2).map (Segment.entry m)) := by
      rw [dispatchBlock, dispatchLoop_block]
      exact hload _ u
    rw [List.flatMap_cons, renewAll, List.foldl_append]
    refine (ih _).trans ?_
    rw [hblock]
    rfl

/-- The vectors that a call of the router puts into the table under a key: those behind the vectors
that the table had. -/
def added (m : Mem) (cards : CardsStatus) (blocks : List (ℕ × ℕ)) (u : Channel) (key : ℤ) :
    List Iovec :=
  (vecs (xdmaDataDispatcherBuffer m cards blocks u).table key).drop (vecs u.table key).length

section Added

variable {m : Mem} {cards : CardsStatus} {header len : ℕ} {u : Channel}

/-- The key of a frame of a card is not zero: the card slots start with two. -/
theorem hashId_ne_zero {sub : NetSub} (h : cards.isValidChipid sub.chipId = true) :
    sub.hashId ≠ 0 := by
  have hslot := cards.mem_cardSlots _ h
  have hpos : cardSlotNum sub.chipId ≠ 0 := by
    rintro hzero
    rw [hzero] at hslot
    exact absurd hslot (by decide)
  rw [NetSub.hashId, getHashmapId]
  omega

theorem entry_ne_zero {e : ℤ × Iovec}
    (he : e ∈ (vectors m cards header len).map (Segment.entry m)) : e.1 ≠ 0 := by
  obtain ⟨s, hs, rfl⟩ := List.mem_map.mp he
  exact hashId_ne_zero (eq_segmentAt_of_mem_vectors hs).2.2.1.2.2

/-- **What a block puts into the table**: the table keeps what it had, and has some of the vectors
of the block behind it, in their order; all of them if and only if it has room for them. -/
theorem added_eq (m : Mem) (cards : CardsStatus) (header len : ℕ) (u : Channel) :
    ∃ ss, ss.Sublist (vectors m cards header len) ∧
      (∀ k, vecs (xdmaDataDispatcherBuffer m cards [(header, len)] u).table k =
        vecs u.table k ++ added m cards [(header, len)] u k) ∧
      (∀ k, added m cards [(header, len)] u k =
        ((ss.map (Segment.entry m)).filter fun e => e.1 = k).map Prod.snd) ∧
      (ss = vectors m cards header len ↔
        HasRoom u.table
          ((vectors m cards header len).map fun s => (frameSub m s.start).hashId)) := by
  obtain ⟨ss, hsub, hss⟩ := List.sublist_map_iff.mp
    (accepted_sublist u.table ((vectors m cards header len).map (Segment.entry m)))
  have htable := table_xdmaDataDispatcherBuffer m cards [(header, len)] u
  rw [List.flatMap_singleton] at htable
  have hvecs (k : ℤ) : vecs (xdmaDataDispatcherBuffer m cards [(header, len)] u).table k =
      vecs u.table k ++ ((ss.map (Segment.entry m)).filter fun e => e.1 = k).map Prod.snd := by
    rw [htable, vecs_renewAll, hss]
  have hadded (k : ℤ) : added m cards [(header, len)] u k =
      ((ss.map (Segment.entry m)).filter fun e => e.1 = k).map Prod.snd := by
    rw [added, hvecs, List.drop_left]
  refine ⟨ss, hsub, fun k => (hvecs k).trans (congrArg _ (hadded k).symm), hadded, ?_⟩
  have hroom := accepted_eq_self_iff (t := u.table)
    (fun e (he : e ∈ (vectors m cards header len).map (Segment.entry m)) => entry_ne_zero he)
  rw [List.map_map, hss] at hroom
  refine Iff.trans ⟨fun h => congrArg _ h, fun h => ?_⟩ hroom
  refine hsub.eq_of_length ?_
  rw [← List.length_map (Segment.entry m), h, List.length_map]

end Added

end M57Card.Uplink
