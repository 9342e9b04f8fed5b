import Mathlib.Data.List.SplitBy

/-!
# Runs of equivalent elements

`List.splitBy` cuts a list wherever two neighbours are not related. For an equivalence the pieces
are runs: every element of a piece is equivalent to its first element, and the first elements of
neighbouring pieces are not equivalent.

## Main results

* `rel_headD_of_mem_splitBy` : the elements of a run.
* `isChain_headD_splitBy` : neighbouring runs.
* `splitBy_map` : the runs of the images of elements.
* `splitBy_of_isChain_not` : every element is a run of its own when no neighbours are equivalent.
-/

namespace M57Card

variable {α : Type*} {R : α → α → Prop} [DecidableRel R]

/-- The elements of a run are equivalent to its first element. -/
theorem rel_headD_of_mem_splitBy (hR : Equivalence R) {l r : List α}
    (hr : r ∈ l.splitBy fun a b => decide (R a b)) {b : α} (hb : b ∈ r) (d : α) :
    R (r.headD d) b := by
  have hchain := List.isChain_of_mem_splitBy hr
  clear hr
  obtain ⟨a, r, rfl⟩ := List.exists_cons_of_ne_nil (List.ne_nil_of_mem hb)
  change R a b
  induction r generalizing a with
  | nil =>
    obtain rfl := List.mem_singleton.mp hb
    exact hR.refl b
  | cons a' r ih =>
    rw [List.isChain_cons_cons, decide_eq_true_eq] at hchain
    rcases List.mem_cons.mp hb with rfl | hb
    · exact hR.refl b
    · exact hR.trans hchain.1 (ih a' hb hchain.2)

/-- The first elements of neighbouring runs are not equivalent. -/
theorem isChain_headD_splitBy (hR : Equivalence R) (l : List α) (d : α) :
    (l.splitBy fun a b => decide (R a b)).IsChain fun r r' => ¬ R (r.headD d) (r'.headD d) := by
  have hmem : ∀ r ∈ l.splitBy fun a b => decide (R a b), ∀ b ∈ r, R (r.headD d) b :=
    fun r hr b hb => rel_headD_of_mem_splitBy hR hr hb d
  refine (List.isChain_getLast_head_splitBy (fun a b => decide (R a b)) l).imp_of_mem_imp ?_
  rintro r r' hr hr' ⟨hne, hne', hdiff⟩ hsame
  rw [decide_eq_false_iff_not] at hdiff
  obtain ⟨a', r', rfl⟩ := List.exists_cons_of_ne_nil hne'
  exact hdiff (hR.trans (hR.symm (hmem r hr _ (List.getLast_mem hne))) hsame)

/-- The runs of the images of elements are the images of their runs. -/
theorem splitBy_map {β : Type*} (f : α → β) (r : β → β → Bool) (l : List α) :
    (l.map f).splitBy r = (l.splitBy fun a b => r (f a) (f b)).map (List.map f) := by
  refine List.splitBy_eq_iff.mpr ⟨?_, fun hnil => ?_, ?_, ?_⟩
  · rw [← List.map_flatten, List.flatten_splitBy]
  · obtain ⟨piece, hpiece, hmap⟩ := List.mem_map.mp hnil
    exact List.ne_nil_of_mem_splitBy hpiece (List.map_eq_nil_iff.mp hmap)
  · refine List.forall_mem_map.mpr fun piece hpiece => ?_
    exact (List.isChain_map f).mpr (List.isChain_of_mem_splitBy hpiece)
  · refine (List.isChain_map _).mpr ((List.isChain_getLast_head_splitBy _ l).imp ?_)
    rintro a b ⟨ha, hb, hdiff⟩
    refine ⟨by rwa [ne_eq, List.map_eq_nil_iff], by rwa [ne_eq, List.map_eq_nil_iff], ?_⟩
    rwa [List.getLast_map, List.head_map]

/-- Without equivalent neighbours every element is a run of its own. -/
theorem splitBy_of_isChain_not {l : List α} (h : l.IsChain fun a b => ¬ R a b) :
    (l.splitBy fun a b => decide (R a b)) = l.map ([·]) := by
  induction l with
  | nil => rfl
  | cons a l ih =>
    obtain ⟨hhead, htail⟩ := List.isChain_cons.mp h
    have hsplit := List.splitBy_append (r := fun a b => decide (R a b)) (l := [a]) (m := l) (by
      intro x hx y hy
      obtain rfl := Option.some.inj hx
      exact decide_eq_false (hhead y hy))
    rw [List.singleton_append, ih htail] at hsplit
    exact hsplit

end M57Card
