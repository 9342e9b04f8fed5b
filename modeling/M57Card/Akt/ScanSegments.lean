import Mathlib.Algebra.BigOperators.Group.List.Basic
import Mathlib.Algebra.Order.Ring.Nat
import Mathlib.Data.Finset.Card
import Mathlib.Data.Finset.Dedup
import Mathlib.Data.List.Forall2
import M57Card.Lib.Intervals

/-!
# Division of scan segments

Before a scan starts, `scan_segment_param_convert` (`akt.c`, lines 86–143) divides the segments of a
channel at the division points. The sub-segments are collected in an array of `MAX_SIG_CHANNLE`
entries, and the index into it is not checked.

## Main definitions

* `divideFregment`, `scanSegmentParamConvert` : the model.
* `SplitOf` : the sub-segments of a segment.
* `Divides`, `FitsArray` : what the division does, and when the array is large enough.

## Main results

* `SplitOf.union` : the sub-segments have the range of the segment as their union.
* `divides_iff` : the division is right exactly when the array is large enough.
-/

namespace M57Card.Akt

open Intervals

/-! ### The model -/

/-- The work modes of a channel. -/
inductive WorkMode where
  | null
  | fixedFreq
  | fastScan
  | multiZoneScan
  | multiPointScan
  deriving DecidableEq

/-- `freq_fregment_para_st`; `freqResolution` are the bits of a `float`. -/
structure FreqFregmentPara where
  index : ℤ
  step : ℕ
  freqResolution : UInt32
  fftSize : ℕ
  startFreq : ℕ
  endFreq : ℕ
  deriving DecidableEq

/-- `multi_freq_fregment_para_st` with the segments that are in use. -/
structure MultiFreqFregmentPara where
  freqSegmentCnt : ℕ
  fregment : List FreqFregmentPara

section Model

variable (maxSigChannle : ℕ)

/-- `memcpy` to the entry with the next index, which must be inside the array. -/
def store (f : FreqFregmentPara) (array : List FreqFregmentPara) :
    Option (List FreqFregmentPara) :=
  if array.length < maxSigChannle then some (array ++ [f]) else none

/-- The loop over the division points for one segment: the segment behind it, the array, and
`finish`. -/
def divideLoop : List ℕ → FreqFregmentPara → List FreqFregmentPara →
    Option (FreqFregmentPara × List FreqFregmentPara × Bool)
  | [], f, array => some (f, array, false)
  | p :: ps, f, array =>
      if f.endFreq ≤ p then (store maxSigChannle f array).map fun array => (f, array, true)
      else if p ≤ f.startFreq then divideLoop ps f array
      else
        (store maxSigChannle { f with endFreq := p } array).bind fun array =>
          divideLoop ps { f with startFreq := p } array

/-- The division of one segment. -/
def divideFregment (points : List ℕ) (f : FreqFregmentPara) (array : List FreqFregmentPara) :
    Option (FreqFregmentPara × List FreqFregmentPara) :=
  (divideLoop maxSigChannle points f array).bind fun r =>
    if r.2.2 then some (r.1, r.2.1)
    else (store maxSigChannle r.1 r.2.1).map fun array => (r.1, array)

/-- The division of all segments: the segments behind it and the array. -/
def divideAll (points : List ℕ) : List FreqFregmentPara → List FreqFregmentPara →
    Option (List FreqFregmentPara × List FreqFregmentPara)
  | [], array => some ([], array)
  | f :: fs, array =>
      (divideFregment maxSigChannle points f array).bind fun r =>
        (divideAll points fs r.2).map fun rs => (r.1 :: rs.1, rs.2)

/-- `scan_segment_param_convert`. -/
def scanSegmentParamConvert (workMode : WorkMode) (points : List ℕ) (m : MultiFreqFregmentPara) :
    Option MultiFreqFregmentPara :=
  if workMode ≠ .fastScan ∧ workMode ≠ .multiZoneScan then some m
  else if points = [] then some m
  else
    (divideAll maxSigChannle points m.fregment []).map fun r =>
      if m.freqSegmentCnt < r.2.length then ⟨r.2.length, r.2⟩ else { m with fregment := r.1 }

end Model

/-! ### Right divisions -/

/-- A sub-segment as the start and the length of an interval. -/
def FreqFregmentPara.piece (f : FreqFregmentPara) : ℕ × ℕ := (f.startFreq, f.endFreq - f.startFreq)

/-- The division point lies strictly inside the segment. -/
def Inside (p : ℕ) (f : FreqFregmentPara) : Prop := f.startFreq < p ∧ p < f.endFreq

instance (p : ℕ) (f : FreqFregmentPara) : Decidable (Inside p f) :=
  inferInstanceAs (Decidable (_ ∧ _))

/-- The sub-segments `g` of the segment `f`: they lie one behind the other from its start to its
end, have its other fields, no division point lies inside of one, and they are the segment itself
when no point divides it. -/
structure SplitOf (points : List ℕ) (f : FreqFregmentPara) (g : List FreqFregmentPara) : Prop where
  ne_nil : g ≠ []
  endToEnd : EndToEnd f.startFreq (g.map FreqFregmentPara.piece) f.endFreq
  ordered : ∀ x ∈ g, x.startFreq ≤ x.endFreq
  fields : ∀ x ∈ g, { x with startFreq := f.startFreq, endFreq := f.endFreq } = f
  undivided : ∀ x ∈ g, ∀ p ∈ points, ¬ Inside p x
  unchanged : (∀ p ∈ points, ¬ Inside p f) → g = [f]

/-- The segments of a channel, at most as many as the array has entries, and the division points in
their order. -/
structure Zone (maxSigChannle : ℕ) where
  workMode : WorkMode
  fregment : List FreqFregmentPara
  points : List ℕ
  length_le : fregment.length ≤ maxSigChannle
  ordered : ∀ f ∈ fregment, f.startFreq ≤ f.endFreq
  sorted : points.Pairwise (· ≤ ·)

/-- The segments are replaced by the sub-segments of each of them, in their order, and counted. -/
def Divides {maxSigChannle : ℕ} (z : Zone maxSigChannle) : Prop :=
  ∃ m gs, scanSegmentParamConvert maxSigChannle z.workMode z.points
      ⟨z.fregment.length, z.fregment⟩ = some m ∧
    m.fregment = gs.flatten ∧ m.freqSegmentCnt = m.fregment.length ∧
    List.Forall₂ (SplitOf z.points) z.fregment gs

/-- The number of the different division points inside a segment. -/
def cuts (points : List ℕ) (f : FreqFregmentPara) : ℕ :=
  (points.toFinset.filter fun p => Inside p f).card

/-- The channel scans, and its segments and the points inside of them are no more than the array has
entries; or no point divides a segment. -/
def FitsArray {maxSigChannle : ℕ} (z : Zone maxSigChannle) : Prop :=
  if z.workMode = .fastScan ∨ z.workMode = .multiZoneScan then
    (z.fregment.map fun f => 1 + cuts z.points f).sum ≤ maxSigChannle
  else ∀ f ∈ z.fregment, ∀ p ∈ z.points, ¬ Inside p f

/-- The union of the sub-segments is the segment. -/
theorem SplitOf.union {points : List ℕ} {f : FreqFregmentPara} {g : List FreqFregmentPara}
    (h : SplitOf points f g) (q : ℕ) :
    (∃ x ∈ g, q ∈ Set.Icc x.startFreq x.endFreq) ↔ q ∈ Set.Icc f.startFreq f.endFreq := by
  rw [← h.endToEnd.mem_Icc_iff (fun hnil => h.ne_nil (List.map_eq_nil_iff.mp hnil)) q]
  have hend (x : FreqFregmentPara) (hx : x ∈ g) : x.piece.1 + x.piece.2 = x.endFreq :=
    Nat.add_sub_cancel' (h.ordered x hx)
  constructor
  · rintro ⟨x, hx, hq⟩
    refine ⟨x.piece, List.mem_map_of_mem hx, ?_⟩
    rw [hend x hx]
    exact hq
  · rintro ⟨v, hv, hq⟩
    obtain ⟨x, hx, rfl⟩ := List.mem_map.mp hv
    rw [hend x hx] at hq
    exact ⟨x, hx, hq⟩

/-! ### Sub-segments -/

/-- The sub-segments that the loop makes of a segment. -/
def pieces : List ℕ → FreqFregmentPara → List FreqFregmentPara
  | [], f => [f]
  | p :: ps, f =>
      if f.endFreq ≤ p then [f]
      else if p ≤ f.startFreq then pieces ps f
      else { f with endFreq := p } :: pieces ps { f with startFreq := p }

/-- What the loop leaves of the segment itself. -/
def rest : List ℕ → FreqFregmentPara → FreqFregmentPara
  | [], f => f
  | p :: ps, f =>
      if f.endFreq ≤ p then f
      else if p ≤ f.startFreq then rest ps f
      else rest ps { f with startFreq := p }

section Pieces

variable {f x : FreqFregmentPara} {ps : List ℕ}

theorem pieces_ne_nil (ps : List ℕ) (f : FreqFregmentPara) : pieces ps f ≠ [] := by
  induction ps with
  | nil => exact List.cons_ne_nil _ _
  | cons p ps ih =>
    rw [pieces]
    split_ifs
    · exact List.cons_ne_nil _ _
    · exact ih
    · exact List.cons_ne_nil _ _

theorem endToEnd_pieces (ps : List ℕ) (hf : f.startFreq ≤ f.endFreq) :
    EndToEnd f.startFreq ((pieces ps f).map FreqFregmentPara.piece) f.endFreq := by
  have hone (g : FreqFregmentPara) (hg : g.startFreq ≤ g.endFreq) :
      EndToEnd g.startFreq [g.piece] g.endFreq := by
    refine .cons ?_
    rw [Nat.add_sub_cancel' hg]
    exact .nil _
  induction ps generalizing f with
  | nil => exact hone f hf
  | cons p ps ih =>
    rw [pieces]
    split_ifs with hend hstart
    · exact hone f hf
    · exact ih hf
    · refine .cons ?_
      dsimp only
      rw [Nat.add_sub_cancel' (by omega)]
      exact ih (f := { f with startFreq := p }) (by dsimp only; omega)

/-- The sub-segments have the other fields of the segment, and lie inside of it. -/
theorem of_mem_pieces (hf : f.startFreq ≤ f.endFreq) (hx : x ∈ pieces ps f) :
    { x with startFreq := f.startFreq, endFreq := f.endFreq } = f ∧ f.startFreq ≤ x.startFreq ∧
      x.startFreq ≤ x.endFreq ∧ x.endFreq ≤ f.endFreq := by
  induction ps generalizing f with
  | nil =>
    obtain rfl := List.mem_singleton.mp hx
    exact ⟨rfl, le_refl _, hf, le_refl _⟩
  | cons p ps ih =>
    rw [pieces] at hx
    split_ifs at hx with hend hstart
    · obtain rfl := List.mem_singleton.mp hx
      exact ⟨rfl, le_refl _, hf, le_refl _⟩
    · exact ih hf hx
    · rcases List.mem_cons.mp hx with rfl | hx
      · exact ⟨rfl, le_refl _, by dsimp only; omega, by dsimp only; omega⟩
      · obtain ⟨hfields, hlow, hle, hhigh⟩ :=
          ih (f := { f with startFreq := p }) (by dsimp only; omega) hx
        dsimp only at hfields hlow hhigh
        refine ⟨?_, by omega, hle, hhigh⟩
        have hback := congrArg (fun g => { g with startFreq := f.startFreq }) hfields
        exact hback

/-- No division point lies inside of a sub-segment. -/
theorem not_inside_pieces (hsorted : ps.Pairwise (· ≤ ·)) (hf : f.startFreq ≤ f.endFreq)
    (hx : x ∈ pieces ps f) : ∀ p ∈ ps, ¬ Inside p x := by
  induction ps generalizing f with
  | nil => exact fun p hp => absurd hp List.not_mem_nil
  | cons p ps ih =>
    obtain ⟨hle, hsorted⟩ := List.pairwise_cons.mp hsorted
    rw [pieces] at hx
    split_ifs at hx with hend hstart
    · obtain rfl := List.mem_singleton.mp hx
      rintro q hq ⟨-, hlt⟩
      rcases List.mem_cons.mp hq with rfl | hq
      · omega
      · have hpq := hle q hq
        omega
    · intro q hq
      rcases List.mem_cons.mp hq with rfl | hq
      · have hlow := (of_mem_pieces hf hx).2.1
        exact fun hin => absurd hin.1 (by omega)
      · exact ih hsorted hf hx q hq
    · intro q hq
      rcases List.mem_cons.mp hx with rfl | hx
      · rintro ⟨-, hlt⟩
        dsimp only at hlt
        rcases List.mem_cons.mp hq with rfl | hq
        · omega
        · have hpq := hle q hq
          omega
      · have hf' : p ≤ f.endFreq := by omega
        rcases List.mem_cons.mp hq with rfl | hq
        · have hlow := (of_mem_pieces (f := { f with startFreq := q }) hf' hx).2.1
          exact fun hin => absurd hin.1 (Nat.not_lt.mpr hlow)
        · exact ih hsorted (f := { f with startFreq := p }) hf' hx q hq

/-- A segment that no point divides. -/
theorem pieces_eq_singleton (h : ∀ p ∈ ps, ¬ Inside p f) : pieces ps f = [f] := by
  induction ps with
  | nil => rfl
  | cons p ps ih =>
    rw [pieces]
    split_ifs with hend hstart
    · rfl
    · exact ih fun q hq => h q (List.mem_cons_of_mem p hq)
    · exact absurd ⟨Nat.lt_of_not_le hstart, Nat.lt_of_not_le hend⟩ (h p List.mem_cons_self)

theorem rest_eq_self (h : ∀ p ∈ ps, ¬ Inside p f) : rest ps f = f := by
  induction ps with
  | nil => rfl
  | cons p ps ih =>
    rw [rest]
    split_ifs with hend hstart
    · rfl
    · exact ih fun q hq => h q (List.mem_cons_of_mem p hq)
    · exact absurd ⟨Nat.lt_of_not_le hstart, Nat.lt_of_not_le hend⟩ (h p List.mem_cons_self)

theorem splitOf_pieces (hsorted : ps.Pairwise (· ≤ ·)) (hf : f.startFreq ≤ f.endFreq) :
    SplitOf ps f (pieces ps f) where
  ne_nil := pieces_ne_nil ps f
  endToEnd := endToEnd_pieces ps hf
  ordered := fun _ hx => (of_mem_pieces hf hx).2.2.1
  fields := fun _ hx => (of_mem_pieces hf hx).1
  undivided := fun _ hx => not_inside_pieces hsorted hf hx
  unchanged := pieces_eq_singleton

theorem cuts_eq_zero (h : ∀ p ∈ ps, ¬ Inside p f) : cuts ps f = 0 := by
  rw [cuts, Finset.card_eq_zero]
  exact Finset.filter_eq_empty_iff.mpr fun p hp => h p (List.mem_toFinset.mp hp)

/-- The first division point, and those inside the rest of the segment. -/
theorem cuts_cons {p : ℕ} (hle : ∀ q ∈ ps, p ≤ q) (hin : Inside p f) :
    cuts (p :: ps) f = 1 + cuts ps { f with startFreq := p } := by
  have hfilter : (p :: ps).toFinset.filter (fun q => Inside q f) =
      insert p (ps.toFinset.filter fun q => Inside q { f with startFreq := p }) := by
    ext q
    rw [Finset.mem_filter, List.toFinset_cons, Finset.mem_insert, Finset.mem_insert,
      Finset.mem_filter, List.mem_toFinset]
    constructor
    · rintro ⟨rfl | hq, hlow, hhigh⟩
      · exact .inl rfl
      · rcases Nat.eq_or_lt_of_le (hle q hq) with heq | hlt
        · exact .inl heq.symm
        · exact .inr ⟨hq, hlt, hhigh⟩
    · rintro (rfl | ⟨hq, hlow, hhigh⟩)
      · exact ⟨.inl rfl, hin⟩
      · exact ⟨.inr hq, hin.1.trans hlow, hhigh⟩
  have hnot : p ∉ ps.toFinset.filter fun q => Inside q { f with startFreq := p } := by
    rw [Finset.mem_filter]
    exact fun hmem => (Nat.lt_irrefl p hmem.2.1)
  rw [cuts, hfilter, Finset.card_insert_of_notMem hnot, Nat.add_comm]
  rfl

/-- The number of sub-segments. -/
theorem length_pieces (hsorted : ps.Pairwise (· ≤ ·)) :
    (pieces ps f).length = 1 + cuts ps f := by
  induction ps generalizing f with
  | nil => rfl
  | cons p ps ih =>
    obtain ⟨hle, hsorted⟩ := List.pairwise_cons.mp hsorted
    rw [pieces]
    split_ifs with hend hstart
    · rw [cuts_eq_zero]
      · rfl
      · rintro q hq ⟨-, hlt⟩
        rcases List.mem_cons.mp hq with rfl | hq
        · omega
        · have hpq := hle q hq
          omega
    · have hout : ¬ Inside p f := fun hin => absurd hin.1 (Nat.not_lt.mpr hstart)
      rw [ih hsorted, cuts, cuts, List.toFinset_cons, Finset.filter_insert, if_neg hout]
    · have hin : Inside p f := ⟨Nat.lt_of_not_le hstart, Nat.lt_of_not_le hend⟩
      rw [List.length_cons, ih hsorted, cuts_cons hle hin]
      omega

end Pieces

/-! ### The array -/

section Array

variable {maxSigChannle : ℕ} {f : FreqFregmentPara} {array : List FreqFregmentPara} {ps : List ℕ}

theorem store_of_lt (h : array.length < maxSigChannle) :
    store maxSigChannle f array = some (array ++ [f]) :=
  if_pos h

theorem store_of_le (h : maxSigChannle ≤ array.length) : store maxSigChannle f array = none :=
  if_neg (Nat.not_lt.mpr h)

/-- The array behind the division of a segment, when it is large enough. -/
theorem divideFregment_of_le (h : array.length + (pieces ps f).length ≤ maxSigChannle) :
    divideFregment maxSigChannle ps f array = some (rest ps f, array ++ pieces ps f) := by
  induction ps generalizing f array with
  | nil =>
    rw [divideFregment, divideLoop, Option.bind_some, if_neg Bool.false_ne_true, store_of_lt h]
    rfl
  | cons p ps ih =>
    rw [divideFregment, divideLoop]
    rw [pieces] at h
    rw [pieces, rest]
    by_cases hend : f.endFreq ≤ p
    · rw [if_pos hend] at h
      rw [if_pos hend, if_pos hend, if_pos hend, store_of_lt h]
      rfl
    rw [if_neg hend] at h
    rw [if_neg hend, if_neg hend, if_neg hend]
    by_cases hstart : p ≤ f.startFreq
    · rw [if_pos hstart] at h
      rw [if_pos hstart, if_pos hstart, if_pos hstart]
      exact ih h
    · rw [if_neg hstart, List.length_cons] at h
      rw [if_neg hstart, if_neg hstart, if_neg hstart, store_of_lt (by omega), Option.bind_some,
        List.append_cons array { f with endFreq := p } (pieces ps { f with startFreq := p })]
      refine ih ?_
      rw [List.length_append, List.length_singleton]
      omega

theorem divideFregment_of_lt (h : maxSigChannle < array.length + (pieces ps f).length) :
    divideFregment maxSigChannle ps f array = none := by
  induction ps generalizing f array with
  | nil =>
    rw [divideFregment, divideLoop, Option.bind_some, if_neg Bool.false_ne_true,
      store_of_le (Nat.le_of_lt_succ h)]
    rfl
  | cons p ps ih =>
    rw [divideFregment, divideLoop]
    rw [pieces] at h
    by_cases hend : f.endFreq ≤ p
    · rw [if_pos hend] at h
      rw [if_pos hend, store_of_le (Nat.le_of_lt_succ h)]
      rfl
    rw [if_neg hend] at h
    rw [if_neg hend]
    by_cases hstart : p ≤ f.startFreq
    · rw [if_pos hstart] at h
      rw [if_pos hstart]
      exact ih h
    · rw [if_neg hstart, List.length_cons] at h
      rw [if_neg hstart]
      rcases Nat.lt_or_ge array.length maxSigChannle with hlt | hge
      · rw [store_of_lt hlt, Option.bind_some]
        refine ih ?_
        rw [List.length_append, List.length_singleton]
        omega
      · rw [store_of_le hge]
        rfl

/-- The array behind the division of all segments. -/
theorem divideAll_of_le {fs : List FreqFregmentPara}
    (h : array.length + (fs.flatMap (pieces ps)).length ≤ maxSigChannle) :
    divideAll maxSigChannle ps fs array =
      some (fs.map (rest ps), array ++ fs.flatMap (pieces ps)) := by
  induction fs generalizing array with
  | nil => rw [divideAll, List.flatMap_nil, List.append_nil]; rfl
  | cons f fs ih =>
    rw [List.flatMap_cons, List.length_append] at h
    rw [divideAll, divideFregment_of_le (by omega), Option.bind_some, ih, List.flatMap_cons,
      List.append_assoc]
    · rfl
    · rw [List.length_append]
      omega

theorem divideAll_of_lt {fs : List FreqFregmentPara} (hle : array.length ≤ maxSigChannle)
    (h : maxSigChannle < array.length + (fs.flatMap (pieces ps)).length) :
    divideAll maxSigChannle ps fs array = none := by
  induction fs generalizing array with
  | nil => exact absurd h (Nat.not_lt.mpr hle)
  | cons f fs ih =>
    rw [List.flatMap_cons, List.length_append] at h
    rw [divideAll]
    rcases Nat.lt_or_ge maxSigChannle (array.length + (pieces ps f).length) with hlt | hge
    · rw [divideFregment_of_lt hlt]
      rfl
    · rw [divideFregment_of_le hge, Option.bind_some, ih]
      · rfl
      · rwa [List.length_append]
      · rw [List.length_append]
        omega

end Array

/-! ### Divisions -/

section Zone

variable {maxSigChannle : ℕ}

/-- The segments of a zone and their sub-segments. -/
theorem Zone.splits (z : Zone maxSigChannle) :
    List.Forall₂ (SplitOf z.points) z.fregment (z.fregment.map (pieces z.points)) := by
  rw [List.forall₂_map_right_iff, List.forall₂_same]
  exact fun f hf => splitOf_pieces z.sorted (z.ordered f hf)

/-- The number of sub-segments of a zone. -/
theorem Zone.length_flatMap (z : Zone maxSigChannle) :
    (z.fregment.flatMap (pieces z.points)).length =
      (z.fregment.map fun f => 1 + cuts z.points f).sum := by
  rw [List.length_flatMap]
  exact congrArg List.sum (List.map_congr_left fun f _ => length_pieces z.sorted)

/-- No point divides a segment when there are no more sub-segments than segments. -/
theorem Zone.not_inside (z : Zone maxSigChannle)
    (h : (z.fregment.map fun f => 1 + cuts z.points f).sum ≤ z.fregment.length) :
    ∀ f ∈ z.fregment, ∀ p ∈ z.points, ¬ Inside p f := by
  have hsum : (z.fregment.map fun f => 1 + cuts z.points f).sum =
      z.fregment.length + (z.fregment.map (cuts z.points)).sum := by
    rw [List.sum_map_add, List.map_const', List.sum_replicate_nat, Nat.mul_one]
  intro f hf p hp hin
  have hzero : (z.fregment.map (cuts z.points)).sum = 0 := by omega
  have hcuts := List.sum_eq_zero_iff_forall_eq_nat.mp hzero _ (List.mem_map_of_mem hf)
  have hempty := Finset.filter_eq_empty_iff.mp (Finset.card_eq_zero.mp hcuts)
  exact hempty (List.mem_toFinset.mpr hp) hin

/-- Segments that stay as they are are divided right when no point divides them. -/
theorem divides_of_unchanged (z : Zone maxSigChannle)
    (h : scanSegmentParamConvert maxSigChannle z.workMode z.points
      ⟨z.fregment.length, z.fregment⟩ = some ⟨z.fregment.length, z.fregment⟩) :
    Divides z ↔ ∀ f ∈ z.fregment, ∀ p ∈ z.points, ¬ Inside p f := by
  constructor
  · rintro ⟨m, gs, hm, hfregment, -, hsplits⟩
    obtain rfl := Option.some.inj (h.symm.trans hm)
    intro f hf
    dsimp only at hfregment
    rw [hfregment] at hf
    obtain ⟨g, hg, hfg⟩ := List.mem_flatten.mp hf
    obtain ⟨i, hi, rfl⟩ := List.getElem_of_mem hg
    have hsplit := hsplits.get (hsplits.length_eq ▸ hi) hi
    exact hsplit.undivided f hfg
  · intro hinside
    refine ⟨_, _, h, ?_, rfl, z.splits⟩
    have hpieces : z.fregment.map (pieces z.points) = z.fregment.map fun f => [f] :=
      List.map_congr_left fun f hf => pieces_eq_singleton (hinside f hf)
    rw [hpieces, ← List.flatMap_def, List.flatMap_singleton']

/-- The division is right exactly when the array is large enough. -/
theorem divides_iff (z : Zone maxSigChannle) : Divides z ↔ FitsArray z := by
  rw [FitsArray]
  split_ifs with hmode
  · have hscan : ¬ (z.workMode ≠ .fastScan ∧ z.workMode ≠ .multiZoneScan) := by
      rwa [not_and_or, not_not, not_not]
    rw [← z.length_flatMap]
    by_cases hpoints : z.points = []
    · -- without points the segments stay as they are
      have hsame := divides_of_unchanged z (by
        rw [scanSegmentParamConvert, if_neg hscan, if_pos hpoints])
      have hinside : ∀ f ∈ z.fregment, ∀ p ∈ z.points, ¬ Inside p f := by
        rw [hpoints]
        exact fun f _ p hp => absurd hp List.not_mem_nil
      have hlen : (z.fregment.flatMap (pieces z.points)).length = z.fregment.length := by
        rw [hpoints]
        exact congrArg List.length (List.flatMap_singleton' z.fregment)
      exact iff_of_true (hsame.mpr hinside) (hlen.trans_le z.length_le)
    have hconvert : scanSegmentParamConvert maxSigChannle z.workMode z.points
        ⟨z.fregment.length, z.fregment⟩ =
        (divideAll maxSigChannle z.points z.fregment []).map fun r =>
          if z.fregment.length < r.2.length then ⟨r.2.length, r.2⟩
          else ⟨z.fregment.length, r.1⟩ := by
      rw [scanSegmentParamConvert, if_neg hscan, if_neg hpoints]
    constructor
    · rintro ⟨m, gs, hm, -⟩
      by_contra hlt
      rw [hconvert, divideAll_of_lt (Nat.zero_le _)] at hm
      · cases hm
      · rw [List.length_nil, Nat.zero_add]
        exact Nat.lt_of_not_le hlt
    · intro hfits
      rw [divideAll_of_le (by rwa [List.length_nil, Nat.zero_add]), List.nil_append,
        Option.map_some] at hconvert
      by_cases hmore : z.fregment.length < (z.fregment.flatMap (pieces z.points)).length
      · rw [if_pos hmore] at hconvert
        exact ⟨_, z.fregment.map (pieces z.points), hconvert, List.flatMap_def, rfl, z.splits⟩
      · rw [if_neg hmore] at hconvert
        rw [z.length_flatMap] at hmore
        have hinside := z.not_inside (Nat.le_of_not_lt hmore)
        have hrest : z.fregment.map (rest z.points) = z.fregment :=
          (List.map_congr_left fun f hf => rest_eq_self (hinside f hf)).trans (List.map_id _)
        rw [hrest] at hconvert
        exact (divides_of_unchanged z hconvert).mpr hinside
  · obtain ⟨hfast, hzone⟩ := not_or.mp hmode
    exact divides_of_unchanged z (if_pos ⟨hfast, hzone⟩)

end Zone

/-- A segment that is divided once, for an array with one entry. -/
def oneSegment : Zone 1 where
  workMode := .multiZoneScan
  fregment := [⟨0, 25000, 0, 2048, 7000000000, 8000000000⟩]
  points := [7500000000]
  length_le := by decide
  ordered := by decide
  sorted := List.pairwise_singleton _ _

/-- The second sub-segment lies behind the array. -/
theorem not_divides_oneSegment : ¬ Divides oneSegment := by
  rintro ⟨m, gs, hm, -⟩
  have hnone : scanSegmentParamConvert 1 oneSegment.workMode oneSegment.points
      ⟨oneSegment.fregment.length, oneSegment.fregment⟩ = none := by
    decide
  exact absurd (hnone.symm.trans hm) (Option.some_ne_none m).symm

end M57Card.Akt
