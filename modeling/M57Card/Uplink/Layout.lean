import M57Card.Uplink.Router

/-!
# The runs of a block

What the router makes of a block is determined by the layout of the block: where the frames are,
which of them follow each other with equal parameters, and how each run of them ends. This file
describes the layout without the variables of the scan. From the end of a frame the next frame is
looked for (`nextFrame`); a run (`tailFrom`, `segmentAt`) goes on as long as the next frame has the
parameters of the first one, and the runs of a block (`segments`) follow each other as long as a run
ends with a frame of other parameters.

## Main definitions

* `nextHeader`, `nextFrame`, `Ending` : what follows behind a frame.
* `tailFrom`, `Segment`, `segmentAt`, `segments`, `blockRuns` : runs of frames.
* `Segment.size`, `Segment.Kept`, `vectors` : the runs that become vectors.

## Main results

* `nextHeader_eq_some`, `nextHeader_eq_none` : the search for a header.
* `linked_tailFrom`, `tailFrom_ending` : the frames of a run, and its end.
* `segmentAt_spec` : what each ending says about the block.
* `eq_segmentAt_of_mem_vectors` : the vectors of a block.
-/

namespace M57Card.Uplink

open M57

/-! ### Headers -/

/-- The address of the next sync word from `p` on, in steps of eight bytes below `lim`. -/
def nextHeader (m : Mem) (lim p : ℕ) : Option ℕ := (xdmaFindNextHeader m p (lim - p)).map (p + ·)

section Headers

variable {m : Mem} {lim p q : ℕ}

/-- The search finds the first of the candidates. -/
theorem nextHeader_eq_some :
    nextHeader m lim p = some q ↔
      ∃ j, q = p + 8 * j ∧ q < lim ∧ IsSync m q ∧ ∀ i < j, ¬ IsSync m (p + 8 * i) := by
  simp only [nextHeader, xdmaFindNextHeader, List.find?_map, Option.map_map, Option.map_eq_some_iff,
    List.find?_range_eq_some, Function.comp_apply, decide_eq_true_eq, List.mem_range,
    Bool.not_eq_true', decide_eq_false_iff_not]
  constructor
  · rintro ⟨j, ⟨hsync, hj, hbefore⟩, rfl⟩
    exact ⟨j, rfl, by omega, hsync, hbefore⟩
  · rintro ⟨j, rfl, hlt, hsync, hbefore⟩
    exact ⟨j, ⟨hsync, by omega, hbefore⟩, rfl⟩

theorem nextHeader_eq_none :
    nextHeader m lim p = none ↔ ∀ i, p + 8 * i < lim → ¬ IsSync m (p + 8 * i) := by
  simp only [nextHeader, xdmaFindNextHeader, Option.map_eq_none_iff, List.find?_eq_none,
    List.mem_map, List.mem_range, decide_eq_true_eq]
  constructor
  · intro h i hi
    exact h _ ⟨i, by omega, rfl⟩
  · rintro h off ⟨i, hi, rfl⟩
    exact h i (by omega)

/-- A sync word is found where it is. -/
theorem nextHeader_of_isSync (hsync : IsSync m p) (hlt : p < lim) : nextHeader m lim p = some p :=
  nextHeader_eq_some.mpr ⟨0, rfl, hlt, hsync, fun _ hi => absurd hi (Nat.not_lt_zero _)⟩

end Headers

/-! ### Runs of frames -/

/-- Two frames have the parameters by which the scan delimits a run. -/
def SameParams (a b : NetSub) : Prop :=
  a.chipId = b.chipId ∧ a.funcId = b.funcId ∧ a.port = b.port

instance (a b : NetSub) : Decidable (SameParams a b) := inferInstanceAs (Decidable (_ ∧ _))

/-- To have the same parameters is an equivalence, of anything that has parameters. -/
theorem sameParams_equivalence {α : Type} (f : α → NetSub) :
    Equivalence fun a b => SameParams (f a) (f b) where
  refl _ := ⟨rfl, rfl, rfl⟩
  symm h := ⟨h.1.symm, h.2.1.symm, h.2.2.symm⟩
  trans h h' := ⟨h.1.trans h'.1, h.2.1.trans h'.2.1, h.2.2.trans h'.2.2⟩

/-- How a run of frames ends. -/
inductive Ending where
  /-- the last frame ends with the block or behind it -/
  | passed
  /-- there is no further header in the block -/
  | gap
  /-- the next frame is too long -/
  | long (q : ℕ)
  /-- the next frame has other parameters and an unknown chip -/
  | unknown (q : ℕ)
  /-- the next frame has other parameters -/
  | change (q : ℕ)
  /-- there are too many frames -/
  | tooMany
  deriving DecidableEq

section Runs

variable (m : Mem) (cards : CardsStatus) (lim : ℕ)

/-- What follows behind a frame that ends at `e`, in a run with the parameters `sub`: the end of the
run, or another frame of it. -/
def nextFrame (sub : NetSub) (e : ℕ) : Ending ⊕ ℕ :=
  if lim ≤ e then
    .inl .passed
  else
    match nextHeader m lim e with
    | none => .inl .gap
    | some q =>
        if 2048 < frameLen m q then .inl (.long q)
        else if SameParams sub (frameSub m q) then .inr q
        else if cards.isValidChipid (frameSub m q).chipId then .inl (.change q)
        else .inl (.unknown q)

/-- The rest of a run: the addresses of its frames, where the last of them ends, and why. -/
structure Tail where
  frames : List ℕ
  stop : ℕ
  ending : Ending
  deriving DecidableEq

/-- The rest of a run behind a frame that ends at `e`, with at most `n` further frames. -/
def tailFrom (sub : NetSub) : ℕ → ℕ → Tail
  | n, e =>
      match nextFrame m cards lim sub e with
      | .inl ending => ⟨[], e, ending⟩
      | .inr q =>
          match n with
          | 0 => ⟨[], e, .tooMany⟩
          | n + 1 =>
              let t := tailFrom sub n (q + frameLen m q)
              { t with frames := q :: t.frames }

/-- A run of frames: its start, the addresses of its frames, where the last one ends, and why. -/
structure Segment where
  start : ℕ
  frames : List ℕ
  stop : ℕ
  ending : Ending
  deriving DecidableEq

/-- A run can start at an address. -/
def IsStart (a : ℕ) : Prop :=
  IsSync m a ∧ frameLen m a ≤ 2048 ∧ cards.isValidChipid (frameSub m a).chipId = true

instance : DecidablePred (IsStart m cards) := fun _ => inferInstanceAs (Decidable (_ ∧ _))

/-- The run that starts at an address. -/
def segmentAt (a : ℕ) : Segment :=
  let t := tailFrom m cards lim (frameSub m a) (MAX_PACKAGES_NUM - 2) (a + frameLen m a)
  ⟨a, a :: t.frames, t.stop, t.ending⟩

/-- The runs from an address on, at most `n` of them. -/
def segments : ℕ → ℕ → List Segment
  | 0, _ => []
  | n + 1, a =>
      if a < lim ∧ IsStart m cards a then
        segmentAt m cards lim a ::
          match (segmentAt m cards lim a).ending with
          | .change q => segments n q
          | _ => []
      else []

end Runs

section RunLemmas

variable {m : Mem} {cards : CardsStatus} {lim : ℕ} {sub : NetSub}

/-- What can follow behind a frame. -/
theorem nextFrame_cases (m : Mem) (cards : CardsStatus) (lim : ℕ) (sub : NetSub) (e : ℕ) :
    (lim ≤ e ∧ nextFrame m cards lim sub e = .inl .passed) ∨
      (e < lim ∧ nextHeader m lim e = none ∧ nextFrame m cards lim sub e = .inl .gap) ∨
      ∃ q, e < lim ∧ nextHeader m lim e = some q ∧
        (2048 < frameLen m q ∧ nextFrame m cards lim sub e = .inl (.long q) ∨
          frameLen m q ≤ 2048 ∧
            (SameParams sub (frameSub m q) ∧ nextFrame m cards lim sub e = .inr q ∨
              ¬ SameParams sub (frameSub m q) ∧
                (cards.isValidChipid (frameSub m q).chipId = true ∧
                    nextFrame m cards lim sub e = .inl (.change q) ∨
                  cards.isValidChipid (frameSub m q).chipId = false ∧
                    nextFrame m cards lim sub e = .inl (.unknown q)))) := by
  unfold nextFrame
  split_ifs with hpassed
  · exact .inl ⟨hpassed, rfl⟩
  · refine .inr ?_
    cases hq : nextHeader m lim e with
    | none => exact .inl ⟨not_le.mp hpassed, rfl, rfl⟩
    | some q =>
      refine .inr ⟨q, not_le.mp hpassed, rfl, ?_⟩
      dsimp only
      split_ifs with hlong hsame hvalid
      · exact .inl ⟨hlong, rfl⟩
      · exact .inr ⟨not_lt.mp hlong, .inl ⟨hsame, rfl⟩⟩
      · exact .inr ⟨not_lt.mp hlong, .inr ⟨hsame, .inl ⟨hvalid, rfl⟩⟩⟩
      · exact .inr ⟨not_lt.mp hlong, .inr ⟨hsame, .inr ⟨Bool.eq_false_iff.mpr hvalid, rfl⟩⟩⟩

/-- A further frame of a run: it is the next one in the block, and fits the run. -/
theorem nextFrame_eq_inr {e q : ℕ} (h : nextFrame m cards lim sub e = .inr q) :
    e < lim ∧ nextHeader m lim e = some q ∧ frameLen m q ≤ 2048 ∧
      SameParams sub (frameSub m q) := by
  rcases nextFrame_cases m cards lim sub e with ⟨-, heq⟩ | ⟨-, -, heq⟩ |
    ⟨q', hlt, hq, ⟨-, heq⟩ | ⟨hlen, ⟨hsame, heq⟩ | ⟨-, ⟨-, heq⟩ | ⟨-, heq⟩⟩⟩⟩
  all_goals rw [heq] at h
  case inr.inr.inr.inl =>
    obtain rfl := Sum.inr.inj h
    exact ⟨hlt, hq, hlen, hsame⟩
  all_goals cases h

/-- The frames of a run from `e` on: each is the next one behind its predecessor, and the last of
them ends at `stop`. -/
inductive Linked (m : Mem) (cards : CardsStatus) (lim : ℕ) (sub : NetSub) :
    ℕ → List ℕ → ℕ → Prop
  | nil (e : ℕ) : Linked m cards lim sub e [] e
  | cons {e q stop : ℕ} {qs : List ℕ} (hq : nextFrame m cards lim sub e = .inr q)
      (h : Linked m cards lim sub (q + frameLen m q) qs stop) :
      Linked m cards lim sub e (q :: qs) stop

theorem tailFrom_of_inl {n e : ℕ} {ending : Ending}
    (h : nextFrame m cards lim sub e = .inl ending) :
    tailFrom m cards lim sub n e = ⟨[], e, ending⟩ := by
  rw [tailFrom, h]

theorem tailFrom_zero_of_inr {e q : ℕ} (h : nextFrame m cards lim sub e = .inr q) :
    tailFrom m cards lim sub 0 e = ⟨[], e, .tooMany⟩ := by
  rw [tailFrom, h]

theorem tailFrom_succ_of_inr {n e q : ℕ} (h : nextFrame m cards lim sub e = .inr q) :
    tailFrom m cards lim sub (n + 1) e =
      { tailFrom m cards lim sub n (q + frameLen m q) with
        frames := q :: (tailFrom m cards lim sub n (q + frameLen m q)).frames } := by
  rw [tailFrom, h]

/-- The frames of a run follow each other. -/
theorem linked_tailFrom (m : Mem) (cards : CardsStatus) (lim : ℕ) (sub : NetSub) (n e : ℕ) :
    Linked m cards lim sub e (tailFrom m cards lim sub n e).frames
      (tailFrom m cards lim sub n e).stop := by
  induction n generalizing e with
  | zero =>
    cases h : nextFrame m cards lim sub e with
    | inl ending =>
      rw [tailFrom_of_inl h]
      exact .nil e
    | inr q =>
      rw [tailFrom_zero_of_inr h]
      exact .nil e
  | succ n ih =>
    cases h : nextFrame m cards lim sub e with
    | inl ending =>
      rw [tailFrom_of_inl h]
      exact .nil e
    | inr q =>
      rw [tailFrom_succ_of_inr h]
      exact .cons h (ih _)

/-- A run ends where no further frame fits, or with the number of its frames. -/
theorem tailFrom_ending (m : Mem) (cards : CardsStatus) (lim : ℕ) (sub : NetSub) (n e : ℕ) :
    nextFrame m cards lim sub (tailFrom m cards lim sub n e).stop =
        .inl (tailFrom m cards lim sub n e).ending ∨
      (tailFrom m cards lim sub n e).ending = .tooMany ∧
        (tailFrom m cards lim sub n e).frames.length = n ∧
        (tailFrom m cards lim sub n e).stop < lim := by
  induction n generalizing e with
  | zero =>
    cases h : nextFrame m cards lim sub e with
    | inl ending =>
      rw [tailFrom_of_inl h]
      exact .inl h
    | inr q =>
      rw [tailFrom_zero_of_inr h]
      exact .inr ⟨rfl, rfl, (nextFrame_eq_inr h).1⟩
  | succ n ih =>
    cases h : nextFrame m cards lim sub e with
    | inl ending =>
      rw [tailFrom_of_inl h]
      exact .inl h
    | inr q =>
      rw [tailFrom_succ_of_inr h]
      rcases ih (q + frameLen m q) with hend | ⟨hend, hlen, hlt⟩
      · exact .inl hend
      · refine .inr ⟨hend, ?_, hlt⟩
        rw [List.length_cons, hlen]

theorem length_frames_tailFrom (m : Mem) (cards : CardsStatus) (lim : ℕ) (sub : NetSub) (n e : ℕ) :
    (tailFrom m cards lim sub n e).frames.length ≤ n := by
  induction n generalizing e with
  | zero =>
    cases h : nextFrame m cards lim sub e with
    | inl ending => rw [tailFrom_of_inl h, List.length_nil]
    | inr q => rw [tailFrom_zero_of_inr h, List.length_nil]
  | succ n ih =>
    cases h : nextFrame m cards lim sub e with
    | inl ending =>
      rw [tailFrom_of_inl h]
      exact Nat.zero_le _
    | inr q =>
      rw [tailFrom_succ_of_inr h]
      exact Nat.succ_le_succ (ih _)

end RunLemmas

/-! ### Runs as the scan gives them back -/

namespace Segment

/-- Where the vector of a run ends: with the last frame, or with the frame that ended the run. -/
def limit (s : Segment) : ℕ :=
  match s.ending with
  | .unknown q | .change q => q
  | _ => s.stop

/-- The length of the vector of a run; a frame that is too long, or one frame too many, leaves
nothing of it. -/
def size (s : Segment) : ℕ :=
  match s.ending with
  | .long _ | .tooMany => 0
  | _ => s.limit - s.start

/-- The frames of a run that are counted. -/
def pkgs (s : Segment) : ℕ :=
  match s.ending with
  | .tooMany => 0
  | _ => s.frames.length

/-- The errors that a run is counted with. -/
def errs (s : Segment) : ℕ :=
  match s.ending with
  | .long _ | .unknown _ | .tooMany => 1
  | _ => 0

/-- The run becomes a vector. -/
def Kept (len : ℕ) (s : Segment) : Prop := 0 < s.size ∧ s.size ≤ len

instance (len : ℕ) : DecidablePred (Kept len) := fun _ => inferInstanceAs (Decidable (_ ∧ _))

/-- Whether the block is done with a run, as the scan says it. -/
def readOver (s : Segment) : Bool :=
  match s.ending with
  | .gap | .change _ => false
  | _ => true

end Segment

/-- The runs of a block of `len` bytes at the address `header`. -/
def blockRuns (m : Mem) (cards : CardsStatus) (header len : ℕ) : List Segment :=
  if XDMA_BLOCK_SIZE < len then []
  else segments m cards (header + len) XDMA_DATA_TYPE_MAX_PKGS header

/-- The runs of a block that become vectors. -/
def vectors (m : Mem) (cards : CardsStatus) (header len : ℕ) : List Segment :=
  (blockRuns m cards header len).filter (Segment.Kept len)

/-! ### The ends of runs -/

section Ends

variable {m : Mem} {cards : CardsStatus} {lim : ℕ}

theorem nextHeader_le {p q : ℕ} (h : nextHeader m lim p = some q) : p ≤ q ∧ q < lim := by
  obtain ⟨j, rfl, hlt, -, -⟩ := nextHeader_eq_some.mp h
  exact ⟨Nat.le_add_right _ _, hlt⟩

theorem nextHeader_isSync {p q : ℕ} (h : nextHeader m lim p = some q) : IsSync m q := by
  obtain ⟨j, -, -, hsync, -⟩ := nextHeader_eq_some.mp h
  exact hsync

theorem Linked.le {sub : NetSub} {e stop : ℕ} {qs : List ℕ}
    (h : Linked m cards lim sub e qs stop) : e ≤ stop := by
  induction h with
  | nil e => exact Nat.le_refl e
  | cons hq _ ih =>
    have hle := nextHeader_le (nextFrame_eq_inr hq).2.1
    omega

/-- What each ending says about the block. -/
theorem segmentAt_spec {a : ℕ} (hstart : IsStart m cards a) (ha : a < lim) :
    let s := segmentAt m cards lim a
    a + frameLen m a ≤ s.stop ∧
      match s.ending with
      | .passed => lim ≤ s.stop
      | .gap => a < s.stop ∧ s.stop < lim ∧ nextHeader m lim s.stop = none
      | .long q => s.stop < lim ∧ nextHeader m lim s.stop = some q ∧ 2048 < frameLen m q
      | .unknown q => a < q ∧ nextHeader m lim s.stop = some q ∧ frameLen m q ≤ 2048 ∧
          ¬ SameParams (frameSub m a) (frameSub m q) ∧
          cards.isValidChipid (frameSub m q).chipId = false
      | .change q => a < q ∧ nextHeader m lim s.stop = some q ∧
          ¬ SameParams (frameSub m a) (frameSub m q) ∧ IsStart m cards q
      | .tooMany => s.frames.length = MAX_PACKAGES_NUM - 1 ∧ s.stop < lim := by
  intro s
  have hle : a + frameLen m a ≤ s.stop :=
    (linked_tailFrom m cards lim (frameSub m a) (MAX_PACKAGES_NUM - 2) (a + frameLen m a)).le
  have hother {q : ℕ} (hq : nextHeader m lim s.stop = some q)
      (hdiff : ¬ SameParams (frameSub m a) (frameSub m q)) : a < q := by
    have hsq := nextHeader_le hq
    rcases Nat.lt_or_eq_of_le (show a ≤ q by omega) with hlt | rfl
    · exact hlt
    · exact absurd ⟨rfl, rfl, rfl⟩ hdiff
  refine ⟨hle, ?_⟩
  rcases tailFrom_ending m cards lim (frameSub m a) (MAX_PACKAGES_NUM - 2)
    (a + frameLen m a) with hend | ⟨hend, hlen, hlt⟩
  · change nextFrame m cards lim (frameSub m a) s.stop = .inl s.ending at hend
    rcases nextFrame_cases m cards lim (frameSub m a) s.stop with ⟨hpast, heq⟩ | ⟨hin, hnone, heq⟩ |
      ⟨q, hin, hq, ⟨hlong, heq⟩ | ⟨hlen, ⟨-, heq⟩ | ⟨hdiff, ⟨hvalid, heq⟩ | ⟨hvalid, heq⟩⟩⟩⟩
    · rw [hend] at heq
      rw [Sum.inl.inj heq]
      exact hpast
    · rw [hend] at heq
      rw [Sum.inl.inj heq]
      refine ⟨?_, hin, hnone⟩
      rcases Nat.lt_or_eq_of_le (show a ≤ s.stop by omega) with hlt | heqa
      · exact hlt
      · rw [← heqa, nextHeader_of_isSync hstart.1 ha] at hnone
        cases hnone
    · rw [hend] at heq
      rw [Sum.inl.inj heq]
      exact ⟨hin, hq, hlong⟩
    · rw [hend] at heq
      cases heq
    · rw [hend] at heq
      rw [Sum.inl.inj heq]
      exact ⟨hother hq hdiff, hq, hdiff, nextHeader_isSync hq, hlen, hvalid⟩
    · rw [hend] at heq
      rw [Sum.inl.inj heq]
      exact ⟨hother hq hdiff, hq, hlen, hdiff, hvalid⟩
  · change s.ending = .tooMany at hend
    rw [hend]
    exact ⟨congrArg Nat.succ hlen, hlt⟩

/-- The runs from the start of a run that another frame ends. -/
theorem segments_of_change {a q : ℕ} (ha : a < lim) (hstart : IsStart m cards a)
    (hend : (segmentAt m cards lim a).ending = .change q) (n : ℕ) :
    segments m cards lim (n + 1) a = segmentAt m cards lim a :: segments m cards lim n q := by
  rw [segments, if_pos ⟨ha, hstart⟩, hend]

/-- Any other run is the last one. -/
theorem segments_of_ne_change {a : ℕ} (ha : a < lim) (hstart : IsStart m cards a)
    (hend : ∀ q, (segmentAt m cards lim a).ending ≠ .change q) (n : ℕ) :
    segments m cards lim (n + 1) a = [segmentAt m cards lim a] := by
  rw [segments, if_pos ⟨ha, hstart⟩]
  cases h : (segmentAt m cards lim a).ending with
  | change q => exact absurd h (hend q)
  | _ => rfl

theorem segments_of_not_isStart {a : ℕ} (h : ¬ (a < lim ∧ IsStart m cards a)) (n : ℕ) :
    segments m cards lim n a = [] := by
  cases n with
  | zero => rfl
  | succ n => rw [segments, if_neg h]

/-- The runs from an address on are runs at their own starts. -/
theorem eq_segmentAt_of_mem_segments {n a : ℕ} {s : Segment} (hs : s ∈ segments m cards lim n a) :
    a ≤ s.start ∧ s.start < lim ∧ IsStart m cards s.start ∧ s = segmentAt m cards lim s.start := by
  induction n generalizing a with
  | zero => cases hs
  | succ n ih =>
    by_cases h : a < lim ∧ IsStart m cards a
    · obtain ⟨ha, hstart⟩ := h
      have hfirst (hs : s = segmentAt m cards lim a) : a ≤ s.start ∧ s.start < lim ∧
          IsStart m cards s.start ∧ s = segmentAt m cards lim s.start := by
        subst hs
        exact ⟨Nat.le_refl a, ha, hstart, rfl⟩
      by_cases hchange : ∃ q, (segmentAt m cards lim a).ending = .change q
      · obtain ⟨q, hq⟩ := hchange
        have hspec := (segmentAt_spec hstart ha).2
        simp only [hq] at hspec
        rw [segments_of_change ha hstart hq, List.mem_cons] at hs
        rcases hs with hs | hs
        · exact hfirst hs
        · exact ⟨hspec.1.le.trans (ih hs).1, (ih hs).2⟩
      · rw [segments_of_ne_change ha hstart (not_exists.mp hchange), List.mem_singleton] at hs
        exact hfirst hs
    · rw [segments_of_not_isStart h] at hs
      cases hs

/-- The runs of a block are runs at their own starts. -/
theorem eq_segmentAt_of_mem_blockRuns {header len : ℕ} {s : Segment}
    (hs : s ∈ blockRuns m cards header len) :
    header ≤ s.start ∧ s.start < header + len ∧ IsStart m cards s.start ∧
      s = segmentAt m cards (header + len) s.start := by
  rw [blockRuns] at hs
  split_ifs at hs with hblock
  · cases hs
  · exact eq_segmentAt_of_mem_segments hs

theorem mem_vectors {header len : ℕ} {s : Segment} :
    s ∈ vectors m cards header len ↔ s ∈ blockRuns m cards header len ∧ s.Kept len := by
  rw [vectors, List.mem_filter, decide_eq_true_eq]

/-- The vectors of a block are kept runs at their own starts. -/
theorem eq_segmentAt_of_mem_vectors {header len : ℕ} {s : Segment}
    (hs : s ∈ vectors m cards header len) :
    header ≤ s.start ∧ s.start < header + len ∧ IsStart m cards s.start ∧
      s = segmentAt m cards (header + len) s.start ∧ s.Kept len := by
  obtain ⟨hs, hkept⟩ := mem_vectors.mp hs
  obtain ⟨hle, hlt, hstart, heq⟩ := eq_segmentAt_of_mem_blockRuns hs
  exact ⟨hle, hlt, hstart, heq, hkept⟩

end Ends

end M57Card.Uplink
