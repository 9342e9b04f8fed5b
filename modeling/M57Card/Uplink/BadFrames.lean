import Mathlib.Algebra.Order.BigOperators.Group.List
import Mathlib.Data.Set.Card
import M57Card.Lib.SplitBy
import M57Card.Uplink.Inside
import M57Card.Uplink.Room

/-!
# Good frames in front of a bad one

The scan of a run ends at a bad frame: one that is too long, of an unknown chip, or cut off by the
end of the block, or no frame at all. The comment on the function says that the frames in front of
it can still be used, but not every exit of the scan keeps them. This file determines when the good
frames of a block, all with one key, are in the table afterwards and the counter of forwarded frames
agrees with what the table has got.

Good frames with one key can have different parameters, since the key has only some bits of them.
They are cut into runs (`runsOf`), each of which becomes a vector on its own, so that the bad frame
decides about the last run only (`spares_segments_iff`). The table takes the vectors if it has room
for one under the key for each run, and for one more if the bad frame is cut off and becomes a
vector itself (`vectorKeys`).

## Main definitions

* `registered` : the frames of the vectors that a block puts into the table.
* `Follows`, `IsBad` : good frames behind each other, and a bad frame behind them.
* `KeepsGoodFrames` : the good frames are in the table, and the frames counted are those put there.

## Main results

* `exists_registered` : the frames that a block puts into the table.
* `spares_segments_iff` : when the runs of a block keep the good frames.
* `keepsGoodFrames_iff` : when the router does.
-/

namespace M57Card.Uplink

open M57

/-! ### The number of frames that are filed -/

section Counting

variable {m : Mem} {cards : CardsStatus} {lim : ℕ} {sub : NetSub}

/-- A frame without bytes is met again and again. -/
theorem tailFrom_of_frameLen_eq_zero (cards : CardsStatus) {q : ℕ} (hsync : IsSync m q)
    (hq : q < lim) (hsame : SameParams sub (frameSub m q)) (hzero : frameLen m q = 0) (n : ℕ) :
    (tailFrom m cards lim sub n q).ending = .tooMany := by
  have hnext : nextFrame m cards lim sub q = .inr q := by
    have hshort : ¬ 2048 < frameLen m q := by omega
    rw [nextFrame, if_neg (not_le.mpr hq), nextHeader_of_isSync hsync hq]
    exact (if_neg hshort).trans (if_pos hsame)
  induction n with
  | zero => rw [tailFrom_zero_of_inr hnext]
  | succ n ih =>
    rw [tailFrom_succ_of_inr hnext, hzero]
    exact ih

/-- All frames of a run that does not end with their number have bytes. -/
theorem frameLen_pos_of_mem_tailFrom {n e : ℕ}
    (hend : (tailFrom m cards lim sub n e).ending ≠ .tooMany) {p : ℕ}
    (hp : p ∈ (tailFrom m cards lim sub n e).frames) : 0 < frameLen m p := by
  induction n generalizing e with
  | zero =>
    cases h : nextFrame m cards lim sub e with
    | inl ending =>
      rw [tailFrom_of_inl h] at hp
      cases hp
    | inr q =>
      rw [tailFrom_zero_of_inr h] at hend
      exact absurd rfl hend
  | succ n ih =>
    cases h : nextFrame m cards lim sub e with
    | inl ending =>
      rw [tailFrom_of_inl h] at hp
      cases hp
    | inr q =>
      rw [tailFrom_succ_of_inr h] at hp hend
      rcases List.mem_cons.mp hp with rfl | hp
      · obtain ⟨-, hq, -, hsame⟩ := nextFrame_eq_inr h
        by_contra hzero
        rw [Nat.eq_zero_of_not_pos hzero] at hend
        exact hend (tailFrom_of_frameLen_eq_zero cards (nextHeader_isSync hq) (nextHeader_le hq).2
          hsame (Nat.eq_zero_of_not_pos hzero) n)
      · exact ih hend hp

/-- Frames with bytes lie behind each other. -/
theorem Linked.pairwise {e stop : ℕ} {qs : List ℕ} (h : Linked m cards lim sub e qs stop)
    (hpos : ∀ q ∈ qs, 0 < frameLen m q) : qs.Pairwise (· < ·) := by
  induction h with
  | nil e => exact .nil
  | @cons e q stop qs hq hrest ih =>
    refine .cons (fun p hp => ?_) (ih fun p hp => hpos p (List.mem_cons_of_mem _ hp))
    have hbytes := hpos q List.mem_cons_self
    obtain ⟨-, -, -, -, hle, -⟩ := hrest.mem hp
    omega

/-- The frames of a run that becomes a vector lie behind each other. -/
theorem pairwise_frames {a : ℕ} (hstart : IsStart m cards a) (ha : a < lim)
    (hpos : 0 < (segmentAt m cards lim a).size) :
    (segmentAt m cards lim a).frames.Pairwise (· < ·) := by
  have hend : (segmentAt m cards lim a).ending ≠ .tooMany := by
    rintro hend
    rw [Segment.size, hend] at hpos
    exact absurd hpos (lt_irrefl 0)
  refine (linked_segmentAt hstart ha).pairwise fun q hq => ?_
  rcases List.mem_cons.mp hq with rfl | hq
  · by_contra hzero
    have hstuck := tailFrom_of_frameLen_eq_zero cards hstart.1 ha ⟨rfl, rfl, rfl⟩
      (Nat.eq_zero_of_not_pos hzero) (MAX_PACKAGES_NUM - 2)
    rw [segmentAt, Nat.eq_zero_of_not_pos hzero] at hend
    exact hend hstuck
  · exact frameLen_pos_of_mem_tailFrom hend hq

theorem pairwise_frames_of_mem_vectors {header len : ℕ} {s : Segment}
    (hs : s ∈ vectors m cards header len) : s.frames.Pairwise (· < ·) := by
  obtain ⟨-, hlt, hstart, heq, hpos, -⟩ := eq_segmentAt_of_mem_vectors hs
  rw [heq] at hpos ⊢
  exact pairwise_frames hstart hlt hpos

end Counting

/-- The frames of the vectors that a block puts into the table. -/
def registered (m : Mem) (cards : CardsStatus) (b : ℕ × ℕ) (u : Channel) : Set ℕ :=
  {p | ∃ key, ∃ v ∈ added m cards [b] u key, FrameIn m v p}

section Registered

variable {m : Mem} {cards : CardsStatus} {header len : ℕ}

/-- The number of frames of some vectors of a block. -/
theorem ncard_frames {ss : List Segment} (hss : ss.Sublist (vectors m cards header len)) :
    {p | ∃ s ∈ ss, p ∈ s.frames}.ncard = (ss.map fun s => s.frames.length).sum := by
  have hset : {p | ∃ s ∈ ss, p ∈ s.frames} = (ss.flatMap Segment.frames).toFinset := by
    ext p
    rw [Set.mem_ofPred_eq, Finset.mem_coe, List.mem_toFinset, List.mem_flatMap]
  have hnodup : (ss.flatMap Segment.frames).Nodup := by
    refine (List.pairwise_flatMap.mpr ⟨fun s hs => ?_, ?_⟩).imp Nat.ne_of_lt
    · exact pairwise_frames_of_mem_vectors (hss.subset hs)
    · -- the frames of a vector are below its end, those of the next one behind it
      refine ((pairwise_vectors m cards header len).sublist hss).imp_of_mem ?_
      rintro s t hs ht hle p hp q hq
      obtain ⟨-, -, -, -, habove, -⟩ := (linked_of_mem_vectors (hss.subset ht)).mem hq
      rw [start_add_size (hss.subset hs)] at hle
      exact (lt_limit_of_mem_frames (hss.subset hs) hp).trans_le (hle.trans habove)
  rw [hset, Set.ncard_coe_finset, List.toFinset_card_of_nodup hnodup, List.length_flatMap]

/-- **The frames that a block puts into the table** are those of some of its vectors, of all if and
only if the table has room for them. -/
theorem exists_registered (m : Mem) (cards : CardsStatus) (header len : ℕ) (u : Channel) :
    ∃ ss, ss.Sublist (vectors m cards header len) ∧
      (registered m cards (header, len) u).ncard = (ss.map fun s => s.frames.length).sum ∧
      (∀ key p, (∃ v ∈ added m cards [(header, len)] u key, FrameIn m v p) ↔
        ∃ s ∈ ss, (frameSub m s.start).hashId = key ∧ p ∈ s.frames) ∧
      (ss = vectors m cards header len ↔
        HasRoom u.table
          ((vectors m cards header len).map fun s => (frameSub m s.start).hashId)) := by
  obtain ⟨ss, hss, -, hadded, hroom⟩ := added_eq m cards header len u
  have hframes (key : ℤ) (p : ℕ) :
      (∃ v ∈ added m cards [(header, len)] u key, FrameIn m v p) ↔
        ∃ s ∈ ss, (frameSub m s.start).hashId = key ∧ p ∈ s.frames := by
    rw [hadded]
    constructor
    · rintro ⟨v, hv, hp⟩
      obtain ⟨e, he, rfl⟩ := List.mem_map.mp hv
      obtain ⟨he, hkey⟩ := List.mem_filter.mp he
      obtain ⟨s, hs, rfl⟩ := List.mem_map.mp he
      exact ⟨s, hs, of_decide_eq_true hkey,
        (frameIn_iff_of_mem_vectors (hss.subset hs) p).mp hp⟩
    · rintro ⟨s, hs, hkey, hp⟩
      refine ⟨(s.entry m).2, List.mem_map_of_mem (List.mem_filter.mpr ?_),
        (frameIn_iff_of_mem_vectors (hss.subset hs) p).mpr hp⟩
      exact ⟨List.mem_map_of_mem hs, decide_eq_true hkey⟩
  refine ⟨ss, hss, ?_, hframes, hroom⟩
  rw [← ncard_frames hss]
  refine congrArg Set.ncard (Set.ext fun p => ?_)
  rw [registered, Set.mem_ofPred_eq, Set.mem_ofPred_eq]
  simp only [hframes]
  exact ⟨fun ⟨_, s, hs, _, hp⟩ => ⟨s, hs, hp⟩, fun ⟨s, hs, hp⟩ => ⟨_, s, hs, rfl, hp⟩⟩

/-- Some of the vectors of a block have as many frames as all of them only if they are all. -/
theorem sum_frames_eq_iff {ss vs : List Segment} (h : ss.Sublist vs)
    (hne : ∀ s ∈ vs, s.frames ≠ []) :
    (ss.map fun s => s.frames.length).sum = (vs.map fun s => s.frames.length).sum ↔ ss = vs := by
  have hle {ss vs : List Segment} (h : ss.Sublist vs) :
      (ss.map fun s => s.frames.length).sum ≤ (vs.map fun s => s.frames.length).sum :=
    (h.map _).sum_le_sum fun _ _ => Nat.zero_le _
  induction h with
  | slnil => exact iff_of_true rfl rfl
  | @cons ss vs s h ih =>
    have hpos := List.length_pos_iff.mpr (hne s List.mem_cons_self)
    refine iff_of_false (fun hsum => ?_) fun heq => ?_
    · rw [List.map_cons, List.sum_cons] at hsum
      have hsum' := hle h
      omega
    · have hlen := h.length_le
      rw [heq, List.length_cons] at hlen
      omega
  | @cons_cons ss vs s h ih =>
    rw [List.map_cons, List.map_cons, List.sum_cons, List.sum_cons, Nat.add_left_cancel_iff,
      List.cons.injEq, and_iff_right rfl]
    exact ih fun t ht => hne t (List.mem_cons_of_mem _ ht)

theorem pkgs_of_kept {s : Segment} (hs : s.Kept len) : s.pkgs = s.frames.length := by
  have hpos := hs.1
  cases hend : s.ending with
  | tooMany =>
    rw [Segment.size, hend] at hpos
    exact absurd hpos (lt_irrefl 0)
  | _ => rw [Segment.pkgs, hend]

/-- All frames of the runs that become vectors are counted. -/
theorem sum_frames_le (len : ℕ) (ss : List Segment) :
    ((ss.filter (Segment.Kept len)).map fun s => s.frames.length).sum ≤
      (ss.map Segment.pkgs).sum := by
  induction ss with
  | nil => exact Nat.le_refl _
  | cons s ss ih =>
    rw [List.filter_cons, List.map_cons, List.sum_cons]
    split_ifs with hs
    · rw [List.map_cons, List.sum_cons, pkgs_of_kept (of_decide_eq_true hs)]
      exact Nat.add_le_add_left ih _
    · exact ih.trans (Nat.le_add_left _ _)

/-- The frames that are counted for some runs are those of the runs that become vectors if and only
if every other run has ended with the number of its frames. -/
theorem sum_pkgs_eq_iff {ss : List Segment} (hne : ∀ s ∈ ss, s.frames ≠ []) :
    (ss.map Segment.pkgs).sum =
        ((ss.filter (Segment.Kept len)).map fun s => s.frames.length).sum ↔
      ∀ s ∈ ss, s.Kept len ∨ s.ending = .tooMany := by
  have hzero {s : Segment} (hs : s.frames ≠ []) : s.pkgs = 0 ↔ s.ending = .tooMany := by
    have hpos := List.length_pos_iff.mpr hs
    cases hend : s.ending with
    | tooMany => simp only [Segment.pkgs, hend]
    | _ =>
      simp only [Segment.pkgs, hend, reduceCtorEq, iff_false]
      exact hpos.ne'
  induction ss with
  | nil => exact ⟨fun _ s hs => absurd hs List.not_mem_nil, fun _ => rfl⟩
  | cons s ss ih =>
    have hss := sum_frames_le len ss
    have hrest := ih fun s hs => hne s (List.mem_cons_of_mem _ hs)
    rw [List.forall_mem_cons]
    refine Iff.trans ?_ (and_congr_right' hrest)
    rw [List.filter_cons, List.map_cons, List.sum_cons]
    by_cases hs : s.Kept len
    · rw [if_pos (decide_eq_true hs), List.map_cons, List.sum_cons, pkgs_of_kept hs]
      simp only [hs, true_or, true_and, Nat.add_left_cancel_iff]
    · have hempty := hzero (hne s List.mem_cons_self)
      rw [if_neg (by rwa [decide_eq_true_eq]), ← hempty]
      simp only [hs, false_or]
      omega

end Registered

/-! ### Good frames and bad frames -/

/-- A good frame of a block that ends at `lim`. -/
structure IsGood (m : Mem) (cards : CardsStatus) (lim q : ℕ) : Prop where
  min : 24 ≤ frameLen m q
  max : frameLen m q ≤ 2048
  chip : cards.isValidChipid (frameSub m q).chipId = true
  fits : q + frameLen m q ≤ lim

/-- The good frames `qs` follow from `e` on, each at the next sync word, and the last of them ends
at `stop`. -/
inductive Follows (m : Mem) (cards : CardsStatus) (lim : ℕ) : ℕ → List ℕ → ℕ → Prop
  | nil (e : ℕ) : Follows m cards lim e [] e
  | cons {e q stop : ℕ} {qs : List ℕ} (hq : nextHeader m lim e = some q)
      (hgood : IsGood m cards lim q) (h : Follows m cards lim (q + frameLen m q) qs stop) :
      Follows m cards lim e (q :: qs) stop

/-- The block goes on behind `e`, but not with a good frame: the next frame is too long, of an
unknown chip or cut off by the end of the block, or there is none. -/
def IsBad (m : Mem) (cards : CardsStatus) (lim e : ℕ) : Prop :=
  e < lim ∧ ∀ q, nextHeader m lim e = some q →
    2048 < frameLen m q ∨ cards.isValidChipid (frameSub m q).chipId = false ∨
      lim < q + frameLen m q

/-- The runs of some frames. -/
def runsOf (m : Mem) (ps : List ℕ) : List (List ℕ) :=
  ps.splitBy fun p q => decide (SameParams (frameSub m p) (frameSub m q))

section Follows

variable {m : Mem} {cards : CardsStatus} {lim : ℕ}

theorem Follows.append {e stop : ℕ} {qs qs' : List ℕ}
    (h : Follows m cards lim e (qs ++ qs') stop) :
    ∃ mid, Follows m cards lim e qs mid ∧ Follows m cards lim mid qs' stop := by
  induction qs generalizing e with
  | nil => exact ⟨e, .nil e, h⟩
  | cons q qs ih =>
    cases h with
    | cons hq hgood hrest =>
      obtain ⟨mid, hfirst, hlast⟩ := ih hrest
      exact ⟨mid, .cons hq hgood hfirst, hlast⟩

theorem Follows.le {e stop : ℕ} {qs : List ℕ} (h : Follows m cards lim e qs stop) : e ≤ stop := by
  induction h with
  | nil e => exact Nat.le_refl e
  | cons hq _ _ ih =>
    have hle := nextHeader_le hq
    omega

theorem Follows.mem {e stop : ℕ} {qs : List ℕ} (h : Follows m cards lim e qs stop) {p : ℕ}
    (hp : p ∈ qs) : e ≤ p ∧ p < stop := by
  induction h with
  | nil e => cases hp
  | @cons e q stop qs hq hgood hrest ih =>
    have hle := nextHeader_le hq
    have hmin := hgood.min
    rcases List.mem_cons.mp hp with rfl | hp
    · have hstop := hrest.le
      omega
    · have hin := ih hp
      omega

/-- The frames can also be read from the first of them on. -/
theorem Follows.isStart {e q stop : ℕ} {qs : List ℕ} (h : Follows m cards lim e (q :: qs) stop) :
    IsStart m cards q ∧ q < lim ∧ Follows m cards lim q (q :: qs) stop ∧
      Follows m cards lim (q + frameLen m q) qs stop := by
  cases h with
  | cons hq hgood hrest =>
    have hsync := nextHeader_isSync hq
    have hlt := (nextHeader_le hq).2
    exact ⟨⟨hsync, hgood.max, hgood.chip⟩, hlt, .cons (nextHeader_of_isSync hsync hlt) hgood hrest,
      hrest⟩

/-- The rest of a run goes through good frames with its parameters, as far as their number
allows. -/
theorem tailFrom_of_follows {sub : NetSub} {e stop : ℕ} {qs : List ℕ}
    (h : Follows m cards lim e qs stop) (hsame : ∀ q ∈ qs, SameParams sub (frameSub m q)) (n : ℕ) :
    (qs.length ≤ n → tailFrom m cards lim sub n e =
        { tailFrom m cards lim sub (n - qs.length) stop with
          frames := qs ++ (tailFrom m cards lim sub (n - qs.length) stop).frames }) ∧
      (n < qs.length → (tailFrom m cards lim sub n e).ending = .tooMany) := by
  induction h generalizing n with
  | nil e => exact ⟨fun _ => rfl, fun hn => absurd hn (Nat.not_lt_zero _)⟩
  | @cons e q stop qs hq hgood hrest ih =>
    have hnext : nextFrame m cards lim sub e = .inr q := by
      have hin : ¬ lim ≤ e := by
        have hle := nextHeader_le hq
        omega
      rw [nextFrame, if_neg hin, hq]
      exact (if_neg (not_lt.mpr hgood.max)).trans (if_pos (hsame q List.mem_cons_self))
    have hsame' : ∀ q ∈ qs, SameParams sub (frameSub m q) :=
      fun q hq => hsame q (List.mem_cons_of_mem _ hq)
    cases n with
    | zero =>
      refine ⟨fun hn => absurd hn (Nat.not_succ_le_zero _), fun _ => ?_⟩
      rw [tailFrom_zero_of_inr hnext]
    | succ n =>
      obtain ⟨hfits, hmany⟩ := ih hsame' n
      rw [tailFrom_succ_of_inr hnext]
      refine ⟨fun hn => ?_, fun hn => hmany (Nat.lt_of_succ_lt_succ hn)⟩
      rw [hfits (Nat.le_of_succ_le_succ hn), List.length_cons, Nat.succ_sub_succ]
      rfl

/-- The run of good frames with the parameters of the first of them. -/
theorem segmentAt_of_follows {a stop : ℕ} {qs : List ℕ}
    (h : Follows m cards lim (a + frameLen m a) qs stop)
    (hsame : ∀ q ∈ qs, SameParams (frameSub m a) (frameSub m q)) :
    (qs.length + 1 < MAX_PACKAGES_NUM → segmentAt m cards lim a =
        let t := tailFrom m cards lim (frameSub m a) (MAX_PACKAGES_NUM - 2 - qs.length) stop
        ⟨a, a :: qs ++ t.frames, t.stop, t.ending⟩) ∧
      (MAX_PACKAGES_NUM ≤ qs.length + 1 → (segmentAt m cards lim a).ending = .tooMany) := by
  obtain ⟨hfits, hmany⟩ := tailFrom_of_follows h hsame (MAX_PACKAGES_NUM - 2)
  have hmax : 2 ≤ MAX_PACKAGES_NUM := by decide
  refine ⟨fun hn => ?_, fun hn => hmany (by omega)⟩
  rw [segmentAt, hfits (by omega)]
  rfl

/-- The run ends with its good frames if the frame behind them does not continue it. -/
theorem segmentAt_of_follows_inl {a stop : ℕ} {qs : List ℕ} {x : Ending}
    (h : Follows m cards lim (a + frameLen m a) qs stop)
    (hsame : ∀ q ∈ qs, SameParams (frameSub m a) (frameSub m q))
    (hfew : (a :: qs).length < MAX_PACKAGES_NUM)
    (hend : nextFrame m cards lim (frameSub m a) stop = .inl x) :
    segmentAt m cards lim a = ⟨a, a :: qs, stop, x⟩ := by
  have hseg := (segmentAt_of_follows h hsame).1 hfew
  dsimp only at hseg
  rwa [tailFrom_of_inl hend, List.append_nil] at hseg

/-- A bad frame that is neither too long nor of an unknown chip is cut off. -/
theorem IsBad.truncated {e q : ℕ} (h : IsBad m cards lim e) (hq : nextHeader m lim e = some q)
    (hshort : frameLen m q ≤ 2048) (hchip : cards.isValidChipid (frameSub m q).chipId = true) :
    lim < q + frameLen m q := by
  rcases h.2 q hq with hlong | hunknown | hcut
  · exact absurd hshort (not_le.mpr hlong)
  · rw [hchip] at hunknown
    cases hunknown
  · exact hcut

end Follows

/-! ### What becomes of the good frames -/

/-- The frames `ps` are in runs that become vectors under a key, and no other frames are counted. -/
def Spares (m : Mem) (key : ℤ) (len : ℕ) (ps : List ℕ) (ss : List Segment) : Prop :=
  (∀ p ∈ ps, ∃ s ∈ ss, s.Kept len ∧ p ∈ s.frames ∧ (frameSub m s.start).hashId = key) ∧
    ∀ s ∈ ss, s.Kept len ∨ s.ending = .tooMany

/-- The bad frame behind the runs `rs`, which end at `e`, does no harm to them. The runs are neither
too many nor too long, and the bad frame is not too long. If it has the parameters of the last run,
which it then continues, the run with it is still no longer than the block; otherwise the frame is
of an unknown chip, or no longer than the block, or one run too many. -/
structure Harmless (m : Mem) (cards : CardsStatus) (lim len n : ℕ) (rs : List (List ℕ)) (e : ℕ) :
    Prop where
  runs : rs.length ≤ n
  frames : ∀ r ∈ rs, r.length < MAX_PACKAGES_NUM
  short : ∀ q, nextHeader m lim e = some q → frameLen m q ≤ 2048
  same : ∀ q, nextHeader m lim e = some q → ∀ r ∈ rs.getLast?,
    SameParams (frameSub m (r.headD 0)) (frameSub m q) →
      r.length + 1 < MAX_PACKAGES_NUM ∧ q + frameLen m q ≤ r.headD 0 + len
  other : ∀ q, nextHeader m lim e = some q → ∀ r ∈ rs.getLast?,
    ¬ SameParams (frameSub m (r.headD 0)) (frameSub m q) →
      cards.isValidChipid (frameSub m q).chipId = false ∨ frameLen m q ≤ len ∨ rs.length = n

section Spares

variable {m : Mem} {cards : CardsStatus} {header len lim e : ℕ} {key : ℤ}

theorem Spares.kept {ps : List ℕ} {s : Segment} (h : Spares m key len ps [s]) (hne : ps ≠ []) :
    s.Kept len := by
  obtain ⟨p, ps, rfl⟩ := List.exists_cons_of_ne_nil hne
  obtain ⟨t, ht, hkept, -⟩ := h.1 p List.mem_cons_self
  rwa [← List.mem_singleton.mp ht]

/-- A run that is the last one read has to be kept. -/
theorem spares_single_iff {a n : ℕ} {ps : List ℕ} (hstart : IsStart m cards a) (ha : a < lim)
    (hlast : ∀ q, (segmentAt m cards lim a).ending ≠ .change q) (hne : ps ≠ [])
    (hframes : ∀ p ∈ ps, p ∈ (segmentAt m cards lim a).frames)
    (hkey : (frameSub m a).hashId = key) :
    Spares m key len ps (segments m cards lim (n + 1) a) ↔ (segmentAt m cards lim a).Kept len := by
  rw [segments_of_ne_change ha hstart hlast]
  refine ⟨fun h => h.kept hne, fun hkept => ⟨fun p hp => ?_, List.forall_mem_singleton.mpr ?_⟩⟩
  · exact ⟨_, List.mem_singleton_self _, hkept, hframes p hp, hkey⟩
  · exact .inl hkept

/-- A first run that is kept. -/
theorem spares_cons {ps : List ℕ} {s : Segment} (ss : List Segment) (hkept : s.Kept len)
    (hkey : (frameSub m s.start).hashId = key) (hother : ∀ p ∈ ps, p ∉ s.frames) :
    Spares m key len (s.frames ++ ps) (s :: ss) ↔ Spares m key len ps ss := by
  constructor
  · rintro ⟨hin, hall⟩
    refine ⟨fun p hp => ?_, fun t ht => hall t (List.mem_cons_of_mem _ ht)⟩
    obtain ⟨t, ht, hp'⟩ := hin p (List.mem_append_right _ hp)
    rcases List.mem_cons.mp ht with rfl | ht
    · exact absurd hp'.2.1 (hother p hp)
    · exact ⟨t, ht, hp'⟩
  · rintro ⟨hin, hall⟩
    refine ⟨fun p hp => ?_, fun t ht => ?_⟩
    · rcases List.mem_append.mp hp with hp | hp
      · exact ⟨s, List.mem_cons_self, hkept, hp, hkey⟩
      · obtain ⟨t, ht, hp'⟩ := hin p hp
        exact ⟨t, List.mem_cons_of_mem _ ht, hp'⟩
    · rcases List.mem_cons.mp ht with rfl | ht
      · exact .inl hkept
      · exact hall t ht

/-- The run of a frame that is cut off by the end of the block. -/
theorem segmentAt_of_truncated {q : ℕ} (hlong : lim < q + frameLen m q) :
    segmentAt m cards lim q = ⟨q, [q], q + frameLen m q, .passed⟩ := by
  have hnext : nextFrame m cards lim (frameSub m q) (q + frameLen m q) = .inl .passed := by
    rw [nextFrame, if_pos hlong.le]
  rw [segmentAt, tailFrom_of_inl hnext]

/-- A run of a frame that is cut off is kept, or there is no room for a further run. -/
theorem spares_truncated_iff {q n : ℕ} (hstart : IsStart m cards q) (hq : q < lim)
    (hlong : lim < q + frameLen m q) :
    Spares m key len [] (segments m cards lim n q) ↔ frameLen m q ≤ len ∨ n = 0 := by
  have hseg : segmentAt m cards lim q = ⟨q, [q], q + frameLen m q, .passed⟩ :=
    segmentAt_of_truncated hlong
  have hkept : (segmentAt m cards lim q).Kept len ↔ frameLen m q ≤ len := by
    rw [hseg]
    change 0 < q + frameLen m q - q ∧ q + frameLen m q - q ≤ len ↔ _
    omega
  cases n with
  | zero =>
    exact iff_of_true
      ⟨fun p hp => absurd hp List.not_mem_nil, fun s hs => absurd hs List.not_mem_nil⟩ (.inr rfl)
  | succ n =>
    rw [segments_of_ne_change hq hstart fun q' hq' => by rw [hseg] at hq'; cases hq']
    constructor
    · rintro ⟨-, hall⟩
      rcases hall _ (List.mem_singleton_self _) with hk | hend
      · exact .inl (hkept.mp hk)
      · rw [hseg] at hend
        cases hend
    · rintro (hle | hn)
      · refine ⟨fun p hp => absurd hp List.not_mem_nil, fun s hs => .inl ?_⟩
        rw [List.mem_singleton.mp hs]
        exact hkept.mpr hle
      · cases hn

/-- A run of too many frames costs the frames. -/
theorem not_spares_of_tooMany {a n : ℕ} {ps : List ℕ} (hstart : IsStart m cards a) (ha : a < lim)
    (hend : (segmentAt m cards lim a).ending = .tooMany) (hne : ps ≠ []) :
    ¬ Spares m key len ps (segments m cards lim (n + 1) a) := by
  intro h
  rw [segments_of_ne_change ha hstart fun q hq => by rw [hend] at hq; cases hq] at h
  have hpos := (h.kept hne).1
  rw [Segment.size, hend] at hpos
  exact absurd hpos (lt_irrefl 0)

/-- Whether the frame at `q` does harm to a single run. -/
theorem harmless_singleton_iff {n q : ℕ} {r : List ℕ} (hr : r.length < MAX_PACKAGES_NUM)
    (hq : nextHeader m lim e = some q) :
    Harmless m cards lim len (n + 1) [r] e ↔
      frameLen m q ≤ 2048 ∧
      (SameParams (frameSub m (r.headD 0)) (frameSub m q) →
        r.length + 1 < MAX_PACKAGES_NUM ∧ q + frameLen m q ≤ r.headD 0 + len) ∧
      (¬ SameParams (frameSub m (r.headD 0)) (frameSub m q) →
        cards.isValidChipid (frameSub m q).chipId = false ∨ frameLen m q ≤ len ∨ n = 0) := by
  constructor
  · intro h
    refine ⟨h.short q hq, h.same q hq r rfl, fun hdiff => ?_⟩
    rcases h.other q hq r rfl hdiff with hchip | hlen | hn
    · exact .inl hchip
    · exact .inr (.inl hlen)
    · rw [List.length_singleton] at hn
      exact .inr (.inr (by omega))
  · rintro ⟨hshort, hsame, hother⟩
    refine ⟨by rw [List.length_singleton]; omega, List.forall_mem_singleton.mpr hr, ?_, ?_, ?_⟩
    · rintro q' hq'
      rw [hq] at hq'
      rwa [← Option.some.inj hq']
    · rintro q' hq' r' hr'
      rw [hq] at hq'
      obtain rfl := Option.some.inj hq'
      obtain rfl := Option.some.inj hr'
      exact hsame
    · rintro q' hq' r' hr' hdiff
      rw [hq] at hq'
      obtain rfl := Option.some.inj hq'
      obtain rfl := Option.some.inj hr'
      rcases hother hdiff with hchip | hlen | rfl
      · exact .inl hchip
      · exact .inr (.inl hlen)
      · exact .inr (.inr rfl)

/-- A run with another run behind it is kept, and the other runs decide. -/
theorem spares_change_iff {a b mid n : ℕ} {qs ps : List ℕ} (hlim : lim = header + len)
    (ha : header ≤ a) (hrun : Follows m cards lim a (a :: qs) mid)
    (hsame : ∀ q ∈ qs, SameParams (frameSub m a) (frameSub m q))
    (hfew : (a :: qs).length < MAX_PACKAGES_NUM) (hkey : (frameSub m a).hashId = key)
    (hb : nextHeader m lim mid = some b)
    (hchange : nextFrame m cards lim (frameSub m a) mid = .inl (.change b))
    (hps : ∀ p ∈ ps, mid ≤ p) :
    Spares m key len (a :: qs ++ ps) (segments m cards lim (n + 1) a) ↔
      Spares m key len ps (segments m cards lim n b) := by
  obtain ⟨hstart, hlt, -, hrest⟩ := hrun.isStart
  have hseg := segmentAt_of_follows_inl hrest hsame hfew hchange
  have hbelow := hrun.mem List.mem_cons_self
  have hble := nextHeader_le hb
  have hkept : (segmentAt m cards lim a).Kept len := by
    rw [hseg]
    change 0 < b - a ∧ b - a ≤ len
    omega
  have hfr : (segmentAt m cards lim a).frames = a :: qs := by rw [hseg]
  have hother : ∀ p ∈ ps, p ∉ (segmentAt m cards lim a).frames := by
    rintro p hp hmem
    rw [hfr] at hmem
    have hlow := hrun.mem hmem
    have hhigh := hps p hp
    omega
  have hcons := spares_cons (segments m cards lim n b) hkept hkey hother
  rw [hfr] at hcons
  rw [segments_of_change (q := b) hlt hstart (by rw [hseg]), hcons]

/-- The last run of good frames and a bad frame that continues it: the run is as long as the bad
frame says. -/
theorem spares_last_iff_of_same {a n q : ℕ} {qs : List ℕ}
    (hfollows : Follows m cards lim a (a :: qs) e)
    (hsame : ∀ q ∈ qs, SameParams (frameSub m a) (frameSub m q))
    (hfew : (a :: qs).length < MAX_PACKAGES_NUM) (hkey : (frameSub m a).hashId = key)
    (hq : nextHeader m lim e = some q) (hnext : nextFrame m cards lim (frameSub m a) e = .inr q)
    (hcut : lim < q + frameLen m q) :
    Spares m key len (a :: qs) (segments m cards lim (n + 1) a) ↔
      (a :: qs).length + 1 < MAX_PACKAGES_NUM ∧ q + frameLen m q ≤ a + len := by
  obtain ⟨hstart, hlt, -, hrest⟩ := hfollows.isStart
  have hseg := (segmentAt_of_follows hrest hsame).1 hfew
  have hbelow := hfollows.mem List.mem_cons_self
  have hqle := nextHeader_le hq
  rw [List.length_cons] at hfew ⊢
  cases hk : MAX_PACKAGES_NUM - 2 - qs.length with
  | zero =>
    rw [hk, tailFrom_zero_of_inr hnext] at hseg
    refine iff_of_false ?_ fun h => by omega
    exact not_spares_of_tooMany hstart hlt (by rw [hseg]) (List.cons_ne_nil _ _)
  | succ k =>
    have hpassed : nextFrame m cards lim (frameSub m a) (q + frameLen m q) = .inl .passed := by
      rw [nextFrame, if_pos hcut.le]
    rw [hk, tailFrom_succ_of_inr hnext, tailFrom_of_inl hpassed] at hseg
    rw [spares_single_iff hstart hlt (fun q hq => by rw [hseg] at hq; cases hq)
      (List.cons_ne_nil _ _) (fun p hp => by rw [hseg]; exact List.mem_append_left _ hp) hkey, hseg]
    change 0 < q + frameLen m q - a ∧ q + frameLen m q - a ≤ len ↔ _
    omega

/-- The last run of good frames: the bad frame decides. -/
theorem spares_last_iff {a n : ℕ} {qs : List ℕ} (hlim : lim = header + len) (ha : header ≤ a)
    (hfollows : Follows m cards lim a (a :: qs) e)
    (hsame : ∀ q ∈ qs, SameParams (frameSub m a) (frameSub m q))
    (hkey : (frameSub m a).hashId = key) (hbad : IsBad m cards lim e) :
    Spares m key len (a :: qs) (segments m cards lim (n + 1) a) ↔
      Harmless m cards lim len (n + 1) [a :: qs] e := by
  obtain ⟨hstart, hlt, -, hrest⟩ := hfollows.isStart
  have hbelow := hfollows.mem List.mem_cons_self
  by_cases hmany : MAX_PACKAGES_NUM ≤ (a :: qs).length
  · have hend := (segmentAt_of_follows hrest hsame).2 hmany
    refine iff_of_false (not_spares_of_tooMany hstart hlt hend (List.cons_ne_nil _ _)) fun h => ?_
    exact absurd (h.frames _ List.mem_cons_self) (not_lt.mpr hmany)
  have hfew : (a :: qs).length < MAX_PACKAGES_NUM := not_le.mp hmany
  -- a run that ends at `e` has the good frames and is kept if it has bytes and fits
  have hsingle {x : Ending} (hend : nextFrame m cards lim (frameSub m a) e = .inl x)
      (hlast : ∀ q, x ≠ .change q) :
      Spares m key len (a :: qs) (segments m cards lim (n + 1) a) ↔
        Segment.Kept len ⟨a, a :: qs, e, x⟩ := by
    have hseg := segmentAt_of_follows_inl hrest hsame hfew hend
    rw [spares_single_iff hstart hlt (by rwa [hseg]) (List.cons_ne_nil _ _)
      (fun p hp => by rwa [hseg]) hkey, hseg]
  rcases nextFrame_cases m cards lim (frameSub m a) e with ⟨hpassed, -⟩ | ⟨hin, hnone, heq⟩ |
    ⟨q, -, hq, ⟨hlong, heq⟩ | ⟨hshort, ⟨hsame', heq⟩ | ⟨hdiff, ⟨hvalid, heq⟩ | ⟨hvalid, heq⟩⟩⟩⟩
  · exact absurd hbad.1 (not_lt.mpr hpassed)
  · -- no further frame: the run is kept
    rw [hsingle heq (fun q hq => by cases hq)]
    refine iff_of_true (show 0 < e - a ∧ e - a ≤ len by omega) ?_
    refine ⟨by rw [List.length_singleton]; omega, List.forall_mem_singleton.mpr hfew, ?_, ?_, ?_⟩
    all_goals
      rintro q hq
      rw [hnone] at hq
      cases hq
  · -- the frame is too long: nothing of the run is kept
    rw [hsingle heq (fun q hq => by cases hq), harmless_singleton_iff hfew hq]
    exact iff_of_false (fun h => absurd h.1 (lt_irrefl 0)) fun h => absurd h.1 (not_le.mpr hlong)
  · -- the frame continues the run, and is cut off
    have hcut := hbad.truncated hq hshort (by rw [← hsame'.1]; exact hstart.2.2)
    rw [spares_last_iff_of_same hfollows hsame hfew hkey hq heq hcut,
      harmless_singleton_iff hfew hq]
    exact ⟨fun h => ⟨hshort, fun _ => h, fun hdiff => absurd hsame' hdiff⟩, fun h => h.2.1 hsame'⟩
  · -- the frame starts a run of its own, and is cut off
    have hcut := hbad.truncated hq hshort hvalid
    have hchange : Spares m key len (a :: qs ++ []) (segments m cards lim (n + 1) a) ↔
        Spares m key len [] (segments m cards lim n q) :=
      spares_change_iff hlim ha hfollows hsame hfew hkey hq heq
        fun p hp => absurd hp List.not_mem_nil
    rw [List.append_nil] at hchange
    rw [hchange, harmless_singleton_iff hfew hq,
      spares_truncated_iff ⟨nextHeader_isSync hq, hshort, hvalid⟩ (nextHeader_le hq).2 hcut]
    refine ⟨fun h => ⟨hshort, fun hsame' => absurd hsame' hdiff, fun _ => .inr h⟩, fun h => ?_⟩
    refine (h.2.2 hdiff).resolve_left fun hchip => ?_
    rw [hvalid] at hchip
    cases hchip
  · -- the frame is of an unknown chip: the run in front of it is kept
    have hqle := nextHeader_le hq
    rw [hsingle heq (fun q hq => by cases hq), harmless_singleton_iff hfew hq]
    exact iff_of_true (show 0 < q - a ∧ q - a ≤ len by omega)
      ⟨hshort, fun hsame' => absurd hsame' hdiff, fun _ => .inl hvalid⟩

/-- A run in front of the last one. -/
theorem harmless_cons_iff {n : ℕ} {r : List ℕ} {rs : List (List ℕ)} (hne : rs ≠ [])
    (hr : r.length < MAX_PACKAGES_NUM) :
    Harmless m cards lim len (n + 1) (r :: rs) e ↔ Harmless m cards lim len n rs e := by
  obtain ⟨r', rs, rfl⟩ := List.exists_cons_of_ne_nil hne
  have hlast : (r :: r' :: rs).getLast? = (r' :: rs).getLast? := List.getLast?_cons_cons
  constructor
  · rintro ⟨hruns, hframes, hshort, hsame, hother⟩
    rw [hlast] at hsame hother
    refine ⟨Nat.le_of_succ_le_succ hruns, fun r hr => hframes r (List.mem_cons_of_mem _ hr), hshort,
      hsame, fun q hq r hr hdiff => ?_⟩
    exact (hother q hq r hr hdiff).imp_right fun h => h.imp_right Nat.succ.inj
  · rintro ⟨hruns, hframes, hshort, hsame, hother⟩
    refine ⟨Nat.succ_le_succ hruns, List.forall_mem_cons.mpr ⟨hr, hframes⟩, hshort, ?_, ?_⟩
    · rwa [hlast]
    · rw [hlast]
      rintro q hq r hr hdiff
      exact (hother q hq r hr hdiff).imp_right fun h => h.imp_right (congrArg Nat.succ)

/-- A run with another run behind it ends with the first frame of that one. -/
theorem Follows.exists_change {a : ℕ} {qs : List ℕ} {rs : List (List ℕ)}
    (h : Follows m cards lim a (a :: qs ++ rs.flatten) e) (hne : rs ≠ [])
    (hruns : ∀ r ∈ rs, r ≠ [])
    (hhead : ∀ r ∈ rs.head?, ¬ SameParams (frameSub m a) (frameSub m (r.headD 0))) :
    ∃ mid b, Follows m cards lim a (a :: qs) mid ∧ nextHeader m lim mid = some b ∧
      nextFrame m cards lim (frameSub m a) mid = .inl (.change b) ∧ b ∈ rs.flatten.head? ∧
      Follows m cards lim b rs.flatten e ∧ ∀ p ∈ rs.flatten, mid ≤ p := by
  obtain ⟨r, rs, rfl⟩ := List.exists_cons_of_ne_nil hne
  obtain ⟨b, qs', rfl⟩ := List.exists_cons_of_ne_nil (hruns r List.mem_cons_self)
  have hother : ¬ SameParams (frameSub m a) (frameSub m b) := hhead _ rfl
  obtain ⟨mid, hrun, hrest⟩ := h.append
  obtain ⟨hstart, -, hrest', -⟩ := hrest.isStart
  have hnext : nextHeader m lim mid = some b := by
    cases hrest with
    | cons hq _ _ => exact hq
  have hle := nextHeader_le hnext
  refine ⟨mid, b, hrun, hnext, ?_, rfl, hrest', fun p hp => (hrest.mem hp).1⟩
  rw [nextFrame, if_neg (by omega), hnext]
  exact (if_neg (not_lt.mpr hstart.2.1)).trans ((if_neg hother).trans (if_pos hstart.2.2))

/-- **When the runs of a block keep the good frames** in front of a bad one. -/
theorem spares_segments_iff {n a : ℕ} {rs : List (List ℕ)} (hlim : lim = header + len)
    (ha : header ≤ a) (hne : rs ≠ [])
    (hruns : ∀ r ∈ rs, r ≠ [] ∧ ∀ p ∈ r, SameParams (frameSub m (r.headD 0)) (frameSub m p))
    (hdiff : rs.IsChain fun r r' =>
      ¬ SameParams (frameSub m (r.headD 0)) (frameSub m (r'.headD 0)))
    (hfollows : Follows m cards lim a rs.flatten e) (hfirst : a ∈ rs.flatten.head?)
    (hkey : ∀ p ∈ rs.flatten, (frameSub m p).hashId = key) (hbad : IsBad m cards lim e) :
    Spares m key len rs.flatten (segments m cards lim n a) ↔ Harmless m cards lim len n rs e := by
  induction rs generalizing n a with
  | nil => exact absurd rfl hne
  | cons r rs ih =>
    obtain ⟨hr, hsame⟩ := hruns r List.mem_cons_self
    obtain ⟨b, qs, rfl⟩ := List.exists_cons_of_ne_nil hr
    obtain rfl : b = a := Option.some.inj hfirst
    have hkeyb : (frameSub m b).hashId = key :=
      hkey b (List.mem_flatten_of_mem List.mem_cons_self List.mem_cons_self)
    have hsame' : ∀ q ∈ qs, SameParams (frameSub m b) (frameSub m q) :=
      fun q hq => hsame q (List.mem_cons_of_mem _ hq)
    cases n with
    | zero =>
      refine iff_of_false (fun h => ?_) fun h => absurd h.runs (Nat.not_succ_le_zero _)
      obtain ⟨s, hs, -⟩ := h.1 b (List.mem_flatten_of_mem List.mem_cons_self List.mem_cons_self)
      cases hs
    | succ n =>
      by_cases hrs : rs = []
      · subst hrs
        rw [List.flatten_singleton] at hfollows ⊢
        exact spares_last_iff hlim ha hfollows hsame' hkeyb hbad
      · obtain ⟨hhead, hdiff'⟩ := List.isChain_cons.mp hdiff
        have hruns' := fun r hr => hruns r (List.mem_cons_of_mem _ hr)
        rw [List.flatten_cons] at hfollows hkey ⊢
        obtain ⟨mid, b', hrun, hnext, hchange, hfirst', hrest, hps⟩ :=
          hfollows.exists_change hrs (fun r hr => (hruns' r hr).1) hhead
        obtain ⟨hstart, hlt, -, hafter⟩ := hrun.isStart
        by_cases hmany : MAX_PACKAGES_NUM ≤ (b :: qs).length
        · have hend := (segmentAt_of_follows hafter hsame').2 hmany
          refine iff_of_false (not_spares_of_tooMany hstart hlt hend (List.cons_ne_nil _ _))
            fun h => ?_
          exact absurd (h.frames _ List.mem_cons_self) (not_lt.mpr hmany)
        have hfew : (b :: qs).length < MAX_PACKAGES_NUM := not_le.mp hmany
        have hbelow := hrun.mem List.mem_cons_self
        have hle := nextHeader_le hnext
        rw [spares_change_iff hlim ha hrun hsame' hfew hkeyb hnext hchange hps,
          harmless_cons_iff hrs hfew]
        exact ih (by omega) hrs hruns' hdiff' hrest hfirst'
          fun p hp => hkey p (List.mem_append_right _ hp)

/-- The keys of the vectors of runs in front of a bad frame: one for each run, and one for a frame
that is cut off by the end of the block and does not continue the last run. -/
def vectorKeys (m : Mem) (cards : CardsStatus) (lim n : ℕ) (rs : List (List ℕ)) (e : ℕ) : List ℤ :=
  rs.map (fun r => (frameSub m (r.headD 0)).hashId) ++
    match nextHeader m lim e with
    | none => []
    | some q =>
      if cards.isValidChipid (frameSub m q).chipId = true ∧ rs.length < n ∧
          ∀ r ∈ rs.getLast?, ¬ SameParams (frameSub m (r.headD 0)) (frameSub m q) then
        [(frameSub m q).hashId]
      else []

theorem vectorKeys_cons {n : ℕ} (r : List ℕ) {rs : List (List ℕ)} (hne : rs ≠ []) :
    vectorKeys m cards lim (n + 1) (r :: rs) e =
      (frameSub m (r.headD 0)).hashId :: vectorKeys m cards lim n rs e := by
  obtain ⟨r', rs, rfl⟩ := List.exists_cons_of_ne_nil hne
  have hlast : (r :: r' :: rs).getLast? = (r' :: rs).getLast? := List.getLast?_cons_cons
  have hlen : (r :: r' :: rs).length < n + 1 ↔ (r' :: rs).length < n := Nat.succ_lt_succ_iff
  simp only [vectorKeys, hlast, hlen]
  rfl

theorem vectorKeys_singleton {n q : ℕ} {r : List ℕ} (hq : nextHeader m lim e = some q) :
    vectorKeys m cards lim (n + 1) [r] e =
      (frameSub m (r.headD 0)).hashId ::
        if cards.isValidChipid (frameSub m q).chipId = true ∧ 0 < n ∧
            ¬ SameParams (frameSub m (r.headD 0)) (frameSub m q) then
          [(frameSub m q).hashId]
        else [] := by
  have hlen : [r].length < n + 1 ↔ 0 < n := Nat.succ_lt_succ_iff
  have hlast : (∀ r' ∈ [r].getLast?, ¬ SameParams (frameSub m (r'.headD 0)) (frameSub m q)) ↔
      ¬ SameParams (frameSub m (r.headD 0)) (frameSub m q) := by
    simp only [List.getLast?_singleton, Option.mem_some_iff, forall_eq']
  simp only [vectorKeys, hq, hlen, hlast]
  rfl

/-- The last run of good frames and a harmless frame behind it: their vectors. -/
theorem Harmless.map_key_last {a n : ℕ} {qs : List ℕ} (hlim : lim = header + len) (ha : header ≤ a)
    (hfollows : Follows m cards lim a (a :: qs) e)
    (hsame : ∀ q ∈ qs, SameParams (frameSub m a) (frameSub m q)) (hbad : IsBad m cards lim e)
    (h : Harmless m cards lim len (n + 1) [a :: qs] e) :
    (∀ s ∈ segments m cards lim (n + 1) a, s.Kept len) ∧
      (segments m cards lim (n + 1) a).map (fun s => (frameSub m s.start).hashId) =
        vectorKeys m cards lim (n + 1) [a :: qs] e := by
  obtain ⟨hstart, hlt, -, hrest⟩ := hfollows.isStart
  have hbelow := hfollows.mem List.mem_cons_self
  have hfew := h.frames _ List.mem_cons_self
  -- a run that ends at `e` and is the last one
  have hsingle {x : Ending} (hend : nextFrame m cards lim (frameSub m a) e = .inl x)
      (hlast : ∀ q, x ≠ .change q) (hkept : Segment.Kept len ⟨a, a :: qs, e, x⟩) :
      (∀ s ∈ segments m cards lim (n + 1) a, s.Kept len) ∧
        (segments m cards lim (n + 1) a).map (fun s => (frameSub m s.start).hashId) =
          [(frameSub m a).hashId] := by
    have hseg := segmentAt_of_follows_inl hrest hsame hfew hend
    rw [segments_of_ne_change hlt hstart (by rwa [hseg]), hseg]
    exact ⟨List.forall_mem_singleton.mpr hkept, rfl⟩
  rcases nextFrame_cases m cards lim (frameSub m a) e with ⟨hpassed, -⟩ | ⟨hin, hnone, heq⟩ |
    ⟨q, -, hq, ⟨hlong, heq⟩ | ⟨hshort, ⟨hsame', heq⟩ | ⟨hdiff, ⟨hvalid, heq⟩ | ⟨hvalid, heq⟩⟩⟩⟩
  · exact absurd hbad.1 (not_lt.mpr hpassed)
  · -- no further frame
    have hkeys : vectorKeys m cards lim (n + 1) [a :: qs] e = [(frameSub m a).hashId] := by
      rw [vectorKeys, hnone]
      rfl
    rw [hkeys]
    exact hsingle heq (fun q hq => by cases hq) (show 0 < e - a ∧ e - a ≤ len by omega)
  · exact absurd (h.short q hq) (not_le.mpr hlong)
  · -- the frame continues the run, and is cut off
    have hcut := hbad.truncated hq hshort (by rw [← hsame'.1]; exact hstart.2.2)
    obtain ⟨hmore, hfits⟩ := h.same q hq (a :: qs) rfl hsame'
    obtain ⟨k, hk⟩ : ∃ k, MAX_PACKAGES_NUM - 2 - qs.length = k + 1 := by
      rw [List.length_cons] at hmore
      exact ⟨MAX_PACKAGES_NUM - 3 - qs.length, by omega⟩
    have hpassed : nextFrame m cards lim (frameSub m a) (q + frameLen m q) = .inl .passed := by
      rw [nextFrame, if_pos hcut.le]
    have hseg := (segmentAt_of_follows hrest hsame).1 hfew
    rw [hk, tailFrom_succ_of_inr heq, tailFrom_of_inl hpassed] at hseg
    have hle := nextHeader_le hq
    rw [vectorKeys_singleton hq, if_neg fun hc => hc.2.2 hsame',
      segments_of_ne_change hlt hstart (fun q hq => by rw [hseg] at hq; cases hq), hseg]
    refine ⟨List.forall_mem_singleton.mpr ?_, rfl⟩
    change 0 < q + frameLen m q - a ∧ q + frameLen m q - a ≤ len
    change q + frameLen m q ≤ a + len at hfits
    omega
  · -- the frame starts a run of its own, and is cut off
    have hcut := hbad.truncated hq hshort hvalid
    have hseg := segmentAt_of_follows_inl hrest hsame hfew heq
    have hle := nextHeader_le hq
    have hkept : Segment.Kept len ⟨a, a :: qs, e, .change q⟩ :=
      show 0 < q - a ∧ q - a ≤ len by omega
    rw [vectorKeys_singleton hq, segments_of_change (q := q) hlt hstart (by rw [hseg]), hseg]
    cases n with
    | zero =>
      rw [if_neg fun hc => lt_irrefl 0 hc.2.1]
      exact ⟨List.forall_mem_singleton.mpr hkept, rfl⟩
    | succ n =>
      have hfits : frameLen m q ≤ len := by
        rcases h.other q hq _ rfl hdiff with hchip | hlen | hn
        · rw [hvalid] at hchip
          cases hchip
        · exact hlen
        · cases hn
      have hlast : segmentAt m cards lim q = ⟨q, [q], q + frameLen m q, .passed⟩ :=
        segmentAt_of_truncated hcut
      rw [if_pos ⟨hvalid, Nat.succ_pos n, hdiff⟩, segments_of_ne_change hle.2
        ⟨nextHeader_isSync hq, hshort, hvalid⟩ (fun q hq => by rw [hlast] at hq; cases hq), hlast]
      refine ⟨List.forall_mem_cons.mpr ⟨hkept, List.forall_mem_singleton.mpr ?_⟩, rfl⟩
      change 0 < q + frameLen m q - q ∧ q + frameLen m q - q ≤ len
      omega
  · -- the frame is of an unknown chip
    have hle := nextHeader_le hq
    rw [vectorKeys_singleton hq, if_neg fun hc => by rw [hvalid] at hc; cases hc.1]
    exact hsingle heq (fun q hq => by cases hq) (show 0 < q - a ∧ q - a ≤ len by omega)

/-- **The vectors of runs in front of a harmless frame.** -/
theorem Harmless.map_key_segments {n a : ℕ} {rs : List (List ℕ)} (hlim : lim = header + len)
    (ha : header ≤ a) (hne : rs ≠ [])
    (hruns : ∀ r ∈ rs, r ≠ [] ∧ ∀ p ∈ r, SameParams (frameSub m (r.headD 0)) (frameSub m p))
    (hdiff : rs.IsChain fun r r' =>
      ¬ SameParams (frameSub m (r.headD 0)) (frameSub m (r'.headD 0)))
    (hfollows : Follows m cards lim a rs.flatten e) (hfirst : a ∈ rs.flatten.head?)
    (hbad : IsBad m cards lim e) (h : Harmless m cards lim len n rs e) :
    (∀ s ∈ segments m cards lim n a, s.Kept len) ∧
      (segments m cards lim n a).map (fun s => (frameSub m s.start).hashId) =
        vectorKeys m cards lim n rs e := by
  induction rs generalizing n a with
  | nil => exact absurd rfl hne
  | cons r rs ih =>
    obtain ⟨n, rfl⟩ : ∃ k, n = k + 1 := Nat.exists_eq_add_one_of_ne_zero
      (Nat.ne_of_gt ((Nat.zero_lt_succ _).trans_le h.runs))
    obtain ⟨hr, hsame⟩ := hruns r List.mem_cons_self
    obtain ⟨b, qs, rfl⟩ := List.exists_cons_of_ne_nil hr
    obtain rfl : b = a := Option.some.inj hfirst
    have hsame' : ∀ q ∈ qs, SameParams (frameSub m b) (frameSub m q) :=
      fun q hq => hsame q (List.mem_cons_of_mem _ hq)
    by_cases hrs : rs = []
    · subst hrs
      rw [List.flatten_singleton] at hfollows
      exact h.map_key_last hlim ha hfollows hsame' hbad
    · have hfew := h.frames _ List.mem_cons_self
      rw [harmless_cons_iff hrs hfew] at h
      obtain ⟨hhead, hdiff'⟩ := List.isChain_cons.mp hdiff
      have hruns' := fun r hr => hruns r (List.mem_cons_of_mem _ hr)
      rw [List.flatten_cons] at hfollows
      obtain ⟨mid, b', hrun, hnext, hchange, hfirst', hrest, -⟩ :=
        hfollows.exists_change hrs (fun r hr => (hruns' r hr).1) hhead
      obtain ⟨hstart, hlt, -, hafter⟩ := hrun.isStart
      have hbelow := hrun.mem List.mem_cons_self
      have hle := nextHeader_le hnext
      have hseg := segmentAt_of_follows_inl hafter hsame' hfew hchange
      have hkept : Segment.Kept len ⟨b, b :: qs, mid, .change b'⟩ :=
        show 0 < b' - b ∧ b' - b ≤ len by omega
      obtain ⟨hall, hkeys⟩ := ih (by omega) hrs hruns' hdiff' hrest hfirst' h
      rw [segments_of_change (q := b') hlt hstart (by rw [hseg]), hseg, List.map_cons, hkeys,
        vectorKeys_cons _ hrs]
      exact ⟨List.forall_mem_cons.mpr ⟨hkept, hall⟩, rfl⟩

end Spares

/-! ### The router in front of a bad frame -/

/-- The good frames `ps` of a block are in the table, under the key of the first frame, and as many
frames are counted as forwarded as the block has put into the table. -/
structure KeepsGoodFrames (m : Mem) (cards : CardsStatus) (header len : ℕ) (ps : List ℕ)
    (u : Channel) : Prop where
  good : ∀ p ∈ ps, ∃ v ∈ added m cards [(header, len)] u (frameSub m header).hashId, FrameIn m v p
  counted : (xdmaDataDispatcherBuffer m cards [(header, len)] u).stat.forwardPkgs =
    u.stat.forwardPkgs + (registered m cards (header, len) u).ncard

section Router

variable {m : Mem} {cards : CardsStatus} {header len : ℕ}

/-- The frames that are counted for a block. -/
theorem forwardPkgs_dispatchBlock (u : Channel) :
    (dispatchBlock m cards u header len).stat.forwardPkgs =
      u.stat.forwardPkgs + ((blockRuns m cards header len).map Segment.pkgs).sum := by
  have hstat := (stat_foldl_load m u (vectors m cards header len)).1
  rw [dispatchBlock, dispatchLoop_block]
  exact congrArg (· + _) hstat

/-- The router keeps the good frames of a block if and only if its runs do and the table has room
for their vectors. -/
theorem keepsGoodFrames_iff_spares {ps : List ℕ} {u : Channel} :
    KeepsGoodFrames m cards header len ps u ↔
      Spares m (frameSub m header).hashId len ps (blockRuns m cards header len) ∧
        HasRoom u.table
          ((vectors m cards header len).map fun s => (frameSub m s.start).hashId) := by
  have hne : ∀ s ∈ blockRuns m cards header len, s.frames ≠ [] := by
    rintro s hs
    rw [(eq_segmentAt_of_mem_blockRuns hs).2.2.2]
    exact List.cons_ne_nil _ _
  obtain ⟨ss, hss, hcard, hframes, hroom⟩ := exists_registered m cards header len u
  have hcount : (xdmaDataDispatcherBuffer m cards [(header, len)] u).stat.forwardPkgs =
      u.stat.forwardPkgs + (registered m cards (header, len) u).ncard ↔
        (∀ s ∈ blockRuns m cards header len, s.Kept len ∨ s.ending = .tooMany) ∧
          ss = vectors m cards header len := by
    -- what is in the table is at most what is filed, and that is at most what is counted
    have hle : (ss.map fun s => s.frames.length).sum ≤
        ((vectors m cards header len).map fun s => s.frames.length).sum :=
      (hss.map _).sum_le_sum fun _ _ => Nat.zero_le _
    have hle' := sum_frames_le len (blockRuns m cards header len)
    have hall := sum_frames_eq_iff hss fun s hs => hne s (mem_vectors.mp hs).1
    have hkept : _ ↔ ∀ s ∈ blockRuns m cards header len, s.Kept len ∨ s.ending = .tooMany :=
      sum_pkgs_eq_iff hne
    change (dispatchBlock m cards u header len).stat.forwardPkgs = _ ↔ _
    rw [forwardPkgs_dispatchBlock, hcard, Nat.add_left_cancel_iff, ← hall, ← hkept]
    rw [vectors] at hle ⊢
    omega
  have hgood (p : ℕ) : (∃ v ∈ added m cards [(header, len)] u (frameSub m header).hashId,
      FrameIn m v p) ↔
        ∃ s ∈ ss, (frameSub m s.start).hashId = (frameSub m header).hashId ∧ p ∈ s.frames :=
    hframes _ p
  rw [← hroom]
  constructor
  · rintro ⟨hin, hcounted⟩
    obtain ⟨hall, rfl⟩ := hcount.mp hcounted
    refine ⟨⟨fun p hp => ?_, hall⟩, rfl⟩
    obtain ⟨s, hs, hkey, hframe⟩ := (hgood p).mp (hin p hp)
    obtain ⟨hrun, hkept⟩ := mem_vectors.mp hs
    exact ⟨s, hrun, hkept, hframe, hkey⟩
  · rintro ⟨⟨hin, hall⟩, rfl⟩
    refine ⟨fun p hp => (hgood p).mpr ?_, hcount.mpr ⟨hall, rfl⟩⟩
    obtain ⟨s, hrun, hkept, hframe, hkey⟩ := hin p hp
    exact ⟨s, mem_vectors.mpr ⟨hrun, hkept⟩, hkey, hframe⟩

/-- **A bad frame does not cost the good frames before it** if and only if it is harmless, in a
block that the router reads at all, and the table has room for the vectors. The block starts with
the good frames `ps`, all with one key, and a bad frame follows behind them. -/
theorem keepsGoodFrames_iff {ps : List ℕ} {e : ℕ} {u : Channel}
    (hfirst : header ∈ ps.head?) (hfollows : Follows m cards (header + len) header ps e)
    (hkey : ∀ p ∈ ps, (frameSub m p).hashId = (frameSub m header).hashId)
    (hbad : IsBad m cards (header + len) e) :
    KeepsGoodFrames m cards header len ps u ↔
      len ≤ XDMA_BLOCK_SIZE ∧
        Harmless m cards (header + len) len XDMA_DATA_TYPE_MAX_PKGS (runsOf m ps) e ∧
        HasRoom u.table
          (vectorKeys m cards (header + len) XDMA_DATA_TYPE_MAX_PKGS (runsOf m ps) e) := by
  have hflat : (runsOf m ps).flatten = ps := List.flatten_splitBy _ _
  have hne : runsOf m ps ≠ [] := by
    refine List.splitBy_ne_nil.mpr ?_
    rintro rfl
    cases hfirst
  have hR := sameParams_equivalence (frameSub m)
  have hruns : ∀ r ∈ runsOf m ps, r ≠ [] ∧
      ∀ p ∈ r, SameParams (frameSub m (r.headD 0)) (frameSub m p) := fun r hr =>
    ⟨List.ne_nil_of_mem_splitBy hr, fun p hp => rel_headD_of_mem_splitBy hR hr hp 0⟩
  have hdiff := isChain_headD_splitBy hR ps 0
  have hsplit := spares_segments_iff (n := XDMA_DATA_TYPE_MAX_PKGS) rfl (Nat.le_refl header) hne
    hruns hdiff (by rwa [hflat]) (by rwa [hflat]) (by rwa [hflat]) hbad
  rw [hflat] at hsplit
  rw [keepsGoodFrames_iff_spares]
  by_cases hlen : XDMA_BLOCK_SIZE < len
  · rw [blockRuns, if_pos hlen]
    refine iff_of_false (fun h => ?_) fun h => absurd h.1 (not_le.mpr hlen)
    obtain ⟨s, hs, -⟩ := h.1.1 header (List.mem_of_mem_head? hfirst)
    cases hs
  · have hblock : blockRuns m cards header len =
        segments m cards (header + len) XDMA_DATA_TYPE_MAX_PKGS header := if_neg hlen
    rw [hblock, hsplit, and_iff_right (not_lt.mp hlen)]
    refine and_congr_right fun hharmless => ?_
    obtain ⟨hkept, hkeys⟩ := hharmless.map_key_segments rfl (Nat.le_refl header) hne hruns hdiff
      (by rwa [hflat]) (by rwa [hflat]) hbad
    have hvectors : vectors m cards header len =
        segments m cards (header + len) XDMA_DATA_TYPE_MAX_PKGS header := by
      rw [vectors, hblock]
      exact List.filter_eq_self.mpr fun s hs => decide_eq_true (hkept s hs)
    rw [hvectors, hkeys]

end Router

/-- A good frame and a frame of a slot without a card. -/
theorem keepsGoodFrames_unknown_chip :
    KeepsGoodFrames (Mem.ofList (headerBytes 1 24 0x502 1 0 ++ headerBytes 1 24 0x302 1 0))
      CardsStatus.slotFive 0 48 [0] {} := by
  have hfollows : Follows (Mem.ofList (headerBytes 1 24 0x502 1 0 ++ headerBytes 1 24 0x302 1 0))
      CardsStatus.slotFive (0 + 48) 0 [0] 24 :=
    .cons (by decide +kernel) ⟨by decide, by decide, by decide, by decide⟩ (.nil 24)
  have hq : nextHeader (Mem.ofList (headerBytes 1 24 0x502 1 0 ++ headerBytes 1 24 0x302 1 0))
      (0 + 48) 24 = some 24 := by
    decide +kernel
  have hbad : IsBad (Mem.ofList (headerBytes 1 24 0x502 1 0 ++ headerBytes 1 24 0x302 1 0))
      CardsStatus.slotFive (0 + 48) 24 := by
    refine ⟨by decide, fun q hq' => .inr (.inl ?_)⟩
    rw [hq] at hq'
    obtain rfl := Option.some.inj hq'
    decide +kernel
  refine (keepsGoodFrames_iff rfl hfollows (by decide +kernel) hbad).mpr ⟨by decide, ?_, ?_⟩
  · exact (harmless_singleton_iff (n := 65535) (r := [0]) (by decide) hq).mpr
      ⟨by decide +kernel, by decide +kernel, fun _ => .inl (by decide +kernel)⟩
  · refine hasRoom_create (le_of_eq_of_le (b := 1) ?_ (by decide))
    decide +kernel

/-- A good frame and a frame with a length of more than 2048 bytes: the good frame is counted, but
nothing is filed. -/
theorem not_keepsGoodFrames_long :
    Follows (Mem.ofList (headerBytes 1 24 0x502 1 0 ++ headerBytes 1 2049 0x502 1 0))
        CardsStatus.slotFive (0 + 48) 0 [0] 24 ∧
      IsBad (Mem.ofList (headerBytes 1 24 0x502 1 0 ++ headerBytes 1 2049 0x502 1 0))
        CardsStatus.slotFive (0 + 48) 24 ∧
      ¬ KeepsGoodFrames (Mem.ofList (headerBytes 1 24 0x502 1 0 ++ headerBytes 1 2049 0x502 1 0))
        CardsStatus.slotFive 0 48 [0] {} := by
  have hq : nextHeader (Mem.ofList (headerBytes 1 24 0x502 1 0 ++ headerBytes 1 2049 0x502 1 0))
      (0 + 48) 24 = some 24 := by
    decide +kernel
  refine ⟨.cons (by decide +kernel) ⟨by decide, by decide, by decide, by decide⟩ (.nil 24),
    ⟨by decide, fun q hq' => .inl ?_⟩, fun h => ?_⟩
  · rw [hq] at hq'
    obtain rfl := Option.some.inj hq'
    decide +kernel
  · obtain ⟨ss, hss, -, hframes, -⟩ := exists_registered
      (Mem.ofList (headerBytes 1 24 0x502 1 0 ++ headerBytes 1 2049 0x502 1 0))
      CardsStatus.slotFive 0 48 {}
    have hnone : vectors (Mem.ofList (headerBytes 1 24 0x502 1 0 ++ headerBytes 1 2049 0x502 1 0))
        CardsStatus.slotFive 0 48 = [] := by
      decide +kernel
    obtain ⟨s, hs, -⟩ := (hframes _ 0).mp (h.good 0 List.mem_cons_self)
    rw [hnone] at hss
    exact absurd (hss.subset hs) List.not_mem_nil

end M57Card.Uplink
