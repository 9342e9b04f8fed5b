import M57Card.Uplink.Dispatch

/-!
# The vectors of a call and their frames

The vectors that a call of the router files are those of the kept runs of its blocks (`mem_filed`).
Read on its own, a vector has a frame at its start, and each other frame at the next sync word
behind its predecessor (`FrameIn`); these are the frames of the run that the vector was made of
(`frameIn_iff`).

## Main definitions

* `filed` : the keys and the vectors that a call files.
* `FrameIn` : the frames of a vector.

## Main results

* `mem_filed`, `forall_mem_filed` : the vectors that a call files.
* `segmentAt_limit` : where the vector of a run ends.
* `frameIn_iff` : the frames of the vector of a run.
-/

namespace M57Card.Uplink

open M57

/-- The keys and the vectors that a call of the router files. -/
def filed (m : Mem) (cards : CardsStatus) (blocks : List (ℕ × ℕ)) (u : Channel) :
    List (ℤ × Iovec) :=
  (xdmaDataDispatcherBuffer m cards blocks u).renewed.drop u.renewed.length

/-- The frames of a vector: the first one is at its start, and each other one at the next sync word
behind its predecessor. -/
inductive FrameIn (m : Mem) (v : Iovec) : ℕ → Prop
  | first : FrameIn m v v.base
  | next {p q : ℕ} (hp : FrameIn m v p)
      (hq : nextHeader m (v.base + v.len) (p + frameLen m p) = some q) : FrameIn m v q

/-- The vector of a run. -/
def Segment.iovec (s : Segment) : Iovec := ⟨s.start, s.size⟩

section Frames

variable {m : Mem} {cards : CardsStatus} {lim a : ℕ}

/-- The frames of a run follow each other from its start on. -/
theorem linked_segmentAt (hstart : IsStart m cards a) (ha : a < lim) :
    Linked m cards lim (frameSub m a) a (segmentAt m cards lim a).frames
      (segmentAt m cards lim a).stop := by
  have hfirst : nextFrame m cards lim (frameSub m a) a = .inr a := by
    rw [nextFrame, if_neg (not_le.mpr ha), nextHeader_of_isSync hstart.1 ha]
    exact (if_neg (not_lt.mpr hstart.2.1)).trans (if_pos ⟨rfl, rfl, rfl⟩)
  exact .cons hfirst (linked_tailFrom _ _ _ _ _ _)

/-- A frame of a run. -/
theorem Linked.mem {sub : NetSub} {e stop : ℕ} {qs : List ℕ}
    (h : Linked m cards lim sub e qs stop) {p : ℕ} (hp : p ∈ qs) :
    p < lim ∧ IsSync m p ∧ frameLen m p ≤ 2048 ∧ SameParams sub (frameSub m p) ∧
      e ≤ p ∧ p + frameLen m p ≤ stop := by
  induction h with
  | nil e => cases hp
  | cons hq hrest ih =>
    obtain ⟨hlt, hnext, hlen, hsame⟩ := nextFrame_eq_inr hq
    have hle := nextHeader_le hnext
    rcases List.mem_cons.mp hp with rfl | hp
    · exact ⟨hle.2, nextHeader_isSync hnext, hlen, hsame, hle.1, hrest.le⟩
    · obtain ⟨hlt', hsync, hlen', hsame', hle', hstop⟩ := ih hp
      exact ⟨hlt', hsync, hlen', hsame', by omega, hstop⟩

/-- Behind a frame of a run is the next one, or the end of the run. -/
theorem Linked.next {sub : NetSub} {e stop : ℕ} {qs : List ℕ}
    (h : Linked m cards lim sub e qs stop) {p : ℕ} (hp : p ∈ qs) :
    (∃ q ∈ qs, nextHeader m lim (p + frameLen m p) = some q) ∨ p + frameLen m p = stop := by
  induction h with
  | nil e => cases hp
  | @cons e q stop qs hq hrest ih =>
    rcases List.mem_cons.mp hp with rfl | hp
    · cases hrest with
      | nil => exact .inr rfl
      | @cons _ q' _ qs hq' hrest =>
        exact .inl ⟨q', List.mem_cons_of_mem _ List.mem_cons_self, (nextFrame_eq_inr hq').2.1⟩
    · rcases ih hp with ⟨q', hmem, hq'⟩ | hstop
      · exact .inl ⟨q', List.mem_cons_of_mem _ hmem, hq'⟩
      · exact .inr hstop

/-- The last frame of a run ends where the run does. -/
theorem Linked.last {sub : NetSub} {e stop : ℕ} {qs : List ℕ}
    (h : Linked m cards lim sub e qs stop) (hne : qs ≠ []) :
    ∃ p ∈ qs, p + frameLen m p = stop := by
  induction h with
  | nil e => exact absurd rfl hne
  | @cons e q stop qs hq hrest ih =>
    by_cases hnil : qs = []
    · subst hnil
      cases hrest
      exact ⟨q, List.mem_cons_self, rfl⟩
    · obtain ⟨p, hp, hstop⟩ := ih hnil
      exact ⟨p, List.mem_cons_of_mem _ hp, hstop⟩

/-- A header is the next one for every larger limit, and for every smaller one that is behind it. -/
theorem nextHeader_of_lt {lim' p q : ℕ} (h : nextHeader m lim p = some q) (hlt : q < lim') :
    nextHeader m lim' p = some q := by
  obtain ⟨j, hj, -, hsync, hbefore⟩ := nextHeader_eq_some.mp h
  exact nextHeader_eq_some.mpr ⟨j, hj, hlt, hsync, hbefore⟩

/-- The next header does not depend on the limit. -/
theorem nextHeader_unique {lim' p q q' : ℕ} (h : nextHeader m lim p = some q)
    (h' : nextHeader m lim' p = some q') : q = q' := by
  obtain ⟨j, rfl, -, hsync, hbefore⟩ := nextHeader_eq_some.mp h
  obtain ⟨j', rfl, -, hsync', hbefore'⟩ := nextHeader_eq_some.mp h'
  rcases Nat.lt_trichotomy j j' with hlt | rfl | hlt
  · exact absurd hsync (hbefore' j hlt)
  · rfl
  · exact absurd hsync' (hbefore j' hlt)

/-- No header lies in front of the next one. -/
theorem nextHeader_self {p q : ℕ} (h : nextHeader m lim p = some q) : nextHeader m q p = none := by
  obtain ⟨j, rfl, -, -, hbefore⟩ := nextHeader_eq_some.mp h
  exact nextHeader_eq_none.mpr fun i hi => hbefore i (by omega)

/-- A frame with other parameters behind a run is none of its frames. -/
theorem Linked.lt_of_not_sameParams {sub : NetSub} {e stop q : ℕ} {qs : List ℕ}
    (h : Linked m cards lim sub e qs stop) (hq : nextHeader m lim stop = some q)
    (hdiff : ¬ SameParams sub (frameSub m q)) {p : ℕ} (hp : p ∈ qs) : p < q := by
  obtain ⟨-, -, -, hsame, -, hstop⟩ := h.mem hp
  have hle := nextHeader_le hq
  rcases Nat.lt_or_eq_of_le (show p ≤ q by omega) with hlt | rfl
  · exact hlt
  · exact absurd hsame hdiff

/-- A run with a vector ends where the vector does. -/
theorem Segment.start_add_size {s : Segment} (hpos : 0 < s.size) : s.start + s.size = s.limit := by
  have hsize : s.size = s.limit - s.start := by
    cases hend : s.ending with
    | long q =>
      rw [Segment.size, hend] at hpos
      exact absurd hpos (lt_irrefl 0)
    | tooMany =>
      rw [Segment.size, hend] at hpos
      exact absurd hpos (lt_irrefl 0)
    | _ => rw [Segment.size, hend]
  omega

/-- The vector of a kept run has no header behind the last frame, and its frames are in it. -/
theorem segmentAt_limit (hstart : IsStart m cards a) (ha : a < lim)
    (hpos : 0 < (segmentAt m cards lim a).size) :
    nextHeader m (segmentAt m cards lim a).limit (segmentAt m cards lim a).stop = none ∧
      ∀ p ∈ (segmentAt m cards lim a).frames, p < (segmentAt m cards lim a).limit := by
  have hspec := (segmentAt_spec hstart ha).2
  have hlinked := linked_segmentAt hstart ha
  generalize segmentAt m cards lim a = s at *
  have hempty : nextHeader m s.stop s.stop = none := nextHeader_eq_none.mpr fun i hi => by omega
  cases hend : s.ending with
  | passed =>
    simp only [hend] at hspec
    have hlimit : s.limit = s.stop := by rw [Segment.limit, hend]
    rw [hlimit]
    exact ⟨hempty, fun p hp => (hlinked.mem hp).1.trans_le hspec⟩
  | gap =>
    simp only [hend] at hspec
    obtain ⟨-, hlt, hgap⟩ := hspec
    have hlimit : s.limit = s.stop := by rw [Segment.limit, hend]
    rw [hlimit]
    refine ⟨hempty, fun p hp => ?_⟩
    obtain ⟨-, hsync, -, -, -, hpstop⟩ := hlinked.mem hp
    rcases Nat.lt_or_eq_of_le (show p ≤ s.stop by omega) with hlt' | rfl
    · exact hlt'
    · rw [nextHeader_of_isSync hsync hlt] at hgap
      cases hgap
  | unknown q =>
    simp only [hend] at hspec
    obtain ⟨-, hq, -, hdiff, -⟩ := hspec
    have hlimit : s.limit = q := by rw [Segment.limit, hend]
    rw [hlimit]
    exact ⟨nextHeader_self hq, fun p => hlinked.lt_of_not_sameParams hq hdiff⟩
  | change q =>
    simp only [hend] at hspec
    obtain ⟨-, hq, hdiff, -⟩ := hspec
    have hlimit : s.limit = q := by rw [Segment.limit, hend]
    rw [hlimit]
    exact ⟨nextHeader_self hq, fun p => hlinked.lt_of_not_sameParams hq hdiff⟩
  | _ =>
    rw [Segment.size, hend] at hpos
    exact absurd hpos (lt_irrefl 0)

/-- **The frames of a vector** are the frames of its run. -/
theorem frameIn_iff (hstart : IsStart m cards a) (ha : a < lim)
    (hpos : 0 < (segmentAt m cards lim a).size) (p : ℕ) :
    FrameIn m (segmentAt m cards lim a).iovec p ↔ p ∈ (segmentAt m cards lim a).frames := by
  obtain ⟨hnone, hbelow⟩ := segmentAt_limit hstart ha hpos
  have hlinked := linked_segmentAt hstart ha
  have hfirst : a ∈ (segmentAt m cards lim a).frames := List.mem_cons_self
  have hbase : (segmentAt m cards lim a).iovec.base = a := rfl
  have hv : (segmentAt m cards lim a).iovec.base + (segmentAt m cards lim a).iovec.len =
      (segmentAt m cards lim a).limit := Segment.start_add_size hpos
  constructor
  · intro h
    induction h with
    | first => exact hfirst
    | @next p q hp hq ih =>
      rw [hv] at hq
      rcases hlinked.next ih with ⟨q', hmem, hq'⟩ | hlast
      · rw [nextHeader_of_lt hq' (hbelow q' hmem)] at hq
        rwa [← Option.some.inj hq]
      · rw [hlast, hnone] at hq
        cases hq
  · intro hp
    -- from a place of the run on: what is found there is in the vector, and so on
    have hall {sub : NetSub} {e stop : ℕ} {qs : List ℕ} (h : Linked m cards lim sub e qs stop)
        (hqs : ∀ q ∈ qs, q < (segmentAt m cards lim a).limit)
        (he : ∀ q < (segmentAt m cards lim a).limit, nextHeader m lim e = some q →
          FrameIn m (segmentAt m cards lim a).iovec q) :
        ∀ q ∈ qs, FrameIn m (segmentAt m cards lim a).iovec q := by
      induction h with
      | nil e => exact fun q hq => absurd hq List.not_mem_nil
      | @cons e q stop qs hq hrest ih =>
        have hin := he q (hqs q List.mem_cons_self) (nextFrame_eq_inr hq).2.1
        have hmore := ih (fun q hq => hqs q (List.mem_cons_of_mem _ hq)) fun q' hlt hq' =>
          FrameIn.next hin (by rw [hv]; exact nextHeader_of_lt hq' hlt)
        rintro q' hq'
        rcases List.mem_cons.mp hq' with rfl | hq'
        · exact hin
        · exact hmore q' hq'
    refine hall hlinked hbelow (fun q _ hq => ?_) p hp
    rw [nextHeader_of_isSync hstart.1 ha] at hq
    rw [← Option.some.inj hq]
    exact .first

end Frames

theorem filed_eq (m : Mem) (cards : CardsStatus) (blocks : List (ℕ × ℕ)) (u : Channel) :
    filed m cards blocks u =
      blocks.flatMap fun b => (vectors m cards b.1 b.2).map (Segment.entry m) := by
  rw [filed, renewed_xdmaDataDispatcherBuffer, List.drop_left]

/-- The vectors that a call files are those of the runs of its blocks. -/
theorem mem_filed {m : Mem} {cards : CardsStatus} {blocks : List (ℕ × ℕ)} {u : Channel}
    {e : ℤ × Iovec} :
    e ∈ filed m cards blocks u ↔
      ∃ b ∈ blocks, ∃ s ∈ vectors m cards b.1 b.2, s.entry m = e := by
  rw [filed_eq]
  simp only [List.mem_flatMap, List.mem_map]

/-- What holds of every vector that a call files. -/
theorem forall_mem_filed {m : Mem} {cards : CardsStatus} {blocks : List (ℕ × ℕ)} {u : Channel}
    {P : ℤ × Iovec → Prop} :
    (∀ e ∈ filed m cards blocks u, P e) ↔
      ∀ b ∈ blocks, ∀ s ∈ vectors m cards b.1 b.2, P (s.entry m) := by
  constructor
  · intro h b hb s hs
    exact h _ (mem_filed.mpr ⟨b, hb, s, hs, rfl⟩)
  · rintro h e he
    obtain ⟨b, hb, s, hs, rfl⟩ := mem_filed.mp he
    exact h b hb s hs

section Vectors

variable {m : Mem} {cards : CardsStatus} {header len : ℕ} {s : Segment}

/-- The frames of a vector follow each other from its start on. -/
theorem linked_of_mem_vectors (hs : s ∈ vectors m cards header len) :
    Linked m cards (header + len) (frameSub m s.start) s.start s.frames s.stop := by
  obtain ⟨-, hlt, hstart, heq, -⟩ := eq_segmentAt_of_mem_vectors hs
  have hlinked := linked_segmentAt hstart hlt
  rwa [← heq] at hlinked

/-- The frames of a vector start in front of its end. -/
theorem lt_limit_of_mem_frames (hs : s ∈ vectors m cards header len) {p : ℕ} (hp : p ∈ s.frames) :
    p < s.limit := by
  obtain ⟨-, hlt, hstart, heq, hpos, -⟩ := eq_segmentAt_of_mem_vectors hs
  rw [heq] at hpos
  have hbelow := (segmentAt_limit hstart hlt hpos).2 p
  rw [← heq] at hbelow
  exact hbelow hp

/-- The vector of a run ends where the run does. -/
theorem start_add_size (hs : s ∈ vectors m cards header len) : s.start + s.size = s.limit :=
  Segment.start_add_size (mem_vectors.mp hs).2.1

/-- The frames of the vector of a run of a block. -/
theorem frameIn_iff_of_mem_vectors (hs : s ∈ vectors m cards header len) (p : ℕ) :
    FrameIn m (s.entry m).2 p ↔ p ∈ s.frames := by
  obtain ⟨-, hlt, hstart, heq, hpos, -⟩ := eq_segmentAt_of_mem_vectors hs
  rw [heq] at hpos
  have hframes := frameIn_iff hstart hlt hpos p
  rw [← heq] at hframes
  exact hframes

end Vectors

end M57Card.Uplink
