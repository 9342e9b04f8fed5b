import M57Card.Uplink.Vectors

/-!
# Vectors and the end of the block

The vectors of a block are disjoint: each ends in front of the next run. They lie inside the block,
unless the block ends within a frame. The scan steps over such a frame as a whole, and the router
compares the length of the run with the length of the block instead of the rest of it. A truncated
frame is therefore filed, with bytes from behind the block, unless the run with it is longer than
the whole block. Where no vector passes the end of its block, not more bytes are counted as routed
than as read.

## Main definitions

* `StaysInside` : the vectors of a call lie inside the blocks, without overlap, and the counters
  agree with that.

## Main results

* `pairwise_vectors` : the vectors of a block are disjoint.
* `inside_iff` : when the vector of a run lies inside the block.
* `staysInside_iff` : when the vectors of a call do.
-/

namespace M57Card.Uplink

open M57

/-! ### Disjoint vectors -/

section Disjoint

variable {m : Mem} {cards : CardsStatus} {lim : ℕ}

/-- The runs of a block lie behind each other. -/
theorem pairwise_segments (n a : ℕ) :
    (segments m cards lim n a).Pairwise fun s t => s.limit ≤ t.start := by
  induction n generalizing a with
  | zero => exact .nil
  | succ n ih =>
    by_cases h : a < lim ∧ IsStart m cards a
    · obtain ⟨ha, hstart⟩ := h
      by_cases hchange : ∃ q, (segmentAt m cards lim a).ending = .change q
      · obtain ⟨q, hq⟩ := hchange
        have hlimit : (segmentAt m cards lim a).limit = q := by rw [Segment.limit, hq]
        rw [segments_of_change ha hstart hq]
        refine .cons (fun t ht => ?_) (ih q)
        rw [hlimit]
        exact (eq_segmentAt_of_mem_segments ht).1
      · rw [segments_of_ne_change ha hstart (not_exists.mp hchange)]
        exact List.pairwise_singleton _ _
    · rw [segments_of_not_isStart h]
      exact .nil

/-- **The vectors of a block are disjoint**, and in their order. -/
theorem pairwise_vectors (m : Mem) (cards : CardsStatus) (header len : ℕ) :
    (vectors m cards header len).Pairwise fun s t => s.start + s.size ≤ t.start := by
  have hruns : (blockRuns m cards header len).Pairwise fun s t => s.limit ≤ t.start := by
    rw [blockRuns]
    split_ifs
    · exact .nil
    · exact pairwise_segments _ _
  refine (hruns.filter _).imp_of_mem ?_
  rintro s t hs - hle
  rwa [start_add_size hs]

/-- A vector that starts inside a vector of the block is that vector. -/
theorem eq_of_start_lt {header len : ℕ} {s t : Segment} (hs : s ∈ vectors m cards header len)
    (ht : t ∈ vectors m cards header len) (hle : t.start ≤ s.start)
    (hlt : s.start < t.start + t.size) : s = t := by
  have hdisjoint : (vectors m cards header len).Pairwise fun s t =>
      s.start + s.size ≤ t.start ∨ t.start + t.size ≤ s.start :=
    (pairwise_vectors m cards header len).imp .inl
  have hsymm : Std.Symm fun s t : Segment =>
      s.start + s.size ≤ t.start ∨ t.start + t.size ≤ s.start := ⟨fun _ _ => Or.symm⟩
  have hpos := (mem_vectors.mp hs).2.1
  by_contra hne
  rcases hdisjoint.forall hs ht hne with hleft | hright
  · omega
  · omega

/-- Some of the vectors of a block are all of them if each vector of the block is among them. -/
theorem eq_vectors_of_sublist {header len : ℕ} {ss : List Segment}
    (hss : ss.Sublist (vectors m cards header len))
    (hall : ∀ s ∈ vectors m cards header len, s ∈ ss) : ss = vectors m cards header len := by
  have hnodup : (vectors m cards header len).Nodup := by
    refine (pairwise_vectors m cards header len).imp_of_mem fun hs ht hle heq => ?_
    have hpos := (mem_vectors.mp hs).2.1
    rw [heq] at hle hpos
    omega
  exact hss.eq_of_length_le (List.subperm_of_subset hnodup hall).length_le

/-- Disjoint vectors inside a range are not longer than the range. -/
theorem sum_size_le {ss : List Segment}
    (h : ss.Pairwise fun s t => s.start + s.size ≤ t.start) {lo hi : ℕ}
    (hin : ∀ s ∈ ss, lo ≤ s.start ∧ s.start + s.size ≤ hi) :
    (ss.map Segment.size).sum ≤ hi - lo := by
  induction ss generalizing lo with
  | nil => exact Nat.zero_le _
  | cons s ss ih =>
    obtain ⟨hfirst, hrest⟩ := List.pairwise_cons.mp h
    obtain ⟨hlo, hhi⟩ := hin s List.mem_cons_self
    have hsum := ih hrest fun t ht => ⟨hfirst t ht, (hin t (List.mem_cons_of_mem _ ht)).2⟩
    rw [List.map_cons, List.sum_cons]
    omega

end Disjoint

/-! ### Truncated frames -/

section Truncated

variable {m : Mem} {cards : CardsStatus} {lim a : ℕ}

/-- A frame of a run that passes the end of the block is the last one, and ends the run. -/
theorem ending_of_truncated (hstart : IsStart m cards a) (ha : a < lim) {p : ℕ}
    (hp : p ∈ (segmentAt m cards lim a).frames) (hlong : lim < p + frameLen m p) :
    (segmentAt m cards lim a).ending = .passed ∧
      (segmentAt m cards lim a).stop = p + frameLen m p := by
  have hlinked := linked_segmentAt hstart ha
  have hstop : (segmentAt m cards lim a).stop = p + frameLen m p := by
    rcases hlinked.next hp with ⟨q, -, hq⟩ | hlast
    · have hle := nextHeader_le hq
      omega
    · exact hlast.symm
  have hspec := (segmentAt_spec hstart ha).2
  refine ⟨?_, hstop⟩
  cases hend : (segmentAt m cards lim a).ending with
  | passed => rfl
  | gap =>
    simp only [hend] at hspec
    omega
  | long q =>
    simp only [hend] at hspec
    omega
  | unknown q =>
    simp only [hend] at hspec
    have hle := nextHeader_le hspec.2.1
    omega
  | change q =>
    simp only [hend] at hspec
    have hle := nextHeader_le hspec.2.1
    omega
  | tooMany =>
    simp only [hend] at hspec
    omega

/-- **The vectors of a block lie inside it** if and only if a frame that passes the end of the block
occurs only in a run that is, with this frame, longer than the whole block. -/
theorem inside_iff {header len : ℕ} :
    (∀ s ∈ vectors m cards header len, s.start + s.size ≤ header + len) ↔
      ∀ s ∈ blockRuns m cards header len, ∀ p ∈ s.frames,
        header + len < p + frameLen m p → s.start + len < p + frameLen m p := by
  constructor
  · intro h s hs p hp hlong
    by_contra hshort
    obtain ⟨hle, hlt, hstart, heq⟩ := eq_segmentAt_of_mem_blockRuns hs
    rw [heq] at hp
    obtain ⟨hend, hstop⟩ := ending_of_truncated hstart hlt hp hlong
    rw [← heq] at hend hstop
    have hsize : s.size = p + frameLen m p - s.start := by
      rw [Segment.size, Segment.limit, hend, hstop]
    have hkept : s.Kept len := ⟨by omega, by omega⟩
    have hin := h s (mem_vectors.mpr ⟨hs, hkept⟩)
    omega
  · intro h s hs
    obtain ⟨hle, hlt, hstart, heq, hpos, hkept⟩ := eq_segmentAt_of_mem_vectors hs
    have hlimit := start_add_size hs
    have hspec := (segmentAt_spec hstart hlt).2
    have hlast := (linked_segmentAt hstart hlt).last (List.cons_ne_nil _ _)
    have hframes := h s (mem_vectors.mp hs).1
    rw [← heq] at hspec hlast
    cases hend : s.ending with
    | passed =>
      obtain ⟨p, hp, hstop⟩ := hlast
      have hsize : s.size = s.stop - s.start := by rw [Segment.size, Segment.limit, hend]
      by_contra hout
      have hlong := hframes p hp (by omega)
      omega
    | gap =>
      simp only [hend] at hspec
      have hstop : s.limit = s.stop := by rw [Segment.limit, hend]
      omega
    | unknown q =>
      simp only [hend] at hspec
      have hq := nextHeader_le hspec.2.1
      have hstop : s.limit = q := by rw [Segment.limit, hend]
      omega
    | change q =>
      simp only [hend] at hspec
      have hq := nextHeader_le hspec.2.1
      have hstop : s.limit = q := by rw [Segment.limit, hend]
      omega
    | _ =>
      rw [Segment.size, hend] at hpos
      exact absurd hpos (lt_irrefl 0)

end Truncated

/-! ### Counters -/

section Counters

variable {m : Mem} {cards : CardsStatus}

/-- A vector is counted as routed as a whole or not at all. -/
theorem routeBytes_foldl_load_le (m : Mem) (u : Channel) (ss : List Segment) :
    u.stat.routeBytes ≤ (ss.foldl (Segment.load m) u).stat.routeBytes ∧
      (ss.foldl (Segment.load m) u).stat.routeBytes ≤
        u.stat.routeBytes + (ss.map Segment.size).sum := by
  induction ss generalizing u with
  | nil => exact ⟨Nat.le_refl _, Nat.le_refl _⟩
  | cons s ss ih =>
    have hstep : u.stat.routeBytes ≤ (s.load m u).stat.routeBytes ∧
        (s.load m u).stat.routeBytes ≤ u.stat.routeBytes + s.size := by
      by_cases hrv : 0 ≤ (spmHashRenew u.table (s.entry m).1 (s.entry m).2).2
      · rw [Segment.load_of_accepted hrv]
        exact ⟨Nat.le_add_right _ _, Nat.le_refl _⟩
      · rw [Segment.load_of_refused hrv]
        exact ⟨Nat.le_refl _, Nat.le_add_right _ _⟩
    have hrest := ih (s.load m u)
    rw [List.foldl_cons, List.map_cons, List.sum_cons]
    omega

/-- The counters of a block whose vectors lie inside it. -/
theorem routeBytes_dispatchBlock_le {header len : ℕ} (u : Channel)
    (h : ∀ s ∈ vectors m cards header len, s.start + s.size ≤ header + len) :
    u.stat.routeBytes ≤ (dispatchBlock m cards u header len).stat.routeBytes ∧
      (dispatchBlock m cards u header len).stat.routeBytes ≤ u.stat.routeBytes + len ∧
      (dispatchBlock m cards u header len).stat.readBytes = u.stat.readBytes + len := by
  have hroute := routeBytes_foldl_load_le m u (vectors m cards header len)
  have hread := (stat_foldl_load m u (vectors m cards header len)).2
  have hsum := sum_size_le (pairwise_vectors m cards header len) fun s hs =>
    ⟨(eq_segmentAt_of_mem_vectors hs).1, h s hs⟩
  rw [dispatchBlock, dispatchLoop_block]
  refine ⟨hroute.1, ?_, ?_⟩
  · refine hroute.2.trans (Nat.add_le_add_left ?_ _)
    omega
  · exact congrArg (· + len) hread

end Counters

/-! ### Calls of the router -/

/-- The vectors of a call lie inside its blocks, those of a block do not overlap, and not more bytes
are counted as routed than as read, neither by the counters nor as they are reported. -/
structure StaysInside (m : Mem) (cards : CardsStatus) (blocks : List (ℕ × ℕ)) (u : Channel) :
    Prop where
  inside : ∀ pre b post, blocks = pre ++ b :: post →
    ∀ e ∈ filed m cards [b] (xdmaDataDispatcherBuffer m cards pre u),
      b.1 ≤ e.2.base ∧ e.2.base + e.2.len ≤ b.1 + b.2
  disjoint : ∀ pre b post, blocks = pre ++ b :: post →
    (filed m cards [b] (xdmaDataDispatcherBuffer m cards pre u)).Pairwise fun e e' =>
      e.2.base + e.2.len ≤ e'.2.base ∨ e'.2.base + e'.2.len ≤ e.2.base
  counted : (xdmaDataDispatcherBuffer m cards blocks u).stat.routeBytes - u.stat.routeBytes ≤
    (xdmaDataDispatcherBuffer m cards blocks u).stat.readBytes - u.stat.readBytes
  reported : nsUplinkGetRouteBytes (xdmaDataDispatcherBuffer m cards blocks u).stat -
      nsUplinkGetRouteBytes u.stat ≤
    nsUplinkGetReadBytes (xdmaDataDispatcherBuffer m cards blocks u).stat -
      nsUplinkGetReadBytes u.stat

section Calls

variable (m : Mem) (cards : CardsStatus)

theorem filed_singleton (b : ℕ × ℕ) (u : Channel) :
    filed m cards [b] u = (vectors m cards b.1 b.2).map (Segment.entry m) := by
  rw [filed_eq, List.flatMap_singleton]

/-- The counters of a call whose vectors lie inside the blocks. -/
theorem routeBytes_le_of_inside {blocks : List (ℕ × ℕ)} (u : Channel)
    (h : ∀ b ∈ blocks, ∀ s ∈ vectors m cards b.1 b.2, s.start + s.size ≤ b.1 + b.2) :
    let u' := xdmaDataDispatcherBuffer m cards blocks u
    u.stat.routeBytes ≤ u'.stat.routeBytes ∧ u.stat.readBytes ≤ u'.stat.readBytes ∧
      u'.stat.routeBytes + u.stat.readBytes ≤ u.stat.routeBytes + u'.stat.readBytes := by
  induction blocks generalizing u with
  | nil => exact ⟨Nat.le_refl _, Nat.le_refl _, Nat.le_refl _⟩
  | cons b blocks ih =>
    have hfirst := routeBytes_dispatchBlock_le u (h b List.mem_cons_self)
    have hrest := ih (dispatchBlock m cards u b.1 b.2)
      fun b hb => h b (List.mem_cons_of_mem _ hb)
    have hstep : xdmaDataDispatcherBuffer m cards (b :: blocks) u =
        xdmaDataDispatcherBuffer m cards blocks (dispatchBlock m cards u b.1 b.2) := rfl
    dsimp only at hrest ⊢
    rw [hstep]
    omega

/-- **The vectors of a call stay inside its blocks** if and only if a frame that passes the end of
its block occurs only in a run that is, with this frame, longer than the whole block. -/
theorem staysInside_iff (blocks : List (ℕ × ℕ)) (u : Channel) :
    StaysInside m cards blocks u ↔
      ∀ b ∈ blocks, ∀ s ∈ blockRuns m cards b.1 b.2, ∀ p ∈ s.frames,
        b.1 + b.2 < p + frameLen m p → s.start + b.2 < p + frameLen m p := by
  constructor
  · intro h b hb
    obtain ⟨pre, post, hsplit⟩ := List.append_of_mem hb
    have hinside := h.inside pre b post hsplit
    rw [filed_singleton] at hinside
    exact inside_iff.mp fun s hs => (hinside _ (List.mem_map_of_mem hs)).2
  · intro h
    have hin : ∀ b ∈ blocks, ∀ s ∈ vectors m cards b.1 b.2, s.start + s.size ≤ b.1 + b.2 :=
      fun b hb => inside_iff.mpr (h b hb)
    have hcount := routeBytes_le_of_inside m cards u hin
    dsimp only at hcount
    refine ⟨?_, ?_, by omega, Nat.le_refl _⟩
    · rintro pre b post rfl e he
      rw [filed_singleton] at he
      obtain ⟨s, hs, rfl⟩ := List.mem_map.mp he
      exact ⟨(eq_segmentAt_of_mem_vectors hs).1,
        hin b (List.mem_append_right _ List.mem_cons_self) s hs⟩
    · rintro pre b post -
      rw [filed_singleton, List.pairwise_map]
      exact (pairwise_vectors m cards b.1 b.2).imp .inl

end Calls

/-- A frame, and the start of a frame with another function that the end of the block cuts off: the
second vector has twenty-four bytes from behind the block. -/
theorem not_staysInside_truncated :
    ¬ StaysInside (Mem.ofList (headerBytes 1 24 0x502 1 0 ++ headerBytes 1 48 0x502 2 0))
      CardsStatus.slotFive [(0, 48)] {} := by
  intro h
  have hfiled : filed (Mem.ofList (headerBytes 1 24 0x502 1 0 ++ headerBytes 1 48 0x502 2 0))
      CardsStatus.slotFive [(0, 48)] {} = [(53, ⟨0, 24⟩), (85, ⟨24, 48⟩)] := by
    decide +kernel
  have hin := h.inside [] (0, 48) [] rfl (85, ⟨24, 48⟩)
  change _ ∈ filed _ _ _ {} → _ at hin
  rw [hfiled] at hin
  exact absurd (hin (List.mem_cons_of_mem _ List.mem_cons_self)).2 (by decide)

end M57Card.Uplink
