import M57Card.Uplink.BadFrames
import M57Card.Uplink.Partition

/-!
# Frames with filler behind them

A block may have filler between its frames: groups of eight bytes that do not start with the sync
word. The search for a header goes over them (`nextHeader_filler`), so that the frames of such a
block follow each other and nothing follows behind the last one (`LaidOut`). The scan then finds the
runs of the frames, in their order, each from its first frame to the first frame of the next run
(`LaidOut.step`), and the frames of its vectors are the frames of the block.

This holds of the blocks that the router reads as a whole: it does not look at a block of more than
`XDMA_BLOCK_SIZE` bytes, and it stops after `XDMA_DATA_TYPE_MAX_PKGS` runs. The table then has the
vectors of all runs if and only if it has room for them.

## Main definitions

* `LaidOut` : frames that follow each other, in runs, with nothing behind them.
* `PaddedFrame`, `IsPadded`, `positions` : frames with filler, and where they lie.
* `KeepsFrames` : the vectors that a block puts into the table have its frames.

## Main results

* `LaidOut.frames_segments` : the runs of a block.
* `follows_positions` : the frames of a block with filler follow each other.
* `keepsFrames_iff_hasRoom`, `keepsFrames_padded` : the router on such a block.
-/

namespace M57Card.Uplink

open M57 Bytes

/-! ### Runs without a bad frame behind them -/

/-- The runs `rs` of good frames lie behind each other from `a` on, the last of them ends at `e`,
and there is no further header. -/
structure LaidOut (m : Mem) (cards : CardsStatus) (lim a : ℕ) (rs : List (List ℕ)) (e : ℕ) :
    Prop where
  runs : ∀ r ∈ rs, r ≠ [] ∧ ∀ p ∈ r, SameParams (frameSub m (r.headD 0)) (frameSub m p)
  differ : rs.IsChain fun r r' => ¬ SameParams (frameSub m (r.headD 0)) (frameSub m (r'.headD 0))
  first : rs.flatten.headD e = a
  follows : Follows m cards lim a rs.flatten e
  last : nextHeader m lim e = none

section LaidOut

variable {m : Mem} {cards : CardsStatus} {header len lim a e : ℕ} {r : List ℕ} {rs : List (List ℕ)}

/-- Frames that follow each other are laid out in their runs. -/
theorem laidOut_runsOf {ps : List ℕ} (hfirst : ps.headD e = a)
    (hfollows : Follows m cards lim a ps e) (hlast : nextHeader m lim e = none) :
    LaidOut m cards lim a (runsOf m ps) e := by
  have hR := sameParams_equivalence (frameSub m)
  have hflat : (runsOf m ps).flatten = ps := List.flatten_splitBy _ _
  refine ⟨fun r hr => ⟨List.ne_nil_of_mem_splitBy hr, fun p hp => ?_⟩, ?_, ?_, ?_, hlast⟩
  · exact rel_headD_of_mem_splitBy hR hr hp 0
  · exact isChain_headD_splitBy hR ps 0
  · rwa [hflat]
  · rwa [hflat]

/-- Frames that follow each other lie behind each other. -/
theorem Follows.pairwise {e' stop : ℕ} {qs : List ℕ} (h : Follows m cards lim e' qs stop) :
    qs.Pairwise (· < ·) := by
  induction h with
  | nil e => exact .nil
  | @cons e q stop qs hq hgood hrest ih =>
    refine .cons (fun p hp => ?_) ih
    have hmin := hgood.min
    have hle := (hrest.mem hp).1
    omega

/-- Behind the last run there is none. -/
theorem segments_of_nextHeader_eq_none (hnone : nextHeader m lim a = none) (n : ℕ) :
    segments m cards lim n a = [] := by
  refine segments_of_not_isStart (fun hstart => ?_) n
  rw [nextHeader_of_isSync hstart.2.1 hstart.1] at hnone
  cases hnone

/-- The first run starts where the runs do. -/
theorem LaidOut.exists_cons (h : LaidOut m cards lim a (r :: rs) e) :
    ∃ qs, r = a :: qs ∧ (∀ q ∈ qs, SameParams (frameSub m a) (frameSub m q)) ∧
      ∃ mid, Follows m cards lim a (a :: qs) mid ∧ Follows m cards lim mid rs.flatten e := by
  obtain ⟨hne, hsame⟩ := h.runs r List.mem_cons_self
  obtain ⟨b, qs, rfl⟩ := List.exists_cons_of_ne_nil hne
  obtain rfl : b = a := h.first
  refine ⟨qs, rfl, fun q hq => hsame q (List.mem_cons_of_mem _ hq), ?_⟩
  have hfollows := h.follows
  rw [List.flatten_cons] at hfollows
  exact hfollows.append

/-- A run of too many frames is the last one read, and leaves nothing. -/
theorem LaidOut.segments_of_many (h : LaidOut m cards lim a (r :: rs) e)
    (hmany : MAX_PACKAGES_NUM ≤ r.length) (n : ℕ) :
    ∃ s, s.size = 0 ∧ segments m cards lim (n + 1) a = [s] := by
  obtain ⟨qs, rfl, hsame, mid, hrun, -⟩ := h.exists_cons
  obtain ⟨hstart, hlt, -, hrest⟩ := hrun.isStart
  have hend := (segmentAt_of_follows hrest hsame).2 hmany
  refine ⟨segmentAt m cards lim a, by rw [Segment.size, hend], ?_⟩
  exact segments_of_ne_change hlt hstart (fun q hq => by rw [hend] at hq; cases hq) n

/-- **The first run**: its frames become a vector, which ends where the next run starts, or with the
last frame. -/
theorem LaidOut.step (h : LaidOut m cards lim a (r :: rs) e) (hfew : r.length < MAX_PACKAGES_NUM)
    (hlim : e ≤ header + len) (ha : header ≤ a) (n : ℕ) :
    ∃ s, s.start = a ∧ s.frames = r ∧ s.Kept len ∧ a < s.limit ∧
      LaidOut m cards lim s.limit rs e ∧
      segments m cards lim (n + 1) a = s :: segments m cards lim n s.limit := by
  obtain ⟨qs, rfl, hsame, mid, hrun, hrest⟩ := h.exists_cons
  obtain ⟨hstart, hlt, -, hafter⟩ := hrun.isStart
  have hbelow := hrun.mem List.mem_cons_self
  have hmid := hrest.le
  have hruns : ∀ r ∈ rs, r ≠ [] ∧ ∀ p ∈ r, SameParams (frameSub m (r.headD 0)) (frameSub m p) :=
    fun r hr => h.runs r (List.mem_cons_of_mem _ hr)
  obtain ⟨hhead, hdiffer⟩ := List.isChain_cons.mp h.differ
  cases hrs : rs.flatten with
  | nil =>
    -- the last run ends with its last frame
    rw [hrs] at hrest
    obtain rfl : mid = e := by cases hrest; rfl
    obtain ⟨x, hx, hlimit⟩ : ∃ x, nextFrame m cards lim (frameSub m a) mid = .inl x ∧
        ((⟨a, a :: qs, mid, x⟩ : Segment).limit = mid ∧
          (⟨a, a :: qs, mid, x⟩ : Segment).size = mid - a ∧ ∀ q, x ≠ .change q) := by
      rcases nextFrame_cases m cards lim (frameSub m a) mid with ⟨-, heq⟩ | ⟨-, -, heq⟩ |
        ⟨q, -, hq, -⟩
      · exact ⟨_, heq, rfl, rfl, fun q hq => by cases hq⟩
      · exact ⟨_, heq, rfl, rfl, fun q hq => by cases hq⟩
      · rw [h.last] at hq
        cases hq
    have hseg := segmentAt_of_follows_inl hafter hsame hfew hx
    refine ⟨⟨a, a :: qs, mid, x⟩, rfl, rfl, ?_, ?_, ?_, ?_⟩
    · rw [Segment.Kept, hlimit.2.1]
      omega
    · rw [hlimit.1]
      exact hbelow.2
    · rw [hlimit.1]
      exact ⟨hruns, hdiffer, by rw [hrs]; rfl, by rw [hrs]; exact .nil _, h.last⟩
    · rw [hlimit.1, segments_of_nextHeader_eq_none h.last,
        segments_of_ne_change hlt hstart (by rw [hseg]; exact hlimit.2.2), hseg]
  | cons b qs' =>
    -- the next run ends this one
    rw [hrs] at hrest
    obtain ⟨hstart', hlt', hrest', -⟩ := hrest.isStart
    have hnext : nextHeader m lim mid = some b := by
      cases hrest with
      | cons hq _ _ => exact hq
    have hle := nextHeader_le hnext
    have hin := hrest'.mem List.mem_cons_self
    have hdiff : ¬ SameParams (frameSub m a) (frameSub m b) := by
      cases rs with
      | nil => cases hrs
      | cons r' rs' =>
        obtain ⟨b', qs'', rfl⟩ := List.exists_cons_of_ne_nil
          (hruns r' List.mem_cons_self).1
        obtain rfl : b' = b := (List.cons.inj hrs).1
        exact hhead _ rfl
    have hchange : nextFrame m cards lim (frameSub m a) mid = .inl (.change b) := by
      rw [nextFrame, if_neg (by omega), hnext]
      exact (if_neg (not_lt.mpr hstart'.2.1)).trans ((if_neg hdiff).trans (if_pos hstart'.2.2))
    have hseg := segmentAt_of_follows_inl hafter hsame hfew hchange
    refine ⟨⟨a, a :: qs, mid, .change b⟩, rfl, rfl, ?_, ?_, ?_, ?_⟩
    · change 0 < b - a ∧ b - a ≤ len
      omega
    · change a < b
      omega
    · exact ⟨hruns, hdiffer, by rw [hrs]; rfl, by rw [hrs]; exact hrest', h.last⟩
    · rw [segments_of_change (q := b) hlt hstart (by rw [hseg]), hseg]
      rfl

/-- **The runs of a block** are those of its frames, as many as are read, and all of them become
vectors. -/
theorem LaidOut.frames_segments (h : LaidOut m cards lim a rs e)
    (hfew : ∀ r ∈ rs, r.length < MAX_PACKAGES_NUM) (hlim : e ≤ header + len) (ha : header ≤ a)
    (n : ℕ) :
    (segments m cards lim n a).map Segment.frames = rs.take n ∧
      ∀ s ∈ segments m cards lim n a, s.Kept len := by
  induction rs generalizing n a with
  | nil =>
    have hnone : segments m cards lim n a = [] := by
      obtain rfl : e = a := h.first
      exact segments_of_nextHeader_eq_none h.last n
    rw [hnone, List.take_nil]
    exact ⟨rfl, fun s hs => absurd hs List.not_mem_nil⟩
  | cons r rs ih =>
    obtain ⟨hr, hfew⟩ := List.forall_mem_cons.mp hfew
    cases n with
    | zero => exact ⟨rfl, fun s hs => absurd hs List.not_mem_nil⟩
    | succ n =>
      obtain ⟨s, -, hframes, hkept, hlt, hrest, hsegments⟩ := h.step hr hlim ha n
      obtain ⟨hall, hkeptAll⟩ := ih hrest hfew (ha.trans hlt.le) n
      rw [hsegments, List.map_cons, hframes, hall, List.take_succ_cons]
      exact ⟨rfl, List.forall_mem_cons.mpr ⟨hkept, hkeptAll⟩⟩

/-- **The bytes from the first frame to the end of the last one** are in vectors if and only if no
run has too many frames and there are not too many runs. -/
theorem LaidOut.covered_iff (h : LaidOut m cards lim a rs e) (hlim : e ≤ header + len)
    (ha : header ≤ a) (n : ℕ) :
    (∀ p, a ≤ p → p < e → ∃ s ∈ segments m cards lim n a, s.Kept len ∧ s.start ≤ p ∧
        p < s.start + s.size) ↔
      rs.length ≤ n ∧ ∀ r ∈ rs, r.length < MAX_PACKAGES_NUM := by
  induction rs generalizing n a with
  | nil =>
    obtain rfl : e = a := h.first
    exact iff_of_true (fun p hle hlt => absurd hlt (not_lt.mpr hle))
      ⟨Nat.zero_le n, fun r hr => absurd hr List.not_mem_nil⟩
  | cons r rs ih =>
    obtain ⟨qs, hr, -, mid, hrun, hafter⟩ := h.exists_cons
    have hin := hrun.mem (List.mem_cons_self (a := a) (l := qs))
    have hle := hafter.le
    cases n with
    | zero =>
      refine iff_of_false (fun hcover => ?_) fun hn => absurd hn.1 (Nat.not_succ_le_zero _)
      obtain ⟨s, hs, -⟩ := hcover a (Nat.le_refl a) (by omega)
      cases hs
    | succ n =>
      by_cases hfew : r.length < MAX_PACKAGES_NUM
      · obtain ⟨s, hstart, -, hkept, hlt, hrest, hsegments⟩ := h.step hfew hlim ha n
        have hsize := Segment.start_add_size hkept.1
        have hih := ih hrest (ha.trans hlt.le) n
        rw [List.forall_mem_cons, List.length_cons, Nat.succ_le_succ_iff, and_iff_right hfew, ← hih,
          hsegments]
        constructor
        · intro hcover p hp hpe
          obtain ⟨t, ht, hcovered⟩ := hcover p (hlt.le.trans hp) hpe
          rcases List.mem_cons.mp ht with rfl | ht
          · omega
          · exact ⟨t, ht, hcovered⟩
        · intro hcover p hp hpe
          by_cases hfirst : p < s.limit
          · exact ⟨s, List.mem_cons_self, hkept, by omega, by omega⟩
          · obtain ⟨t, ht, hcovered⟩ := hcover p (not_lt.mp hfirst) hpe
            exact ⟨t, List.mem_cons_of_mem _ ht, hcovered⟩
      · refine iff_of_false (fun hcover => ?_) fun hn => hfew (hn.2 r List.mem_cons_self)
        obtain ⟨s, hzero, hsegments⟩ := h.segments_of_many (not_lt.mp hfew) n
        obtain ⟨t, ht, hkept, -⟩ := hcover a (Nat.le_refl a) (by omega)
        rw [hsegments] at ht
        obtain rfl := List.mem_singleton.mp ht
        exact absurd hkept.1 (by omega)

end LaidOut

/-! ### Frames with filler -/

/-- A frame and the groups of filler behind it. -/
structure PaddedFrame where
  frame : List UInt8
  filler : List (List UInt8)

/-- The bytes of a frame and its filler. -/
def PaddedFrame.bytes (x : PaddedFrame) : List UInt8 := x.frame ++ x.filler.flatten

/-- The frame is well-formed, and each group of filler has eight bytes, which do not start with the
sync word. -/
structure IsPadded (cards : CardsStatus) (x : PaddedFrame) : Prop where
  frame : IsUplinkFrame cards x.frame
  filler : ∀ g ∈ x.filler, g.length = 8 ∧ u16 g 0 ≠ M57_SYNC_HEADER

/-- Where the frames lie, from the address `p` on. -/
def positions : ℕ → List PaddedFrame → List ℕ
  | _, [] => []
  | p, x :: xs => p :: positions (p + x.bytes.length) xs

section Filler

variable {m : Mem} {cards : CardsStatus} {lim a : ℕ}

/-- The search goes over eight bytes that do not start with the sync word. -/
theorem nextHeader_of_not_isSync {p : ℕ} (hsync : ¬ IsSync m p) :
    nextHeader m lim p = nextHeader m lim (p + 8) := by
  refine Option.ext fun q => ?_
  rw [nextHeader_eq_some, nextHeader_eq_some]
  constructor
  · rintro ⟨j, rfl, hlt, hfound, hbefore⟩
    cases j with
    | zero => exact absurd hfound hsync
    | succ j =>
      refine ⟨j, by omega, hlt, hfound, fun i hi => ?_⟩
      have hshift : p + 8 + 8 * i = p + 8 * (i + 1) := by omega
      rw [hshift]
      exact hbefore (i + 1) (by omega)
  · rintro ⟨j, rfl, hlt, hfound, hbefore⟩
    refine ⟨j + 1, by omega, hlt, hfound, fun i hi => ?_⟩
    cases i with
    | zero => exact hsync
    | succ i =>
      have hshift : p + 8 * (i + 1) = p + 8 + 8 * i := by omega
      rw [hshift]
      exact hbefore i (by omega)

/-- The search goes over filler. -/
theorem nextHeader_filler (lim : ℕ) {p : ℕ} {gs : List (List UInt8)}
    (hgs : ∀ g ∈ gs, g.length = 8 ∧ u16 g 0 ≠ M57_SYNC_HEADER) (hm : m.Holds p gs.flatten) :
    nextHeader m lim p = nextHeader m lim (p + gs.flatten.length) := by
  induction gs generalizing p with
  | nil => rfl
  | cons g gs ih =>
    obtain ⟨⟨hlen, hnot⟩, hgs⟩ := List.forall_mem_cons.mp hgs
    rw [List.flatten_cons, Mem.holds_append] at hm
    have hsync : ¬ IsSync m p := by
      have hu := hm.1.u16_add (i := 0) (by omega)
      rw [IsSync, ← Nat.add_zero p, hu]
      exact hnot
    rw [nextHeader_of_not_isSync hsync, List.flatten_cons, List.length_append, ← Nat.add_assoc,
      hlen]
    rw [hlen] at hm
    exact ih hgs hm.2

/-- A good frame in memory. -/
theorem IsUplinkFrame.isGood {f : List UInt8} (hf : IsUplinkFrame cards f) (hm : m.Holds a f)
    (hlim : a + f.length ≤ lim) : IsGood m cards lim a := by
  obtain ⟨-, hlen, hsub⟩ := hf.inMemory hm
  exact ⟨hlen ▸ hf.min, hlen ▸ hf.max, hsub ▸ hf.chip, hlen ▸ hlim⟩

/-- **The frames of a block with filler follow each other**, from any place in front of the first
one from which the search finds it, and there is no header behind the last one. -/
theorem follows_positions {xs : List PaddedFrame} (hxs : ∀ x ∈ xs, IsPadded cards x)
    (hm : m.Holds a (xs.flatMap PaddedFrame.bytes))
    (hlim : lim = a + (xs.flatMap PaddedFrame.bytes).length) {e₀ : ℕ} (he₀ : e₀ ≤ a)
    (hnext : nextHeader m lim e₀ = nextHeader m lim a) :
    ∃ e, Follows m cards lim e₀ (positions a xs) e ∧ nextHeader m lim e = none ∧ e ≤ lim ∧
      (e₀ = a → (∀ x ∈ xs, x.filler = []) → e = lim) := by
  induction xs generalizing a e₀ with
  | nil =>
    obtain rfl : lim = a := hlim
    refine ⟨e₀, .nil e₀, ?_, he₀, fun h _ => h⟩
    rw [hnext, nextHeader_eq_none]
    exact fun i hi => absurd hi (by omega)
  | cons x xs ih =>
    obtain ⟨hx, hxs⟩ := List.forall_mem_cons.mp hxs
    rw [List.flatMap_cons, Mem.holds_append] at hm
    rw [List.flatMap_cons, List.length_append] at hlim
    obtain ⟨hhere, hbehind⟩ := hm
    have hbytes : x.bytes.length = x.frame.length + x.filler.flatten.length := List.length_append
    have hmin := hx.frame.min
    rw [PaddedFrame.bytes, Mem.holds_append] at hhere
    obtain ⟨hsync, hlen, -⟩ := hx.frame.inMemory hhere.1
    have hskip := nextHeader_filler lim hx.filler hhere.2
    rw [Nat.add_assoc, ← hbytes] at hskip
    obtain ⟨e, hfollows, hnone, hle, hclean⟩ := ih hxs hbehind (by omega)
      (show a + x.frame.length ≤ a + x.bytes.length by omega) hskip
    refine ⟨e, ?_, hnone, hle, fun hstart hempty => ?_⟩
    · refine .cons (hnext.trans (nextHeader_of_isSync hsync (by omega)))
        (hx.frame.isGood hhere.1 (by omega)) ?_
      rw [hlen]
      exact hfollows
    · obtain ⟨hnil, hempty⟩ := List.forall_mem_cons.mp hempty
      rw [hnil] at hbytes
      exact hclean (by rw [hbytes]; rfl) hempty

/-- The frames of a block have their parameters in memory. -/
theorem map_frameSub_positions {xs : List PaddedFrame} (hxs : ∀ x ∈ xs, IsPadded cards x)
    (hm : m.Holds a (xs.flatMap PaddedFrame.bytes)) :
    (positions a xs).map (frameSub m) = (xs.map PaddedFrame.frame).map subOf := by
  induction xs generalizing a with
  | nil => rfl
  | cons x xs ih =>
    obtain ⟨hx, hxs⟩ := List.forall_mem_cons.mp hxs
    rw [List.flatMap_cons, Mem.holds_append] at hm
    obtain ⟨hhere, hbehind⟩ := hm
    rw [PaddedFrame.bytes, Mem.holds_append] at hhere
    obtain ⟨-, -, hsub⟩ := hx.frame.inMemory hhere.1
    rw [positions, List.map_cons, List.map_cons, List.map_cons, hsub, ih hxs hbehind]

/-- The runs of a block have the parameters of the runs in memory. -/
theorem map_frameSub_runsOf {xs : List PaddedFrame} (hxs : ∀ x ∈ xs, IsPadded cards x)
    (hm : m.Holds a (xs.flatMap PaddedFrame.bytes)) :
    (runsOf m (positions a xs)).map (List.map (frameSub m)) =
      (maximalRuns (xs.map PaddedFrame.frame)).map (List.map subOf) := by
  have hsub := congrArg (List.splitBy fun a b => decide (SameParams a b))
    (map_frameSub_positions hxs hm)
  rwa [splitBy_map, splitBy_map subOf] at hsub

/-- The key of a run is that of its first frame. -/
theorem hashId_headD_map {α : Type} (f : α → NetSub) {r : List α} (hr : r ≠ []) (d : α) :
    ((r.map f).headD {}).hashId = (f (r.headD d)).hashId := by
  obtain ⟨x, r, rfl⟩ := List.exists_cons_of_ne_nil hr
  rfl

/-- The keys of the runs of a block are those of the runs in memory. -/
theorem map_key_runsOf {xs : List PaddedFrame} (hxs : ∀ x ∈ xs, IsPadded cards x)
    (hm : m.Holds a (xs.flatMap PaddedFrame.bytes)) :
    (runsOf m (positions a xs)).map (fun r => (frameSub m (r.headD 0)).hashId) =
      (maximalRuns (xs.map PaddedFrame.frame)).map fun r => (subOf (r.headD [])).hashId := by
  have hkeys := congrArg (List.map fun l : List NetSub => (l.headD {}).hashId)
    (map_frameSub_runsOf hxs hm)
  rw [List.map_map, List.map_map] at hkeys
  have hleft := List.map_congr_left fun r (hr : r ∈ runsOf m (positions a xs)) =>
    hashId_headD_map (frameSub m) (List.ne_nil_of_mem_splitBy hr) 0
  have hright := List.map_congr_left fun r (hr : r ∈ maximalRuns (xs.map PaddedFrame.frame)) =>
    hashId_headD_map subOf (List.ne_nil_of_mem_splitBy hr) []
  rw [← hleft]
  exact hkeys.trans hright

/-- The runs of the frames of a block have the lengths of the runs in memory. -/
theorem map_length_runsOf_positions {xs : List PaddedFrame} (hxs : ∀ x ∈ xs, IsPadded cards x)
    (hm : m.Holds a (xs.flatMap PaddedFrame.bytes)) :
    (runsOf m (positions a xs)).map List.length =
      (maximalRuns (xs.map PaddedFrame.frame)).map List.length := by
  have hlength {α β : Type} (f : α → β) (rs : List (List α)) :
      (rs.map (List.map f)).map List.length = rs.map List.length := by
    rw [List.map_map]
    exact List.map_congr_left fun r _ => List.length_map f
  have hlen := congrArg (List.map List.length) (map_frameSub_runsOf hxs hm)
  rwa [hlength, hlength] at hlen

end Filler

/-! ### The router on frames with filler -/

/-- A vector has the frames `ps`: they are the frames that are found in it, it is filed under the
chip, the function and the port of each of them, and they lie inside it. -/
structure HasFrames (m : Mem) (e : ℤ × Iovec) (ps : List ℕ) : Prop where
  frames : ∀ p, FrameIn m e.2 p ↔ p ∈ ps
  key : ∀ p ∈ ps, ∃ prio, e.1 =
    getHashmapId (frameSub m p).chipId (frameSub m p).funcId prio (frameSub m p).port
  inside : ∀ p ∈ ps, e.2.base ≤ p ∧ p + frameLen m p ≤ e.2.base + e.2.len

/-- A block puts vectors into the table, behind those that it had under their keys, which have the
frames `ps`, each once and in their order, and no others. -/
def KeepsFrames (m : Mem) (cards : CardsStatus) (header len : ℕ) (ps : List ℕ) (u : Channel) :
    Prop :=
  ∃ (es : List (ℤ × Iovec)) (pss : List (List ℕ)), pss.flatten = ps ∧
    List.Forall₂ (HasFrames m) es pss ∧
    ∀ key, vecs (xdmaDataDispatcherBuffer m cards [(header, len)] u).table key =
      vecs u.table key ++ (es.filter fun e => e.1 = key).map Prod.snd

section Router

variable {m : Mem} {cards : CardsStatus} {header len e : ℕ} {rs : List (List ℕ)} {u : Channel}

/-- A vector of a block has the frames of its run. -/
theorem hasFrames_of_mem_vectors {s : Segment} (hs : s ∈ vectors m cards header len) :
    HasFrames m (s.entry m) s.frames := by
  have hlinked := linked_of_mem_vectors hs
  obtain ⟨-, hlt, hstart, heq, hpos, -⟩ := eq_segmentAt_of_mem_vectors hs
  refine ⟨frameIn_iff_of_mem_vectors hs, fun p hp => ?_, fun p hp => ?_⟩
  · obtain ⟨-, -, -, ⟨hchip, hfunc, hport⟩, -⟩ := hlinked.mem hp
    rw [← hchip, ← hfunc, ← hport]
    exact ⟨_, rfl⟩
  · obtain ⟨-, -, -, -, hle, hstop⟩ := hlinked.mem hp
    have hlimit : s.start + s.size = s.limit := start_add_size hs
    have hbehind : s.stop ≤ s.limit := by
      have hspec := (segmentAt_spec hstart hlt).2
      rw [← heq] at hspec
      cases hend : s.ending with
      | unknown q =>
        simp only [hend] at hspec
        have hq : s.limit = q := by rw [Segment.limit, hend]
        exact hq ▸ (nextHeader_le hspec.2.1).1
      | change q =>
        simp only [hend] at hspec
        have hq : s.limit = q := by rw [Segment.limit, hend]
        exact hq ▸ (nextHeader_le hspec.2.1).1
      | _ => rw [Segment.limit, hend]
    exact ⟨hle, hlimit ▸ hstop.trans hbehind⟩

/-- The vectors of a block whose frames are laid out are those of its runs, as many as are read. -/
theorem LaidOut.frames_vectors (h : LaidOut m cards (header + len) header rs e)
    (hfew : ∀ r ∈ rs, r.length < MAX_PACKAGES_NUM) (hlim : e ≤ header + len)
    (hblock : len ≤ XDMA_BLOCK_SIZE) :
    (vectors m cards header len).map Segment.frames = rs.take XDMA_DATA_TYPE_MAX_PKGS := by
  obtain ⟨hframes, hkept⟩ :=
    h.frames_segments hfew hlim (Nat.le_refl header) XDMA_DATA_TYPE_MAX_PKGS
  have hall : vectors m cards header len =
      segments m cards (header + len) XDMA_DATA_TYPE_MAX_PKGS header := by
    rw [vectors, blockRuns, if_neg (not_lt.mpr hblock)]
    exact List.filter_eq_self.mpr fun s hs => decide_eq_true (hkept s hs)
  rw [hall, hframes]

/-- The keys of the vectors are those of the runs. -/
theorem LaidOut.map_key_vectors (h : LaidOut m cards (header + len) header rs e)
    (hfew : ∀ r ∈ rs, r.length < MAX_PACKAGES_NUM) (hlim : e ≤ header + len)
    (hblock : len ≤ XDMA_BLOCK_SIZE) (hruns : rs.length ≤ XDMA_DATA_TYPE_MAX_PKGS) :
    (vectors m cards header len).map (fun s => (frameSub m s.start).hashId) =
      rs.map fun r => (frameSub m (r.headD 0)).hashId := by
  have hframes := h.frames_vectors hfew hlim hblock
  rw [List.take_of_length_le hruns] at hframes
  rw [← hframes, List.map_map]
  refine List.map_congr_left fun s hs => ?_
  rw [Function.comp_apply, (eq_segmentAt_of_mem_vectors hs).2.2.2.1]
  rfl

/-- The vectors that a block puts into the table are vectors of the block. -/
theorem exists_of_mem_added {es : List (ℤ × Iovec)}
    (hes : ∀ key, vecs (xdmaDataDispatcherBuffer m cards [(header, len)] u).table key =
      vecs u.table key ++ (es.filter fun e => e.1 = key).map Prod.snd) :
    ∃ ss, ss.Sublist (vectors m cards header len) ∧ (∀ x ∈ es, ∃ s ∈ ss, s.entry m = x) ∧
      (ss = vectors m cards header len ↔
        HasRoom u.table
          ((vectors m cards header len).map fun s => (frameSub m s.start).hashId)) := by
  obtain ⟨ss, hss, hkeep, hadded, hroom⟩ := added_eq m cards header len u
  refine ⟨ss, hss, fun x hx => ?_, hroom⟩
  have heq := (hkeep x.1).symm.trans (hes x.1)
  rw [List.append_cancel_left_eq, hadded] at heq
  have hmem : x.2 ∈ (es.filter fun e => e.1 = x.1).map Prod.snd :=
    List.mem_map_of_mem (List.mem_filter.mpr ⟨hx, decide_eq_true rfl⟩)
  rw [← heq] at hmem
  obtain ⟨y, hy, hsnd⟩ := List.mem_map.mp hmem
  obtain ⟨hy, hfst⟩ := List.mem_filter.mp hy
  obtain ⟨s, hs, rfl⟩ := List.mem_map.mp hy
  exact ⟨s, hs, Prod.ext (of_decide_eq_true hfst) hsnd⟩

/-- Every frame of the vectors is found in one of them. -/
theorem exists_frameIn_of_forall₂ {es : List (ℤ × Iovec)} {pss : List (List ℕ)}
    (h : List.Forall₂ (HasFrames m) es pss) {p : ℕ} (hp : p ∈ pss.flatten) :
    ∃ x ∈ es, FrameIn m x.2 p := by
  induction h with
  | nil => cases hp
  | cons hfirst _ ih =>
    rw [List.flatten_cons] at hp
    rcases List.mem_append.mp hp with hp | hp
    · exact ⟨_, List.mem_cons_self, (hfirst.frames p).mpr hp⟩
    · obtain ⟨x, hx, hin⟩ := ih hp
      exact ⟨x, List.mem_cons_of_mem _ hx, hin⟩

/-- **Frames in runs** that are neither too long nor too many are kept if and only if the table has
room for a vector under the key of each run. -/
theorem LaidOut.keepsFrames_iff (h : LaidOut m cards (header + len) header rs e)
    (hfew : ∀ r ∈ rs, r.length < MAX_PACKAGES_NUM) (hlim : e ≤ header + len)
    (hblock : len ≤ XDMA_BLOCK_SIZE) (hruns : rs.length ≤ XDMA_DATA_TYPE_MAX_PKGS) :
    KeepsFrames m cards header len rs.flatten u ↔
      HasRoom u.table (rs.map fun r => (frameSub m (r.headD 0)).hashId) := by
  have hframes := h.frames_vectors hfew hlim hblock
  rw [List.take_of_length_le hruns] at hframes
  rw [← h.map_key_vectors hfew hlim hblock hruns]
  constructor
  · rintro ⟨es, pss, hflat, hpss, hes⟩
    obtain ⟨ss, hss, hmem, hroom⟩ := exists_of_mem_added hes
    refine hroom.mp (eq_vectors_of_sublist hss fun s hs => ?_)
    -- the first frame of a vector is found in a vector of the table
    have hstart : s.start ∈ s.frames := by
      rw [(eq_segmentAt_of_mem_vectors hs).2.2.2.1]
      exact List.mem_cons_self
    have hrun : s.frames ∈ rs := by
      rw [← hframes]
      exact List.mem_map_of_mem hs
    obtain ⟨x, hx, hin⟩ := exists_frameIn_of_forall₂ hpss (p := s.start)
      (hflat ▸ List.mem_flatten_of_mem hrun hstart)
    obtain ⟨t, ht, rfl⟩ := hmem x hx
    have htv := hss.subset ht
    have htframe := (frameIn_iff_of_mem_vectors htv s.start).mp hin
    have hbelow := lt_limit_of_mem_frames htv htframe
    rw [← start_add_size htv] at hbelow
    rwa [eq_of_start_lt hs htv ((linked_of_mem_vectors htv).mem htframe).2.2.2.2.1 hbelow]
  · intro hroom
    obtain ⟨ss, -, hkeep, hadded, hall⟩ := added_eq m cards header len u
    obtain rfl := hall.mpr hroom
    refine ⟨(vectors m cards header len).map (Segment.entry m), rs, rfl, ?_, fun key => ?_⟩
    · rw [← hframes, List.forall₂_map_left_iff, List.forall₂_map_right_iff, List.forall₂_same]
      exact fun s hs => hasFrames_of_mem_vectors hs
    · rw [hkeep, hadded]

/-- A frame of a run that is read too late is in no vector. -/
theorem LaidOut.not_keepsFrames (h : LaidOut m cards (header + len) header rs e)
    (hfew : ∀ r ∈ rs, r.length < MAX_PACKAGES_NUM) (hlim : e ≤ header + len)
    (hblock : len ≤ XDMA_BLOCK_SIZE) (hruns : XDMA_DATA_TYPE_MAX_PKGS < rs.length) :
    ¬ KeepsFrames m cards header len rs.flatten u := by
  rintro ⟨es, pss, hflat, hpss, hes⟩
  obtain ⟨ss, hss, hmem, -⟩ := exists_of_mem_added hes
  -- the first frame behind the runs that are read
  obtain ⟨r, hr⟩ : ∃ r, r ∈ rs.drop XDMA_DATA_TYPE_MAX_PKGS :=
    List.exists_mem_of_ne_nil _ (List.ne_nil_of_length_pos (by rw [List.length_drop]; omega))
  obtain ⟨p, hp⟩ := List.exists_mem_of_ne_nil r (h.runs r (List.mem_of_mem_drop hr)).1
  have hflatten : rs.flatten = (rs.take XDMA_DATA_TYPE_MAX_PKGS).flatten ++
      (rs.drop XDMA_DATA_TYPE_MAX_PKGS).flatten := by
    rw [← List.flatten_append, List.take_append_drop]
  have hlate := List.mem_flatten_of_mem hr hp
  obtain ⟨x, hx, hin⟩ := exists_frameIn_of_forall₂ hpss (p := p)
    (by rw [hflat, hflatten]; exact List.mem_append_right _ hlate)
  obtain ⟨s, hs, rfl⟩ := hmem x hx
  have hs := hss.subset hs
  have hread : s.frames ∈ rs.take XDMA_DATA_TYPE_MAX_PKGS := by
    rw [← h.frames_vectors hfew hlim hblock]
    exact List.mem_map_of_mem hs
  have hearly := List.mem_flatten_of_mem hread ((frameIn_iff_of_mem_vectors hs p).mp hin)
  have hpairwise := h.follows.pairwise
  rw [hflatten] at hpairwise
  exact lt_irrefl p ((List.pairwise_append.mp hpairwise).2.2 p hearly p hlate)

/-- The frames of a block with filler, in their runs. -/
theorem laidOut_positions {xs : List PaddedFrame} (hxs : ∀ x ∈ xs, IsPadded cards x)
    (hm : m.Holds header (xs.flatMap PaddedFrame.bytes)) :
    ∃ e ≤ header + (xs.flatMap PaddedFrame.bytes).length,
      LaidOut m cards (header + (xs.flatMap PaddedFrame.bytes).length) header
        (runsOf m (positions header xs)) e ∧
      ((∀ x ∈ xs, x.filler = []) → e = header + (xs.flatMap PaddedFrame.bytes).length) := by
  obtain ⟨e, hfollows, hnone, hle, hclean⟩ := follows_positions hxs hm rfl (Nat.le_refl header) rfl
  refine ⟨e, hle, laidOut_runsOf ?_ hfollows hnone, hclean rfl⟩
  cases xs with
  | nil => exact hclean rfl fun x hx => absurd hx List.not_mem_nil
  | cons x xs => rfl

/-- The runs of the frames of a block are as many, and as long, as they are in memory. -/
theorem runsOf_positions {xs : List PaddedFrame} (hxs : ∀ x ∈ xs, IsPadded cards x)
    (hm : m.Holds header (xs.flatMap PaddedFrame.bytes)) :
    (runsOf m (positions header xs)).length = (maximalRuns (xs.map PaddedFrame.frame)).length ∧
      ((∀ r ∈ runsOf m (positions header xs), r.length < MAX_PACKAGES_NUM) ↔
        ∀ r ∈ maximalRuns (xs.map PaddedFrame.frame), r.length < MAX_PACKAGES_NUM) := by
  have hlen := map_length_runsOf_positions hxs hm
  refine ⟨?_, ?_⟩
  · rw [← List.length_map List.length, hlen, List.length_map]
  · have hall {α : Type} (rs : List (List α)) : (∀ r ∈ rs, r.length < MAX_PACKAGES_NUM) ↔
        ∀ n ∈ rs.map List.length, n < MAX_PACKAGES_NUM := by
      rw [List.forall_mem_map]
    rw [hall, hall, hlen]

/-- The frames of a block that the router reads as a whole: one of at most `XDMA_BLOCK_SIZE` bytes,
whose frames make at most `XDMA_DATA_TYPE_MAX_PKGS` runs of fewer than `MAX_PACKAGES_NUM` frames
each. -/
theorem keepsFrames_iff_hasRoom {xs : List PaddedFrame} (hxs : ∀ x ∈ xs, IsPadded cards x)
    (hm : m.Holds header (xs.flatMap PaddedFrame.bytes))
    (hfew : ∀ r ∈ maximalRuns (xs.map PaddedFrame.frame), r.length < MAX_PACKAGES_NUM)
    (hblock : (xs.flatMap PaddedFrame.bytes).length ≤ XDMA_BLOCK_SIZE)
    (hruns : (maximalRuns (xs.map PaddedFrame.frame)).length ≤ XDMA_DATA_TYPE_MAX_PKGS) :
    KeepsFrames m cards header (xs.flatMap PaddedFrame.bytes).length (positions header xs) u ↔
      HasRoom u.table ((maximalRuns (xs.map PaddedFrame.frame)).map
        fun r => (subOf (r.headD [])).hashId) := by
  have hflat : (runsOf m (positions header xs)).flatten = positions header xs :=
    List.flatten_splitBy _ _
  obtain ⟨hcount, hshort⟩ := runsOf_positions hxs hm
  obtain ⟨e, hle, hlaid, -⟩ := laidOut_positions hxs hm
  have hkeeps := hlaid.keepsFrames_iff (u := u) (hshort.mpr hfew) hle hblock
    (hcount.trans_le hruns)
  rwa [hflat, map_key_runsOf hxs hm] at hkeeps

/-- **Padding between frames is skipped without loss**, in a block that the router reads as a whole
and whose runs the table has room for. -/
theorem keepsFrames_padded {xs : List PaddedFrame} (hxs : ∀ x ∈ xs, IsPadded cards x)
    (hm : m.Holds header (xs.flatMap PaddedFrame.bytes))
    (hfew : ∀ r ∈ maximalRuns (xs.map PaddedFrame.frame), r.length < MAX_PACKAGES_NUM)
    (hblock : (xs.flatMap PaddedFrame.bytes).length ≤ XDMA_BLOCK_SIZE)
    (hruns : (maximalRuns (xs.map PaddedFrame.frame)).length ≤ XDMA_DATA_TYPE_MAX_PKGS)
    (hroom : HasRoom u.table ((maximalRuns (xs.map PaddedFrame.frame)).map
      fun r => (subOf (r.headD [])).hashId)) :
    KeepsFrames m cards header (xs.flatMap PaddedFrame.bytes).length (positions header xs) u :=
  (keepsFrames_iff_hasRoom hxs hm hfew hblock hruns).mpr hroom

end Router

/-! ### Blocks with frames that are kept or lost -/

/-- Two frames of different functions, with filler behind each of them. -/
theorem keepsFrames_padded_two :
    let xs : List PaddedFrame :=
      [⟨headerBytes 1 24 0x502 1 0, [List.replicate 8 0]⟩,
        ⟨headerBytes 1 24 0x502 2 0, [List.replicate 8 1, List.replicate 8 2]⟩]
    KeepsFrames (Mem.ofList (xs.flatMap PaddedFrame.bytes)) CardsStatus.slotFive 0
      (xs.flatMap PaddedFrame.bytes).length (positions 0 xs) {} := by
  intro xs
  have hxs : ∀ x ∈ xs, IsPadded CardsStatus.slotFive x := by
    have hone : IsPadded CardsStatus.slotFive ⟨headerBytes 1 24 0x502 1 0, [List.replicate 8 0]⟩ :=
      ⟨⟨by decide, by decide, by decide, by decide, by decide⟩, by decide⟩
    have htwo : IsPadded CardsStatus.slotFive
        ⟨headerBytes 1 24 0x502 2 0, [List.replicate 8 1, List.replicate 8 2]⟩ :=
      ⟨⟨by decide, by decide, by decide, by decide, by decide⟩, by decide⟩
    exact List.forall_mem_cons.mpr ⟨hone, List.forall_mem_singleton.mpr htwo⟩
  exact keepsFrames_padded hxs (Mem.holds_ofList _) (by decide) (by decide) (by decide)
    (hasRoom_create (by decide))

/-- A frame of 24 bytes, of function one or two. -/
def shortFrame (b : Bool) : PaddedFrame where
  frame := headerBytes 1 24 0x502 (if b then 2 else 1) 0
  filler := []

/-- Frames of 24 bytes, of function one and two in turn. -/
def alternating : ℕ → Bool → List PaddedFrame
  | 0, _ => []
  | n + 1, b => shortFrame b :: alternating n !b

/-- A frame and 524286 groups of filler. -/
def longBlock : List PaddedFrame :=
  [⟨headerBytes 1 24 0x502 1 0, List.replicate 524286 (List.replicate 8 0)⟩]

theorem isPadded_shortFrame (b : Bool) : IsPadded CardsStatus.slotFive (shortFrame b) := by
  refine ⟨?_, fun g hg => absurd hg List.not_mem_nil⟩
  cases b
  · exact ⟨by decide, by decide, by decide, by decide, by decide⟩
  · exact ⟨by decide, by decide, by decide, by decide, by decide⟩

theorem isPadded_alternating (n : ℕ) (b : Bool) :
    ∀ x ∈ alternating n b, IsPadded CardsStatus.slotFive x := by
  induction n generalizing b with
  | zero => exact fun x hx => absurd hx List.not_mem_nil
  | succ n ih => exact List.forall_mem_cons.mpr ⟨isPadded_shortFrame b, ih !b⟩

theorem length_alternating (n : ℕ) (b : Bool) :
    (alternating n b).length = n ∧
      ((alternating n b).flatMap PaddedFrame.bytes).length = 24 * n := by
  induction n generalizing b with
  | zero => exact ⟨rfl, rfl⟩
  | succ n ih =>
    obtain ⟨hlen, hbytes⟩ := ih !b
    have hshort : (shortFrame b).bytes.length = 24 := by cases b <;> rfl
    rw [alternating, List.length_cons, List.flatMap_cons, List.length_append, hlen, hbytes, hshort]
    exact ⟨rfl, by omega⟩

theorem isChain_alternating (n : ℕ) (b : Bool) :
    ((alternating n b).map PaddedFrame.frame).IsChain fun f g =>
      ¬ SameParams (subOf f) (subOf g) := by
  induction n generalizing b with
  | zero => exact .nil
  | succ n ih =>
    refine List.isChain_cons.mpr ⟨fun y hy => ?_, ih !b⟩
    cases n with
    | zero => cases hy
    | succ n =>
      obtain rfl := Option.some.inj hy
      cases b <;> decide

/-- Frames that all differ from the next one are in runs of one frame. -/
theorem maximalRuns_of_isChain_not {fs : List (List UInt8)}
    (h : fs.IsChain fun f g => ¬ SameParams (subOf f) (subOf g)) :
    maximalRuns fs = fs.map ([·]) ∧ ∀ r ∈ maximalRuns fs, r.length < MAX_PACKAGES_NUM := by
  have hruns : maximalRuns fs = fs.map ([·]) := splitBy_of_isChain_not h
  refine ⟨hruns, ?_⟩
  rw [hruns]
  rintro r hr
  obtain ⟨f, -, rfl⟩ := List.mem_map.mp hr
  exact show 1 < MAX_PACKAGES_NUM by decide

/-- Of a block of more than `XDMA_BLOCK_SIZE` bytes no frame is kept. -/
theorem not_keepsFrames_of_long {m : Mem} {cards : CardsStatus} {header : ℕ} {u : Channel}
    {x : PaddedFrame} {xs : List PaddedFrame}
    (hlong : XDMA_BLOCK_SIZE < ((x :: xs).flatMap PaddedFrame.bytes).length) :
    ¬ KeepsFrames m cards header ((x :: xs).flatMap PaddedFrame.bytes).length
      (positions header (x :: xs)) u := by
  rintro ⟨es, pss, hflat, hpss, hes⟩
  obtain ⟨ss, hss, hmem, -⟩ := exists_of_mem_added hes
  rw [vectors, blockRuns, if_pos hlong] at hss
  obtain ⟨y, hy, -⟩ := exists_frameIn_of_forall₂ hpss (p := header) (hflat ▸ List.mem_cons_self)
  obtain ⟨s, hs, -⟩ := hmem y hy
  exact List.not_mem_nil (hss.subset hs)

/-- More than `XDMA_DATA_TYPE_MAX_PKGS` frames in turn, in a block of at most `XDMA_BLOCK_SIZE`
bytes, are not all kept, and their runs are of one frame each. -/
theorem not_keepsFrames_alternating {n : ℕ} {u : Channel} (hn : XDMA_DATA_TYPE_MAX_PKGS < n)
    (hblock : 24 * n ≤ XDMA_BLOCK_SIZE) (b : Bool) :
    (∀ r ∈ maximalRuns ((alternating n b).map PaddedFrame.frame), r.length < MAX_PACKAGES_NUM) ∧
      ¬ KeepsFrames (Mem.ofList ((alternating n b).flatMap PaddedFrame.bytes))
        CardsStatus.slotFive 0 ((alternating n b).flatMap PaddedFrame.bytes).length
        (positions 0 (alternating n b)) u := by
  obtain ⟨hlen, hbytes⟩ := length_alternating n b
  have hxs := isPadded_alternating n b
  have hm := Mem.holds_ofList ((alternating n b).flatMap PaddedFrame.bytes)
  obtain ⟨hruns, hfew⟩ := maximalRuns_of_isChain_not (isChain_alternating n b)
  refine ⟨hfew, ?_⟩
  obtain ⟨e, hle, hlaid, -⟩ := laidOut_positions hxs hm
  obtain ⟨hcount, hshort⟩ := runsOf_positions hxs hm
  have hnot := hlaid.not_keepsFrames (u := u) (hshort.mpr hfew) hle (by rwa [hbytes])
    (by rwa [hcount, hruns, List.length_map, List.length_map, hlen])
  have hflat : (runsOf (Mem.ofList ((alternating n b).flatMap PaddedFrame.bytes))
      (positions 0 (alternating n b))).flatten = positions 0 (alternating n b) :=
    List.flatten_splitBy _ _
  rwa [hflat] at hnot

/-- Cards in slots four and five. -/
def slotsFourFive : CardsStatus where
  test slot := decide (slot = 4 ∨ slot = 5)
  mem_cardSlots := by
    rintro slot hslot
    rcases of_decide_eq_true hslot with rfl | rfl
    · decide
    · decide

/-- The frame of 24 bytes with a number: every digit of it is a parameter of the frame. -/
def numbered (i : ℕ) : List UInt8 :=
  headerBytes (3 * (i / 1024 % 2)) 24 (1024 + 256 * (i / 8192) + i / 2048 % 4) (i % 256)
    (i / 256 % 4)

theorem subOf_numbered {i : ℕ} (hi : i < 8193) :
    subOf (numbered i) =
      ⟨1024 + 256 * (i / 8192) + i / 2048 % 4, i % 256, i / 1024 % 2, i / 256 % 4⟩ := by
  have hu16 (a : ℕ) (ha : a < 65536) :
      (UInt8.ofNat a).toNat + 256 * (UInt8.ofNat (a / 256)).toNat = a := by
    rw [UInt8.toNat_ofNat', UInt8.toNat_ofNat']
    omega
  have hprio : (if (UInt8.ofNat (16 * (3 * (i / 1024 % 2)))).toNat / 16 = 3 then 1 else 0) =
      i / 1024 % 2 := by
    rw [UInt8.toNat_ofNat']
    split_ifs
    · omega
    · omega
  exact NetSub.mk.injEq .. ▸ ⟨hu16 _ (by omega), hu16 _ (by omega), hprio, hu16 _ (by omega)⟩

/-- The key of a frame has the digits of its number, in another order. -/
theorem hashId_numbered {i : ℕ} (hi : i < 8193) :
    (subOf (numbered i)).hashId =
      (4 + i / 8192 + i / 2048 % 4 * 8 + i % 256 * 32 + i / 1024 % 2 * 8192 +
        i / 256 % 4 * 16384 : ℕ) := by
  have hslot : cardSlotNum (1024 + 256 * (i / 8192) + i / 2048 % 4) = 4 + i / 8192 := by
    rw [cardSlotNum]
    omega
  have hchip : cardChipNum (1024 + 256 * (i / 8192) + i / 2048 % 4) = i / 2048 % 4 := by
    rw [cardChipNum]
    omega
  rw [subOf_numbered hi, NetSub.hashId, getHashmapId, hslot, hchip, Int.natCast_inj]
  dsimp only
  omega

/-- Frames with different numbers have different keys. -/
theorem hashId_numbered_inj {i j : ℕ} (hi : i < 8193) (hj : j < 8193)
    (h : (subOf (numbered i)).hashId = (subOf (numbered j)).hashId) : i = j := by
  rw [hashId_numbered hi, hashId_numbered hj, Int.natCast_inj] at h
  have hport : i / 256 % 4 = j / 256 % 4 := by omega
  have hprio : i / 1024 % 2 = j / 1024 % 2 := by omega
  have hfunc : i % 256 = j % 256 := by omega
  have hchip : i / 2048 % 4 = j / 2048 % 4 := by omega
  omega

theorem isUplinkFrame_numbered {i : ℕ} (hi : i < 8193) :
    IsUplinkFrame slotsFourFive (numbered i) := by
  have hlen : (numbered i).length = 24 := rfl
  have hsync : u16 (numbered i) 0 = M57_SYNC_HEADER :=
    show (UInt8.ofNat M57_SYNC_HEADER).toNat + 256 * (UInt8.ofNat (M57_SYNC_HEADER / 256)).toNat =
      M57_SYNC_HEADER by decide
  have hfield : u16 (numbered i) 4 = 24 := rfl
  refine ⟨hsync, hfield.trans hlen.symm, hlen.ge, hlen.trans_le (by decide), decide_eq_true ?_⟩
  rw [subOf_numbered hi, cardSlotNum]
  dsimp only
  omega

/-- The 8193 frames of a block without filler, all with different keys. -/
def manyKeys : List PaddedFrame := (List.range 8193).map fun i => ⟨numbered i, []⟩

theorem isPadded_manyKeys : ∀ x ∈ manyKeys, IsPadded slotsFourFive x := by
  rw [manyKeys, List.forall_mem_map]
  exact fun i hi => ⟨isUplinkFrame_numbered (List.mem_range.mp hi),
    fun g hg => absurd hg List.not_mem_nil⟩

theorem isChain_manyKeys :
    (manyKeys.map PaddedFrame.frame).IsChain fun f g => ¬ SameParams (subOf f) (subOf g) := by
  rw [manyKeys, List.map_map, List.isChain_map, List.isChain_range]
  rintro i hi ⟨-, hfunc, -⟩
  rw [Function.comp_apply, Function.comp_apply, subOf_numbered (by omega),
    subOf_numbered (by omega)] at hfunc
  dsimp only at hfunc
  omega

/-- A block of 8193 frames with different keys: the table has no entry for the last one. -/
theorem not_keepsFrames_manyKeys :
    (manyKeys.flatMap PaddedFrame.bytes).length ≤ XDMA_BLOCK_SIZE ∧
      (maximalRuns (manyKeys.map PaddedFrame.frame)).length ≤ XDMA_DATA_TYPE_MAX_PKGS ∧
      (∀ r ∈ maximalRuns (manyKeys.map PaddedFrame.frame), r.length < MAX_PACKAGES_NUM) ∧
      ¬ KeepsFrames (Mem.ofList (manyKeys.flatMap PaddedFrame.bytes)) slotsFourFive 0
        (manyKeys.flatMap PaddedFrame.bytes).length (positions 0 manyKeys) {} := by
  obtain ⟨hruns, hfew⟩ := maximalRuns_of_isChain_not isChain_manyKeys
  have hcount : (maximalRuns (manyKeys.map PaddedFrame.frame)).length = 8193 := by
    rw [hruns, List.length_map, List.length_map, manyKeys, List.length_map, List.length_range]
  have hbytes : (manyKeys.flatMap PaddedFrame.bytes).length = 8193 * 24 := by
    rw [manyKeys, List.flatMap_map, List.length_flatMap]
    have hone : (fun i => (PaddedFrame.bytes ⟨numbered i, []⟩).length) = fun _ => 24 := rfl
    rw [hone, List.map_const', List.sum_replicate_nat, List.length_range]
  have hblock : (manyKeys.flatMap PaddedFrame.bytes).length ≤ XDMA_BLOCK_SIZE := by
    rw [hbytes]
    decide
  have hmax : (maximalRuns (manyKeys.map PaddedFrame.frame)).length ≤ XDMA_DATA_TYPE_MAX_PKGS := by
    rw [hcount]
    decide
  refine ⟨hblock, hmax, hfew, fun hkeeps => ?_⟩
  have hroom := (keepsFrames_iff_hasRoom isPadded_manyKeys (Mem.holds_ofList _) hfew hblock
    hmax).mp hkeeps
  have hkeys : (maximalRuns (manyKeys.map PaddedFrame.frame)).map
      (fun r => (subOf (r.headD [])).hashId) =
        (List.range 8193).map fun i => (subOf (numbered i)).hashId := by
    rw [hruns, manyKeys, List.map_map, List.map_map, List.map_map]
    rfl
  have hnodup : ((List.range 8193).map fun i => (subOf (numbered i)).hashId).Nodup :=
    List.nodup_range.map_on fun i hi j hj =>
      hashId_numbered_inj (List.mem_range.mp hi) (List.mem_range.mp hj)
  have hcard := hroom.2
  rw [hkeys] at hcard
  have hle := (Finset.card_le_card Finset.subset_union_right).trans hcard
  rw [List.toFinset_card_of_nodup hnodup, List.length_map, List.length_range] at hle
  exact absurd hle (show ¬ 8193 ≤ 8192 by decide)

theorem isPadded_replicate (b : Bool) (n : ℕ) :
    IsPadded CardsStatus.slotFive
      ⟨(shortFrame b).frame, List.replicate n (List.replicate 8 0)⟩ := by
  refine ⟨(isPadded_shortFrame b).frame, fun g hg => ?_⟩
  rw [List.eq_of_mem_replicate hg]
  decide

/-- The length of a frame and the groups of filler behind it. -/
theorem length_bytes_replicate (f g : List UInt8) (n : ℕ) :
    (PaddedFrame.bytes ⟨f, List.replicate n g⟩).length = f.length + n * g.length := by
  rw [PaddedFrame.bytes, List.length_append, List.length_flatten, List.map_replicate,
    List.sum_replicate_nat]

/-- The frame of a block of more than `XDMA_BLOCK_SIZE` bytes is not kept, nor are all frames of a
block of 65537 runs, or of one with 8193 keys. -/
theorem not_keepsFrames_padded :
    ((∀ x ∈ longBlock, IsPadded CardsStatus.slotFive x) ∧
      ¬ KeepsFrames (Mem.ofList (longBlock.flatMap PaddedFrame.bytes)) CardsStatus.slotFive 0
        (longBlock.flatMap PaddedFrame.bytes).length (positions 0 longBlock) {}) ∧
      ((∀ x ∈ alternating 65537 false, IsPadded CardsStatus.slotFive x) ∧
      (∀ r ∈ maximalRuns ((alternating 65537 false).map PaddedFrame.frame),
        r.length < MAX_PACKAGES_NUM) ∧
      ¬ KeepsFrames (Mem.ofList ((alternating 65537 false).flatMap PaddedFrame.bytes))
        CardsStatus.slotFive 0 ((alternating 65537 false).flatMap PaddedFrame.bytes).length
        (positions 0 (alternating 65537 false)) {}) ∧
      (∀ x ∈ manyKeys, IsPadded slotsFourFive x) ∧
      (manyKeys.flatMap PaddedFrame.bytes).length ≤ XDMA_BLOCK_SIZE ∧
      (maximalRuns (manyKeys.map PaddedFrame.frame)).length ≤ XDMA_DATA_TYPE_MAX_PKGS ∧
      (∀ r ∈ maximalRuns (manyKeys.map PaddedFrame.frame), r.length < MAX_PACKAGES_NUM) ∧
      ¬ KeepsFrames (Mem.ofList (manyKeys.flatMap PaddedFrame.bytes)) slotsFourFive 0
        (manyKeys.flatMap PaddedFrame.bytes).length (positions 0 manyKeys) {} := by
  refine ⟨⟨List.forall_mem_singleton.mpr (isPadded_replicate false _), ?_⟩,
    ⟨isPadded_alternating 65537 false, not_keepsFrames_alternating (by decide) (by decide) false⟩,
    isPadded_manyKeys, not_keepsFrames_manyKeys⟩
  rw [longBlock]
  refine not_keepsFrames_of_long ?_
  rw [List.flatMap_singleton, length_bytes_replicate]
  exact show XDMA_BLOCK_SIZE < 24 + 524286 * 8 by decide

end M57Card.Uplink
