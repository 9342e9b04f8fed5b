import M57Card.Lib.StepMachine
import M57Card.Uplink.Dispatch

/-!
# The reads of the router

The router runs through a block by a pointer, and compares what it has stepped over with the length
of the block before it looks at the next frame, but not the fields of a frame with the end of the
block. This file has the two nested loops of the router as a machine without a bound on its steps
(`step`), and what each step touches (`Point.accesses`). The machine ends in every block, with the
channel of `dispatchLoop`, and uses entries of `pdata` below `MAX_PACKAGES_NUM` only. Its reads stay
inside the block if and only if the block does not end within a header that is looked at.

## Main definitions

* `Access`, `Point`, `step`, `Point.accesses` : the router in steps, with what they touch.
* `BlockSafe`, `DispatchesSafely` : the router ends, and touches nothing outside.
* `HeadersFit`, `BlockFits` : a block does not end within a header.

## Main results

* `reaches_dispatchLoop` : the machine ends, with the channel of the loop over the runs.
* `always_indexed` : the entries of `pdata`.
* `dispatchesSafely_iff` : when the reads stay inside the blocks.
-/

namespace M57Card.Uplink

open M57 StepMachine

/-! ### The router in steps -/

/-- What the router touches: bytes of the data, or an entry of `pdata`. -/
inductive Access where
  | read (addr size : ℕ)
  | pdata (index : ℕ)
  deriving DecidableEq

/-- Where the router is in a block: at a call of the scan, at the head of the loop of the scan, or
behind the block. -/
inductive Point where
  | call (offset counter : ℕ) (u : Channel)
  | scan (offset counter : ℕ) (u : Channel) (s : Scan)
  | over (u : Channel)

section Machine

variable (m : Mem) (cards : CardsStatus) (header len : ℕ)

/-- The end of `_xdma_of_match_pkgs`, behind its loop. -/
def closeScan (offp : ℕ) (st : UplinkStat) (r : MatchResult) : MatchResult × UplinkStat :=
  let r' := if r.errCode ∨ len - offp ≤ r.sumLen then { r with readOver := true } else r
  let st := if r.errCode then { st with routeErrPkgs := st.routeErrPkgs + 1 } else st
  let st := if 0 < r.pos ∧ r.pos < MAX_PACKAGES_NUM then
      { st with forwardPkgs := st.forwardPkgs + r.pos }
    else st
  (r', st)

/-- The loop over the runs, behind the call of the scan. -/
def afterCall (offset counter : ℕ) (u : Channel) (res : MatchResult × UplinkStat) : Point :=
  let r := res.1
  let u := { u with stat := res.2 }
  if len < r.sumLen ∨ XDMA_BLOCK_SIZE < r.sumLen then
    .over u
  else
    let u := if 0 < r.sumLen then xdmaLoadDispBuffer u (header + offset) r.sumLen r.sub else u
    if len < offset + r.sumLen then .over u
    else if r.readOver ∨ r.sumLen = 0 then .over u
    else if XDMA_DATA_TYPE_MAX_PKGS ≤ counter + 1 then .over u
    else if offset + r.sumLen < len then .call (offset + r.sumLen) (counter + 1) u
    else .over u

/-- The loop of the scan is left with `r`. -/
def leaveScan (offset counter : ℕ) (u : Channel) (r : MatchResult) : Point :=
  afterCall header len offset counter u (closeScan len offset u.stat r)

/-- The scan at its loop condition. -/
def checkScan (offset counter : ℕ) (u : Channel) (s : Scan) : Point :=
  if s.sumLen < len - offset then .scan offset counter u s
  else leaveScan header len offset counter u { sumLen := s.sumLen, pos := s.pos, sub := s.sub }

/-- One step of the router: the start of a call of the scan, or one iteration of its loop. -/
def step : Point → Point
  | .over u => .over u
  | .call offset counter u =>
      if len ≤ offset ∨ XDMA_BLOCK_SIZE < len then
        afterCall header len offset counter u
          ({ sumLen := 0, pos := 0, sub := {}, readOver := true }, u.stat)
      else .scan offset counter u {}
  | .scan offset counter u s =>
      match matchIter m cards (header + offset) len offset s with
      | .inr r => leaveScan header len offset counter u r
      | .inl s' => checkScan header len offset counter u s'

/-! ### What a step touches -/

/-- The reads of `_xdma_find_next_header`, with at most `n` candidates from `p` on. -/
def nextHeaderReads : ℕ → ℕ → List Access
  | 0, _ => []
  | n + 1, p => .read p 2 :: if IsSync m p then [] else nextHeaderReads n (p + 8)

/-- What `matchFrame` touches of the frame at `ptr`; a field that is read again is listed once. -/
def frameAccesses (data : ℕ) (s : Scan) : List Access :=
  let ptr := data + s.sumLen
  let sub := frameSub m ptr
  .pdata s.pos :: .read (ptr + 4) 2 ::
    if 2048 < frameLen m ptr then []
    else .read (ptr + 10) 2 ::
      if s.pos = 0 then
        if cards.isValidChipid sub.chipId = false then []
        else [.read (ptr + 18) 2, .read (ptr + 3) 1, .read (ptr + 20) 2]
      else if s.sub.chipId ≠ sub.chipId then []
      else .read (ptr + 18) 2 ::
        if s.sub.funcId ≠ sub.funcId then [] else [.read (ptr + 20) 2]

/-- What one iteration of the scan touches. -/
def iterAccesses (data offp : ℕ) (s : Scan) : List Access :=
  .read (data + s.sumLen) 2 ::
    if IsSync m (data + s.sumLen) then
      frameAccesses m cards data s
    else if s.sumLen ≠ 0 ∧ offp ≤ len ∧ s.sumLen < len - offp then
      nextHeaderReads m ((len - offp - s.sumLen + 7) / 8) (data + s.sumLen) ++
        match xdmaFindNextHeader m (data + s.sumLen) (len - offp - s.sumLen) with
        | some skip =>
            if len < s.sumLen + skip + offp then []
            else frameAccesses m cards data { s with sumLen := s.sumLen + skip }
        | none => []
    else []

/-- What the step at a point touches. -/
def Point.accesses : Point → List Access
  | .scan offset _ _ s => iterAccesses m cards len (header + offset) offset s
  | _ => []

end Machine

/-- The router ends with the block, and touches nothing outside of it and of `pdata`. -/
structure BlockSafe (m : Mem) (cards : CardsStatus) (header len : ℕ) (u : Channel) : Prop where
  terminates : Terminates (step m cards header len) (fun p => ∃ u', p = .over u') (.call 0 0 u)
  indexed : Always (step m cards header len)
    (fun p => ∀ i, .pdata i ∈ p.accesses m cards header len → i < MAX_PACKAGES_NUM) (.call 0 0 u)
  inside : Always (step m cards header len)
    (fun p => ∀ a n, .read a n ∈ p.accesses m cards header len →
      header ≤ a ∧ a + n ≤ header + len) (.call 0 0 u)

/-- The router ends with each block of a call, and touches nothing outside of the block and of
`pdata`. -/
def DispatchesSafely (m : Mem) (cards : CardsStatus) (blocks : List (ℕ × ℕ)) (u : Channel) : Prop :=
  ∀ pre b post, blocks = pre ++ b :: post →
    BlockSafe m cards b.1 b.2 (xdmaDataDispatcherBuffer m cards pre u)

/-! ### The machine ends -/

section Ends

variable {m : Mem} {cards : CardsStatus} {header len : ℕ}

theorem xdmaOfMatchPkgs_eq_closeScan (data offp : ℕ) (st : UplinkStat) :
    xdmaOfMatchPkgs m cards data len offp st =
      if len ≤ offp ∨ XDMA_BLOCK_SIZE < len then
        ({ sumLen := 0, pos := 0, sub := {}, readOver := true }, st)
      else closeScan len offp st (matchLoop m cards data len offp MAX_PACKAGES_NUM {}) := rfl

/-- An iteration that goes on has counted one more frame. -/
theorem pos_of_countFrame {data : ℕ} {s s' : Scan} (h : countFrame m data s = .inl s') :
    s'.pos = s.pos + 1 ∧ s'.pos < MAX_PACKAGES_NUM := by
  rw [countFrame] at h
  split_ifs at h with hmax
  obtain rfl := Sum.inl.inj h
  exact ⟨rfl, not_le.mp hmax⟩

theorem pos_of_matchFrame {data : ℕ} {s s' : Scan} (h : matchFrame m cards data s = .inl s') :
    s'.pos = s.pos + 1 ∧ s'.pos < MAX_PACKAGES_NUM := by
  rw [matchFrame] at h
  split_ifs at h with hlong hpos hvalid hdiff hvalid
  · have hcount := pos_of_countFrame h
    exact hcount
  · exact pos_of_countFrame h

theorem pos_of_matchIter {data offp : ℕ} {s s' : Scan}
    (h : matchIter m cards data len offp s = .inl s') :
    s'.pos = s.pos + 1 ∧ s'.pos < MAX_PACKAGES_NUM := by
  rw [matchIter] at h
  split_ifs at h with hsync hzero hoff heq hlt
  · exact pos_of_matchFrame h
  · cases hfind : xdmaFindNextHeader m (data + s.sumLen) (len - offp - s.sumLen) with
    | none =>
      rw [hfind] at h
      cases h
    | some skip =>
      rw [hfind] at h
      dsimp only at h
      split_ifs at h with hout
      have hframe := pos_of_matchFrame h
      exact hframe

/-- The loop of the scan ends, with what `matchLoop` gives back. -/
theorem reaches_matchLoop (offset counter : ℕ) (u : Channel) {n : ℕ} {s : Scan}
    (hn : s.pos + n = MAX_PACKAGES_NUM) (hpos : s.pos < MAX_PACKAGES_NUM) :
    Reaches (step m cards header len) (.scan offset counter u s)
      (leaveScan header len offset counter u
        (matchLoop m cards (header + offset) len offset n s)) := by
  induction n generalizing s with
  | zero => omega
  | succ n ih =>
    rw [matchLoop]
    cases hiter : matchIter m cards (header + offset) len offset s with
    | inr r =>
      refine .single ?_
      rw [step, hiter]
    | inl s' =>
      obtain ⟨hsucc, hmax⟩ := pos_of_matchIter hiter
      have hstep : step m cards header len (.scan offset counter u s) =
          checkScan header len offset counter u s' := by
        rw [step, hiter]
      dsimp only
      rw [checkScan] at hstep
      split_ifs at hstep ⊢ with hmore
      · exact .head hstep (ih (by omega) hmax)
      · exact .single hstep

/-- A call of the scan ends. -/
theorem reaches_afterCall (offset counter : ℕ) (u : Channel) :
    Reaches (step m cards header len) (.call offset counter u)
      (afterCall header len offset counter u
        (xdmaOfMatchPkgs m cards (header + offset) len offset u.stat)) := by
  rw [xdmaOfMatchPkgs_eq_closeScan]
  by_cases hguard : len ≤ offset ∨ XDMA_BLOCK_SIZE < len
  · refine .single ?_
    rw [step, if_pos hguard, if_pos hguard]
  · have hstep : step m cards header len (.call offset counter u) = .scan offset counter u {} := by
      rw [step, if_neg hguard]
    rw [if_neg hguard]
    exact .head hstep (reaches_matchLoop offset counter u (Nat.zero_add _) (by decide))

/-- **The router ends**, with the channel of the loop over the runs. -/
theorem reaches_dispatchLoop {n : ℕ} (offset counter : ℕ) (u : Channel)
    (hn : counter + (n + 1) = XDMA_DATA_TYPE_MAX_PKGS) :
    Reaches (step m cards header len) (.call offset counter u)
      (.over (dispatchLoop m cards header len (n + 1) offset u)) := by
  induction n generalizing offset counter u with
  | zero =>
    have hlast : XDMA_DATA_TYPE_MAX_PKGS ≤ counter + 1 := by omega
    refine (reaches_afterCall offset counter u).trans ⟨0, ?_⟩
    rw [dispatchLoop]
    obtain ⟨r, stat⟩ := xdmaOfMatchPkgs m cards (header + offset) len offset u.stat
    simp only [afterCall, hlast, if_true, dispatchLoop, ite_self, Function.iterate_zero, id]
    split_ifs <;> rfl
  | succ n ih =>
    have hmore : ¬ XDMA_DATA_TYPE_MAX_PKGS ≤ counter + 1 := by omega
    refine (reaches_afterCall offset counter u).trans ?_
    rw [dispatchLoop]
    obtain ⟨r, stat⟩ := xdmaOfMatchPkgs m cards (header + offset) len offset u.stat
    simp only [afterCall, hmore, if_false]
    generalize (if 0 < r.sumLen then _ else _ : Channel) = u'
    by_cases hlong : len < r.sumLen ∨ XDMA_BLOCK_SIZE < r.sumLen
    · rw [if_pos hlong, if_pos hlong]
      exact ⟨0, rfl⟩
    · rw [if_neg hlong, if_neg hlong]
      split_ifs with hend hover hrest
      · exact ⟨0, rfl⟩
      · exact ⟨0, rfl⟩
      · exact ih (offset + r.sumLen) (counter + 1) u' (by omega)
      · exact ⟨0, rfl⟩

end Ends

/-! ### The entries of `pdata` -/

section Indexed

variable {m : Mem} {cards : CardsStatus} {header len : ℕ}

/-- The reads of the search for a header: up to the first sync word. -/
theorem mem_nextHeaderReads {n p : ℕ} {x : Access} :
    x ∈ nextHeaderReads m n p ↔
      ∃ i < n, x = .read (p + 8 * i) 2 ∧ ∀ j < i, ¬ IsSync m (p + 8 * j) := by
  have haddr (p i : ℕ) : p + 8 + 8 * i = p + 8 * (i + 1) := by omega
  induction n generalizing p with
  | zero =>
    refine ⟨fun h => absurd h List.not_mem_nil, ?_⟩
    rintro ⟨i, hi, -⟩
    exact absurd hi (Nat.not_lt_zero i)
  | succ n ih =>
    rw [nextHeaderReads, List.mem_cons]
    constructor
    · rintro (rfl | hx)
      · exact ⟨0, Nat.succ_pos n, rfl, fun j hj => absurd hj (Nat.not_lt_zero j)⟩
      · split_ifs at hx with hsync
        · cases hx
        · obtain ⟨i, hi, rfl, hbefore⟩ := ih.mp hx
          refine ⟨i + 1, Nat.succ_lt_succ hi, by rw [haddr], fun j hj => ?_⟩
          cases j with
          | zero => exact hsync
          | succ j => exact haddr p j ▸ hbefore j (Nat.lt_of_succ_lt_succ hj)
    · rintro ⟨i, hi, rfl, hbefore⟩
      cases i with
      | zero => exact .inl rfl
      | succ i =>
        have hsync : ¬ IsSync m p := hbefore 0 (Nat.succ_pos i)
        refine .inr ?_
        rw [if_neg hsync]
        refine ih.mpr ⟨i, Nat.lt_of_succ_lt_succ hi, by rw [haddr], fun j hj => ?_⟩
        rw [haddr]
        exact hbefore (j + 1) (Nat.succ_lt_succ hj)

theorem eq_pos_of_mem_frameAccesses {data i : ℕ} {s : Scan}
    (h : .pdata i ∈ frameAccesses m cards data s) : i = s.pos := by
  rw [frameAccesses] at h
  split_ifs at h <;> simpa using h

theorem eq_pos_of_mem_iterAccesses {data offp i : ℕ} {s : Scan}
    (h : .pdata i ∈ iterAccesses m cards len data offp s) : i = s.pos := by
  rw [iterAccesses, List.mem_cons] at h
  replace h := h.resolve_left Access.noConfusion
  split_ifs at h with hsync hfind
  · exact eq_pos_of_mem_frameAccesses h
  · rcases List.mem_append.mp h with h | h
    · obtain ⟨j, -, hread, -⟩ := mem_nextHeaderReads.mp h
      cases hread
    · cases hskip : xdmaFindNextHeader m (data + s.sumLen) (len - offp - s.sumLen) with
      | none =>
        rw [hskip] at h
        cases h
      | some skip =>
        rw [hskip] at h
        dsimp only at h
        split_ifs at h with hout
        · cases h
        · have hframe := eq_pos_of_mem_frameAccesses h
          exact hframe
  · cases h

/-- Fewer than `MAX_PACKAGES_NUM` frames at the head of the scan. -/
def Point.HasRoom (p : Point) : Prop :=
  ∀ offset counter u s, p = .scan offset counter u s → s.pos < MAX_PACKAGES_NUM

theorem hasRoom_afterCall (offset counter : ℕ) (u : Channel) (res : MatchResult × UplinkStat) :
    (afterCall header len offset counter u res).HasRoom := by
  rintro offset' counter' u' s h
  rw [afterCall] at h
  dsimp only at h
  split_ifs at h

theorem hasRoom_step {p : Point} (h : p.HasRoom) : (step m cards header len p).HasRoom := by
  cases p with
  | call offset counter u =>
    rw [step]
    split_ifs with hguard
    · exact hasRoom_afterCall _ _ _ _
    · rintro offset' counter' u' s hs
      cases hs
      exact show 0 < MAX_PACKAGES_NUM by decide
  | scan offset counter u s =>
    rw [step]
    cases hiter : matchIter m cards (header + offset) len offset s with
    | inr r => exact hasRoom_afterCall _ _ _ _
    | inl s' =>
      dsimp only
      rw [checkScan]
      split_ifs with hmore
      · rintro offset' counter' u' s'' hs
        cases hs
        exact (pos_of_matchIter hiter).2
      · exact hasRoom_afterCall _ _ _ _
  | _ => exact h

/-- **The entries of `pdata`** that the router uses are below `MAX_PACKAGES_NUM`. -/
theorem always_indexed (u : Channel) :
    Always (step m cards header len)
      (fun p => ∀ i, .pdata i ∈ p.accesses m cards header len → i < MAX_PACKAGES_NUM)
      (.call 0 0 u) := by
  refine always_of_invariant (I := Point.HasRoom) (fun p => hasRoom_step) (fun p hp i hi => ?_)
    (fun offset counter u' s h => nomatch h)
  cases p with
  | scan offset counter u' s =>
    rw [eq_pos_of_mem_iterAccesses hi]
    exact hp _ _ _ _ rfl
  | _ => cases hi

end Indexed

/-! ### The reads and the layout of the block -/

/-- The access is an entry of `pdata`, or lies in a range of addresses. -/
def Access.Inside (lo hi : ℕ) : Access → Prop
  | .read a n => lo ≤ a ∧ a + n ≤ hi
  | .pdata _ => True

section Fits

variable (m : Mem) (cards : CardsStatus) (lim : ℕ)

/-- The bytes of a header behind a frame of a run, up to the field that decides about it. -/
def compared (sub : NetSub) (q : ℕ) : ℕ :=
  if 2048 < frameLen m q then 6
  else if sub.chipId ≠ (frameSub m q).chipId then 12
  else if sub.funcId ≠ (frameSub m q).funcId then 20
  else 22

/-- What follows behind a frame that ends at `e` is looked at inside the block. -/
def NextFits (sub : NetSub) (e : ℕ) : Prop :=
  match nextHeader m lim e with
  | some q => q + compared m sub q ≤ lim
  | none => (lim - e) % 8 ≠ 1

/-- The headers of a run, and what follows behind its last frame, are looked at inside the block. -/
structure HeadersFit (s : Segment) : Prop where
  frames : ∀ p ∈ s.frames, p + 22 ≤ lim
  next : NextFits m lim (frameSub m s.start) s.stop

/-- The bytes of a header at the start of a block, up to the field that decides about it. -/
def firstCompared (p : ℕ) : ℕ :=
  if ¬ IsSync m p then 2
  else if 2048 < frameLen m p then 6
  else if cards.isValidChipid (frameSub m p).chipId = false then 12
  else 22

/-- A block does not end within a header that is looked at. -/
structure BlockFits (header len : ℕ) : Prop where
  first : firstCompared m cards header ≤ len
  runs : ∀ s ∈ blockRuns m cards header len, HeadersFit m (header + len) s

end Fits

section Reads

variable {m : Mem} {cards : CardsStatus} {header len : ℕ} {lo hi : ℕ}

/-- The fields of the first frame of a run. -/
theorem inside_frameAccesses_first {data : ℕ} {s : Scan} (hlo : lo ≤ data + s.sumLen)
    (hpos : s.pos = 0) (hsync : IsSync m (data + s.sumLen)) :
    (∀ x ∈ frameAccesses m cards data s, x.Inside lo hi) ↔
      data + s.sumLen + firstCompared m cards (data + s.sumLen) ≤ hi := by
  rw [frameAccesses, firstCompared, if_neg (not_not_intro hsync)]
  split_ifs <;> simp [Access.Inside] <;> omega

/-- The fields of a further frame. -/
theorem inside_frameAccesses {data : ℕ} {s : Scan} (hlo : lo ≤ data + s.sumLen)
    (hpos : s.pos ≠ 0) :
    (∀ x ∈ frameAccesses m cards data s, x.Inside lo hi) ↔
      data + s.sumLen + compared m s.sub (data + s.sumLen) ≤ hi := by
  rw [frameAccesses, compared]
  split_ifs <;> simp [Access.Inside] <;> omega

theorem six_le_compared (sub : NetSub) (q : ℕ) : 6 ≤ compared m sub q := by
  rw [compared]
  split_ifs <;> decide

/-- The search for a header that finds none, inside the block. -/
theorem inside_nextHeaderReads_of_none {lim e : ℕ} (hlo : lo ≤ e) (hlt : e < lim)
    (hnone : nextHeader m lim e = none) :
    (∀ x ∈ nextHeaderReads m ((lim - e + 7) / 8) e, x.Inside lo lim) ↔ (lim - e) % 8 ≠ 1 := by
  have hnosync := nextHeader_eq_none.mp hnone
  constructor
  · intro h hone
    have hread := h (.read (e + 8 * ((lim - e) / 8)) 2) (mem_nextHeaderReads.mpr
      ⟨(lim - e) / 8, by omega, rfl, fun j hj => hnosync j (by omega)⟩)
    have hin := hread.2
    omega
  · intro hne x hx
    obtain ⟨i, hi, rfl, -⟩ := mem_nextHeaderReads.mp hx
    exact ⟨by omega, by omega⟩

/-- The search for a header reads nothing behind the header that it finds. -/
theorem inside_nextHeaderReads_of_some {lim e q n : ℕ} (hlo : lo ≤ e)
    (hq : nextHeader m lim e = some q) (hin : q + 2 ≤ hi) :
    ∀ x ∈ nextHeaderReads m n e, x.Inside lo hi := by
  obtain ⟨j, rfl, hlt, hsync, -⟩ := nextHeader_eq_some.mp hq
  intro x hx
  obtain ⟨i, hi, rfl, hbefore⟩ := mem_nextHeaderReads.mp hx
  have hle : i ≤ j := by
    by_contra hgt
    exact hbefore j (not_le.mp hgt) hsync
  exact ⟨by omega, by omega⟩

/-- The reads of an iteration behind a frame. -/
theorem inside_iterAccesses {offp : ℕ} (hlt : offp < len) (hstart : IsSync m (header + offp))
    {s : Scan} (hs : s.sumLen < len - offp) (hpos : s.pos ≠ 0) :
    (∀ x ∈ iterAccesses m cards len (header + offp) offp s, x.Inside header (header + len)) ↔
      NextFits m (header + len) s.sub (header + offp + s.sumLen) := by
  have hlo : header ≤ header + offp + s.sumLen := by omega
  have hhi : header + offp + s.sumLen < header + len := by omega
  have hrange : header + len - (header + offp + s.sumLen) = len - offp - s.sumLen := by omega
  have hread : (Access.read (header + offp + s.sumLen) 2).Inside header (header + len) ↔
      header + offp + s.sumLen + 2 ≤ header + len := ⟨And.right, fun h => ⟨hlo, h⟩⟩
  rw [iterAccesses, List.forall_mem_cons, hread, NextFits]
  by_cases hsync : IsSync m (header + offp + s.sumLen)
  · have hsix := six_le_compared (m := m) s.sub (header + offp + s.sumLen)
    rw [if_pos hsync, inside_frameAccesses hlo hpos, nextHeader_of_isSync hsync hhi]
    dsimp only
    omega
  · have hne : s.sumLen ≠ 0 := by
      rintro hzero
      rw [hzero] at hsync
      exact hsync hstart
    rw [if_neg hsync, if_pos ⟨hne, hlt.le, hs⟩, List.forall_mem_append]
    cases hq : nextHeader m (header + len) (header + offp + s.sumLen) with
    | none =>
      have hprobes := inside_nextHeaderReads_of_none hlo hhi hq
      rw [nextHeader, hrange, Option.map_eq_none_iff] at hq
      rw [hrange] at hprobes
      rw [hq, hprobes]
      dsimp only
      rw [hrange]
      simp only [List.not_mem_nil, false_imp_iff, imp_true_iff, and_true]
      omega
    | some q =>
      have hprobes (hin : q + 2 ≤ header + len) := inside_nextHeaderReads_of_some
        (n := (len - offp - s.sumLen + 7) / 8) hlo hq hin
      have hle := nextHeader_le hq
      have hsix := six_le_compared (m := m) s.sub q
      rw [nextHeader, hrange, Option.map_eq_some_iff] at hq
      obtain ⟨skip, hskip, rfl⟩ := hq
      have hfit : ¬ len < s.sumLen + skip + offp := by omega
      have hframe : (∀ x ∈ frameAccesses m cards (header + offp)
            { s with sumLen := s.sumLen + skip }, x.Inside header (header + len)) ↔
          header + offp + (s.sumLen + skip) +
            compared m s.sub (header + offp + (s.sumLen + skip)) ≤ header + len :=
        inside_frameAccesses (by dsimp only; omega) hpos
      rw [← Nat.add_assoc] at hframe
      rw [hskip]
      dsimp only
      rw [if_neg hfit, hframe]
      constructor
      · rintro ⟨-, -, h⟩
        exact h
      · intro h
        exact ⟨by omega, hprobes (by omega), h⟩

end Reads

/-! ### Runs that are read inside the block -/

section Runs

variable {m : Mem} {cards : CardsStatus} {header len offp counter : ℕ} {u : Channel}

/-- The reads from a point on lie inside the block. -/
def ReadsInside (m : Mem) (cards : CardsStatus) (header len : ℕ) (p : Point) : Prop :=
  Always (step m cards header len)
    (fun p => ∀ x ∈ p.accesses m cards header len, x.Inside header (header + len)) p

theorem readsInside_over : ReadsInside m cards header len (.over u) :=
  always_of_fixed rfl fun _ hx => absurd hx List.not_mem_nil

theorem readsInside_call :
    ReadsInside m cards header len (.call offp counter u) ↔
      ReadsInside m cards header len (step m cards header len (.call offp counter u)) := by
  rw [ReadsInside, always_iff]
  exact and_iff_right fun _ hx => absurd hx List.not_mem_nil

/-- Where the scan goes from its loop condition behind a frame. -/
def nextPoint (m : Mem) (cards : CardsStatus) (header len offp counter : ℕ) (u : Channel)
    (s : Scan) : Point :=
  match nextFrame m cards (header + len) s.sub (header + offp + s.sumLen) with
  | .inl ending => leaveScan header len offp counter u
      (Tail.result ⟨[], header + offp + s.sumLen, ending⟩ (header + offp) s.pos s.sub)
  | .inr q =>
      if MAX_PACKAGES_NUM ≤ s.pos + 1 then
        leaveScan header len offp counter u
          { sumLen := 0, pos := s.pos + 1, sub := s.sub, errCode := true }
      else
        checkScan header len offp counter u
          { s with pos := s.pos + 1, sumLen := q + frameLen m q - (header + offp) }

/-- One iteration of the scan behind a frame. -/
theorem step_scan (hlt : offp < len) (hstart : IsSync m (header + offp)) {s : Scan}
    (hpos : s.pos ≠ 0) (hs : s.sumLen < len - offp) :
    step m cards header len (.scan offp counter u s) =
      nextPoint m cards header len offp counter u s := by
  rw [step, matchIter_eq hlt hstart hs, nextPoint]
  rcases nextFrame_cases m cards (header + len) s.sub (header + offp + s.sumLen) with
    ⟨hle, heq⟩ | ⟨hin, hnone, heq⟩ | ⟨q, hin, hq, hcases⟩
  · omega
  · rw [heq, hnone]
    dsimp only [Tail.result]
    rw [Nat.add_sub_cancel_left]
    rfl
  · have hle := nextHeader_le hq
    rw [hq]
    dsimp only
    rw [matchFrame_eq (by omega : header + offp ≤ q) hpos]
    rcases hcases with ⟨hlong, heq⟩ | ⟨hlen, ⟨hsame, heq⟩ | ⟨hdiff, ⟨hvalid, heq⟩ | ⟨hvalid, heq⟩⟩⟩
    · rw [heq, if_pos hlong]
      rfl
    · rw [heq, if_neg (not_lt.mpr hlen), if_pos hsame]
      dsimp only
      split_ifs with hmax
      · rfl
      · rfl
    · rw [heq, if_neg (not_lt.mpr hlen), if_neg hdiff, if_pos hvalid]
      rfl
    · rw [heq, if_neg (not_lt.mpr hlen), if_neg hdiff, if_neg (Bool.eq_false_iff.mp hvalid)]
      rfl

/-- The reads from the loop condition of the scan on, behind a frame. -/
theorem readsInside_checkScan_iff (hlt : offp < len) (hstart : IsSync m (header + offp))
    {s : Scan} (hpos : s.pos ≠ 0) :
    ReadsInside m cards header len (checkScan header len offp counter u s) ↔
      NextFits m (header + len) s.sub (header + offp + s.sumLen) ∧
        ReadsInside m cards header len (nextPoint m cards header len offp counter u s) := by
  by_cases hs : s.sumLen < len - offp
  · rw [checkScan, if_pos hs, ReadsInside, always_iff, step_scan hlt hstart hpos hs]
    exact and_congr_left fun _ => inside_iterAccesses hlt hstart hs hpos
  · have hpassed : header + len ≤ header + offp + s.sumLen := by omega
    have hfits : NextFits m (header + len) s.sub (header + offp + s.sumLen) := by
      have hnone : nextHeader m (header + len) (header + offp + s.sumLen) = none :=
        nextHeader_eq_none.mpr fun i hi => absurd hi (by omega)
      rw [NextFits, hnone]
      dsimp only
      omega
    have hnext : nextPoint m cards header len offp counter u s =
        checkScan header len offp counter u s := by
      rw [nextPoint, nextFrame, if_pos hpassed, checkScan, if_neg hs]
      dsimp only [Tail.result]
      rw [Nat.add_sub_cancel_left]
      rfl
    rw [hnext, and_iff_right hfits]

/-- The reads of the scan behind a frame: those of the rest of the run, and those behind it. -/
theorem readsInside_checkScan (hlt : offp < len) (hstart : IsSync m (header + offp)) {n : ℕ}
    {s : Scan} (hpos : s.pos ≠ 0) (hn : s.pos + n + 1 = MAX_PACKAGES_NUM) :
    let t := tailFrom m cards (header + len) s.sub n (header + offp + s.sumLen)
    ReadsInside m cards header len (checkScan header len offp counter u s) ↔
      ((∀ p ∈ t.frames, p + 22 ≤ header + len) ∧ NextFits m (header + len) s.sub t.stop) ∧
        ReadsInside m cards header len
          (leaveScan header len offp counter u (t.result (header + offp) s.pos s.sub)) := by
  dsimp only
  induction n generalizing s with
  | zero =>
    rw [readsInside_checkScan_iff hlt hstart hpos, nextPoint]
    cases h : nextFrame m cards (header + len) s.sub (header + offp + s.sumLen) with
    | inl ending =>
      rw [tailFrom_of_inl h]
      simp only [List.not_mem_nil, false_imp_iff, imp_true_iff, true_and]
    | inr q =>
      rw [tailFrom_zero_of_inr h]
      simp only [List.not_mem_nil, false_imp_iff, imp_true_iff, true_and, hn.ge, if_true]
      rfl
  | succ n ih =>
    rw [readsInside_checkScan_iff hlt hstart hpos, nextPoint]
    cases h : nextFrame m cards (header + len) s.sub (header + offp + s.sumLen) with
    | inl ending =>
      rw [tailFrom_of_inl h]
      simp only [List.not_mem_nil, false_imp_iff, imp_true_iff, true_and]
    | inr q =>
      obtain ⟨-, hq, hlen, hsame⟩ := nextFrame_eq_inr h
      have hle := nextHeader_le hq
      have hmore : ¬ MAX_PACKAGES_NUM ≤ s.pos + 1 := by omega
      have haddr : header + offp + (q + frameLen m q - (header + offp)) = q + frameLen m q := by
        omega
      have hfits : NextFits m (header + len) s.sub (header + offp + s.sumLen) ↔
          q + 22 ≤ header + len := by
        rw [NextFits, hq]
        dsimp only
        rw [compared, if_neg (not_lt.mpr hlen), if_neg (not_not_intro hsame.1),
          if_neg (not_not_intro hsame.2.1)]
      rw [tailFrom_succ_of_inr h]
      dsimp only
      rw [if_neg hmore, ih (Nat.succ_ne_zero _) (by dsimp only; omega), hfits,
        List.forall_mem_cons]
      dsimp only
      rw [haddr, Tail.result_cons, and_assoc, and_assoc, and_assoc]

/-- The reads of the first iteration of a scan. -/
theorem inside_first :
    (∀ x ∈ Point.accesses m cards header len (.scan offp counter u {}),
        x.Inside header (header + len)) ↔
      offp + firstCompared m cards (header + offp) ≤ len := by
  have hread : (Access.read (header + offp) 2).Inside header (header + len) ↔ offp + 2 ≤ len := by
    rw [Access.Inside]
    omega
  rw [Point.accesses, iterAccesses, List.forall_mem_cons]
  dsimp only
  rw [Nat.add_zero, hread]
  by_cases hsync : IsSync m (header + offp)
  · have hframe : (∀ x ∈ frameAccesses m cards (header + offp) {},
          x.Inside header (header + len)) ↔
        header + offp + firstCompared m cards (header + offp) ≤ header + len :=
      inside_frameAccesses_first (Nat.le_add_right header offp) rfl hsync
    rw [if_pos hsync, hframe]
    have htwo : 2 ≤ firstCompared m cards (header + offp) := by
      rw [firstCompared]
      split_ifs <;> decide
    omega
  · rw [if_neg hsync, if_neg (fun h => h.1 rfl), firstCompared, if_pos hsync]
    exact and_iff_left fun x hx => absurd hx List.not_mem_nil

theorem step_call (hblock : len ≤ XDMA_BLOCK_SIZE) (hlt : offp < len) :
    step m cards header len (.call offp counter u) = .scan offp counter u {} := by
  have hguard : ¬ (len ≤ offp ∨ XDMA_BLOCK_SIZE < len) := by omega
  rw [step, if_neg hguard]

theorem firstCompared_of_isStart {p : ℕ} (h : IsStart m cards p) :
    firstCompared m cards p = 22 := by
  rw [firstCompared, if_neg (not_not_intro h.1), if_neg (not_lt.mpr h.2.1), if_neg]
  rw [h.2.2]
  exact Bool.false_ne_true.symm

/-- The reads of a call of the scan at the start of a run: those of the run, and those behind the
call. -/
theorem readsInside_call_of_isStart (hblock : len ≤ XDMA_BLOCK_SIZE) (hlt : offp < len)
    (hstart : IsStart m cards (header + offp)) :
    ReadsInside m cards header len (.call offp counter u) ↔
      HeadersFit m (header + len) (segmentAt m cards (header + len) (header + offp)) ∧
        ReadsInside m cards header len (afterCall header len offp counter u
          (xdmaOfMatchPkgs m cards (header + offp) len offp u.stat)) := by
  obtain ⟨n, hn, hmax⟩ : ∃ n, MAX_PACKAGES_NUM - 2 = n ∧ 1 + n + 1 = MAX_PACKAGES_NUM :=
    ⟨_, rfl, by decide⟩
  have hguard : ¬ (len ≤ offp ∨ XDMA_BLOCK_SIZE < len) := by omega
  have hscan : step m cards header len (.scan offp counter u {}) =
      checkScan header len offp counter u
        { pos := 1, sumLen := frameLen m (header + offp), sub := frameSub m (header + offp) } := by
    rw [step, matchIter_of_isStart hstart]
  have hrest := @readsInside_checkScan m cards header len offp counter u hlt hstart.1 n
    { pos := 1, sumLen := frameLen m (header + offp), sub := frameSub m (header + offp) }
    Nat.one_ne_zero hmax
  have hfits : HeadersFit m (header + len) (segmentAt m cards (header + len) (header + offp)) ↔
      header + offp + 22 ≤ header + len ∧
        (∀ p ∈ (tailFrom m cards (header + len) (frameSub m (header + offp)) n
          (header + offp + frameLen m (header + offp))).frames, p + 22 ≤ header + len) ∧
        NextFits m (header + len) (frameSub m (header + offp))
          (tailFrom m cards (header + len) (frameSub m (header + offp)) n
            (header + offp + frameLen m (header + offp))).stop := by
    rw [← hn]
    constructor
    · intro h
      obtain ⟨hfirst, hlater⟩ := List.forall_mem_cons.mp h.frames
      exact ⟨hfirst, hlater, h.next⟩
    · rintro ⟨hfirst, hlater, hnext⟩
      exact ⟨List.forall_mem_cons.mpr ⟨hfirst, hlater⟩, hnext⟩
  dsimp only at hrest
  rw [readsInside_call, step_call hblock hlt, ReadsInside, always_iff, inside_first,
    firstCompared_of_isStart hstart, hscan, xdmaOfMatchPkgs_eq_closeScan, if_neg hguard,
    matchLoop_of_isStart hlt hstart, hn, hfits, and_assoc]
  refine and_congr (by omega) ?_
  exact hrest

/-- Behind a call that is not followed by another one, nothing is read. -/
theorem readsInside_afterCall_of_done {res : MatchResult × UplinkStat}
    (h : res.1.readOver = true ∨ res.1.sumLen = 0 ∨ XDMA_DATA_TYPE_MAX_PKGS ≤ counter + 1) :
    ReadsInside m cards header len (afterCall header len offp counter u res) := by
  have hover : ∃ u', afterCall header len offp counter u res = .over u' := by
    rw [afterCall]
    dsimp only
    split_ifs
    all_goals first | exact ⟨_, rfl⟩ | tauto
  obtain ⟨u', heq⟩ := hover
  rw [heq]
  exact readsInside_over

/-- The reads of a call of the scan where no run starts. -/
theorem readsInside_call_of_not_isStart (hblock : len ≤ XDMA_BLOCK_SIZE) (hlt : offp < len)
    (hstart : ¬ IsStart m cards (header + offp)) :
    ReadsInside m cards header len (.call offp counter u) ↔
      offp + firstCompared m cards (header + offp) ≤ len := by
  have hscan : step m cards header len (.scan offp counter u {}) =
      leaveScan header len offp counter u
        { sumLen := 0, pos := 0, sub := {}, errCode := decide (IsSync m (header + offp)) } := by
    rw [step, matchIter_of_not_isStart hstart]
  rw [readsInside_call, step_call hblock hlt, ReadsInside, always_iff, inside_first, hscan]
  refine and_iff_left (readsInside_afterCall_of_done (.inr (.inl ?_)))
  rw [closeScan]
  split_ifs <;> rfl

/-- Where the router goes behind a run that another one follows. -/
theorem afterCall_of_kept {r : MatchResult} {st : UplinkStat} (hpos : 0 < r.sumLen)
    (hblock : len ≤ XDMA_BLOCK_SIZE) (hin : offp + r.sumLen < len) (hover : r.readOver = false)
    (hmax : ¬ XDMA_DATA_TYPE_MAX_PKGS ≤ counter + 1) :
    ∃ u', afterCall header len offp counter u (r, st) =
      .call (offp + r.sumLen) (counter + 1) u' := by
  have hlong : ¬ (len < r.sumLen ∨ XDMA_BLOCK_SIZE < r.sumLen) := by omega
  have hend : ¬ len < offp + r.sumLen := by omega
  have hdone : ¬ (r.readOver = true ∨ r.sumLen = 0) := by
    rw [hover]
    rintro (h | h)
    · exact Bool.false_ne_true h
    · omega
  rw [afterCall]
  dsimp only
  rw [if_neg hlong, if_neg hend, if_neg hdone, if_neg hmax, if_pos hin]
  exact ⟨_, rfl⟩

/-- The reads of a run that does not end its block: those of the run, and those of the call where
the run ends. -/
theorem readsInside_call_of_kept (hblock : len ≤ XDMA_BLOCK_SIZE) (hlt : offp < len)
    (hstart : IsStart m cards (header + offp)) (hmax : ¬ XDMA_DATA_TYPE_MAX_PKGS ≤ counter + 1)
    (hover : (segmentAt m cards (header + len) (header + offp)).readOver = false) :
    ∃ q u', q < len ∧
      header + q = (segmentAt m cards (header + len) (header + offp)).limit ∧
      (ReadsInside m cards header len (.call offp counter u) ↔
        HeadersFit m (header + len) (segmentAt m cards (header + len) (header + offp)) ∧
          ReadsInside m cards header len (.call q (counter + 1) u')) := by
  obtain ⟨⟨hpos, -⟩, hin, hlimit⟩ := kept_of_not_readOver hstart (Nat.le_add_right header offp)
    (show header + offp < header + len by omega) rfl hover
  obtain ⟨r, heq, hsize, -, hr⟩ := xdmaOfMatchPkgs_of_isStart hblock hlt hstart u.stat
  rw [← hsize] at hpos hin hlimit
  obtain ⟨u', hcall⟩ := @afterCall_of_kept header len offp counter u r
    (u.stat.count (segmentAt m cards (header + len) (header + offp)).pkgs
      (segmentAt m cards (header + len) (header + offp)).errs) hpos hblock (by omega)
    (hr.trans hover) hmax
  refine ⟨offp + r.sumLen, u', by omega, ?_, ?_⟩
  · rw [← hlimit, Nat.add_assoc]
  · rw [readsInside_call_of_isStart hblock hlt hstart, heq, hcall]

/-- Nothing is read past the block behind a run whose next header was searched for and not found. -/
theorem readsInside_gap {s : Segment} {q : ℕ} (hblock : len ≤ XDMA_BLOCK_SIZE) (hq : q < len)
    (hstop : header + q = s.stop) (hnone : nextHeader m (header + len) s.stop = none)
    (hfit : HeadersFit m (header + len) s) :
    ReadsInside m cards header len (.call q counter u) := by
  have hsync : ¬ IsSync m (header + q) := by
    rw [hstop]
    exact nextHeader_eq_none.mp hnone 0 (by omega)
  have hnostart : ¬ IsStart m cards (header + q) := fun h => hsync h.1
  have hnext := hfit.next
  rw [NextFits, hnone] at hnext
  dsimp only at hnext
  rw [readsInside_call_of_not_isStart hblock hq hnostart, firstCompared, if_pos hsync]
  omega

/-- **The reads of the runs of a block.** -/
theorem readsInside_runs (hblock : len ≤ XDMA_BLOCK_SIZE) {n : ℕ} (hlt : offp < len)
    (hstart : IsStart m cards (header + offp)) (hn : counter + (n + 1) = XDMA_DATA_TYPE_MAX_PKGS) :
    ReadsInside m cards header len (.call offp counter u) ↔
      ∀ s ∈ segments m cards (header + len) (n + 1) (header + offp),
        HeadersFit m (header + len) s := by
  have hlt' : header + offp < header + len := by omega
  induction n generalizing offp counter u with
  | zero =>
    have hmax : XDMA_DATA_TYPE_MAX_PKGS ≤ counter + 1 := by omega
    have hone : segments m cards (header + len) 1 (header + offp) =
        [segmentAt m cards (header + len) (header + offp)] := by
      rw [segments, if_pos ⟨hlt', hstart⟩]
      cases (segmentAt m cards (header + len) (header + offp)).ending <;> rfl
    rw [readsInside_call_of_isStart hblock hlt hstart, hone, List.forall_mem_singleton]
    exact and_iff_left (readsInside_afterCall_of_done (.inr (.inr hmax)))
  | succ n ih =>
    have hmax : ¬ XDMA_DATA_TYPE_MAX_PKGS ≤ counter + 1 := by omega
    have hspec := (segmentAt_spec hstart hlt').2
    have hchange := fun q => segments_of_change (q := q) hlt' hstart
    have hlast := segments_of_ne_change hlt' hstart
    have hkept := readsInside_call_of_kept (u := u) hblock hlt hstart hmax
    obtain ⟨r, heq, -, -, hover⟩ := xdmaOfMatchPkgs_of_isStart hblock hlt hstart u.stat
    have hcall : ReadsInside m cards header len (.call offp counter u) ↔ _ :=
      readsInside_call_of_isStart hblock hlt hstart
    rw [heq] at hcall
    generalize segmentAt m cards (header + len) (header + offp) = s at *
    by_cases hdone : s.readOver = true
    · have hnot (q : ℕ) : s.ending ≠ .change q := by
        rintro hend
        rw [Segment.readOver, hend] at hdone
        cases hdone
      rw [hcall, hlast hnot, List.forall_mem_singleton]
      exact and_iff_left (readsInside_afterCall_of_done (.inl (hover.trans hdone)))
    · obtain ⟨offp', u', hlt₁, hlimit, hiff⟩ := hkept (Bool.eq_false_iff.mpr hdone)
      rw [hiff]
      cases hend : s.ending with
      | gap =>
        simp only [hend] at hspec
        rw [Segment.limit, hend] at hlimit
        rw [hlast (fun q hq => by rw [hend] at hq; cases hq), List.forall_mem_singleton]
        exact and_iff_left_of_imp (readsInside_gap hblock hlt₁ hlimit hspec.2.2)
      | change q =>
        simp only [hend] at hspec
        rw [Segment.limit, hend] at hlimit
        dsimp only at hlimit
        obtain ⟨-, -, -, hstart'⟩ := hspec
        rw [hchange q hend, List.forall_mem_cons]
        refine and_congr_right fun _ => ?_
        rw [← hlimit] at hstart' ⊢
        exact ih hlt₁ hstart' (by omega) (by omega)
      | _ =>
        rw [Segment.readOver, hend] at hdone
        exact absurd rfl hdone

end Runs

/-! ### Blocks and calls -/

section Calls

variable (m : Mem) (cards : CardsStatus) {header len : ℕ} (u : Channel)

/-- The router ends in every block. -/
theorem terminates_step :
    Terminates (step m cards header len) (fun p => ∃ u', p = .over u') (.call 0 0 u) := by
  obtain ⟨n, hn⟩ : ∃ n, 0 + (n + 1) = XDMA_DATA_TYPE_MAX_PKGS := ⟨65535, by decide⟩
  obtain ⟨k, hk⟩ := @reaches_dispatchLoop m cards header len n 0 0 u hn
  exact ⟨k, _, hk⟩

variable {m cards u}

/-- The reads in a block. -/
theorem readsInside_block :
    ReadsInside m cards header len (.call 0 0 u) ↔
      (0 < len → len ≤ XDMA_BLOCK_SIZE → BlockFits m cards header len) := by
  by_cases hguard : 0 < len ∧ len ≤ XDMA_BLOCK_SIZE
  · obtain ⟨hlt, hblock⟩ := hguard
    have hruns : blockRuns m cards header len =
        segments m cards (header + len) XDMA_DATA_TYPE_MAX_PKGS (header + 0) :=
      if_neg (not_lt.mpr hblock)
    by_cases hstart : IsStart m cards (header + 0)
    · obtain ⟨n, hn⟩ : ∃ n, 0 + (n + 1) = XDMA_DATA_TYPE_MAX_PKGS := ⟨65535, by decide⟩
      have hread := readsInside_runs (u := u) hblock hlt hstart hn
      rw [Nat.zero_add] at hn
      rw [hn, ← hruns] at hread
      rw [hread]
      constructor
      · intro h _ _
        have hfirst : segmentAt m cards (header + len) header ∈ blockRuns m cards header len := by
          rw [hruns, ← hn, segments, if_pos ⟨by omega, hstart⟩]
          exact List.mem_cons_self
        have hin := (h _ hfirst).frames header List.mem_cons_self
        have hfull : firstCompared m cards header = 22 := firstCompared_of_isStart hstart
        exact ⟨by omega, h⟩
      · intro h
        exact (h hlt hblock).runs
    · have hnil : blockRuns m cards header len = [] := by
        rw [hruns]
        exact segments_of_not_isStart (fun h => hstart h.2) _
      rw [readsInside_call_of_not_isStart hblock hlt hstart, Nat.zero_add]
      constructor
      · intro h _ _
        exact ⟨h, fun s hs => by rw [hnil] at hs; cases hs⟩
      · intro h
        exact (h hlt hblock).first
  · have hskip : len ≤ 0 ∨ XDMA_BLOCK_SIZE < len := by omega
    rw [readsInside_call, step, if_pos hskip]
    refine iff_of_true (readsInside_afterCall_of_done (.inl rfl)) fun hpos hle => ?_
    exact absurd ⟨hpos, hle⟩ hguard

/-- **The router touches nothing outside of a block** and of `pdata`, if and only if the block does
not end within a header that is looked at. -/
theorem blockSafe_iff :
    BlockSafe m cards header len u ↔
      (0 < len → len ≤ XDMA_BLOCK_SIZE → BlockFits m cards header len) := by
  rw [← readsInside_block (u := u)]
  constructor
  · intro h n x hx
    cases x with
    | read a k => exact h.inside n a k hx
    | pdata i => trivial
  · intro h
    exact ⟨terminates_step m cards u, always_indexed u, fun n a k hx => h n (.read a k) hx⟩

/-- **The router is safe in a call** if and only if no block of the call that it reads ends within a
header that is looked at. It always ends, and its entries of `pdata` always exist. -/
theorem dispatchesSafely_iff (m : Mem) (cards : CardsStatus) (blocks : List (ℕ × ℕ)) (u : Channel) :
    DispatchesSafely m cards blocks u ↔
      ∀ b ∈ blocks, 0 < b.2 → b.2 ≤ XDMA_BLOCK_SIZE → BlockFits m cards b.1 b.2 := by
  constructor
  · intro h b hb
    obtain ⟨pre, post, hsplit⟩ := List.append_of_mem hb
    exact blockSafe_iff.mp (h pre b post hsplit)
  · rintro h pre b post rfl
    exact blockSafe_iff.mpr (h b (List.mem_append_right _ List.mem_cons_self))

end Calls

/-- A frame and four bytes of the next header: the length of the frame that follows is read behind
the block. -/
theorem not_dispatchesSafely_cut :
    ¬ DispatchesSafely (Mem.ofList (headerBytes 1 24 0x502 1 0 ++ [0x51, 0x57, 0, 0]))
      CardsStatus.slotFive [(0, 28)] {} := by
  intro h
  have hread := (h [] (0, 28) [] rfl).inside 2 28 2 (by decide +kernel)
  exact absurd hread.2 (by decide)

end M57Card.Uplink
