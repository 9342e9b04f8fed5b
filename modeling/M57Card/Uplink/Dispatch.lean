import M57Card.Uplink.Layout

/-!
# The router and the runs of a block

The router refines the layout of a block: the scan at the start of a run gives back the vector of
the run (`xdmaOfMatchPkgs_of_isStart`), and the loop over the runs files the vectors of those that
it keeps, in their order, and counts their frames (`dispatchLoop_eq`). What is proved about vectors
is proved about the layout from here on.

## Main results

* `scanFrom_eq`, `xdmaOfMatchPkgs_of_isStart`, `xdmaOfMatchPkgs_of_not_isStart` : the scan.
* `dispatchLoop_eq`, `dispatchLoop_block` : the router.
* `renewed_dispatchBlock` : the vectors of a block.
-/

namespace M57Card.Uplink

open M57

/-! ### The scan finds the run -/

/-- What the scan gives back for the rest of a run behind `pos` frames. -/
def Tail.result (t : Tail) (data pos : ℕ) (sub : NetSub) : MatchResult :=
  match t.ending with
  | .passed | .gap => { sumLen := t.stop - data, pos := pos + t.frames.length, sub := sub }
  | .long _ => { sumLen := 0, pos := pos + t.frames.length, sub := sub, errCode := true }
  | .unknown q => { sumLen := q - data, pos := pos + t.frames.length, sub := sub, errCode := true }
  | .change q => { sumLen := q - data, pos := pos + t.frames.length, sub := sub }
  | .tooMany => { sumLen := 0, pos := pos + t.frames.length + 1, sub := sub, errCode := true }

/-- A frame of the rest of a run is one more frame behind it. -/
theorem Tail.result_cons (t : Tail) (q data pos : ℕ) (sub : NetSub) :
    Tail.result { t with frames := q :: t.frames } data pos sub = t.result data (pos + 1) sub := by
  unfold Tail.result
  dsimp only
  cases t.ending <;> simp only [List.length_cons, Nat.add_assoc, Nat.add_comm 1]

section Refinement

variable {m : Mem} {cards : CardsStatus} {header len offp : ℕ}

/-- The scan from its loop condition on. -/
def scanFrom (m : Mem) (cards : CardsStatus) (data len offp n : ℕ) (s : Scan) : MatchResult :=
  if s.sumLen < len - offp then matchLoop m cards data len offp n s
  else { sumLen := s.sumLen, pos := s.pos, sub := s.sub }

/-- An iteration goes to the next header of the block. -/
theorem matchIter_eq (hlt : offp < len) (hsync : IsSync m (header + offp)) {s : Scan}
    (hs : s.sumLen < len - offp) :
    matchIter m cards (header + offp) len offp s =
      match nextHeader m (header + len) (header + offp + s.sumLen) with
      | none => .inr { sumLen := s.sumLen, pos := s.pos, sub := s.sub }
      | some q => matchFrame m cards (header + offp) { s with sumLen := q - (header + offp) } := by
  have hrange : header + len - (header + offp + s.sumLen) = len - offp - s.sumLen := by omega
  by_cases hhere : IsSync m (header + offp + s.sumLen)
  · rw [nextHeader_of_isSync hhere (by omega), matchIter, if_pos hhere]
    dsimp only
    rw [Nat.add_sub_cancel_left]
  · have hne : s.sumLen ≠ 0 := by
      rintro hzero
      rw [hzero] at hhere
      exact hhere hsync
    have hle : ¬ len < offp := by omega
    have hneq : ¬ s.sumLen = len - offp := by omega
    rw [matchIter, if_neg hhere, if_pos hne, if_neg hle, if_neg hneq, if_pos hs]
    cases hq : nextHeader m (header + len) (header + offp + s.sumLen) with
    | none =>
      rw [nextHeader, hrange, Option.map_eq_none_iff] at hq
      rw [hq]
    | some q =>
      obtain ⟨j, hj, hlim, -, -⟩ := nextHeader_eq_some.mp hq
      rw [nextHeader, hrange, Option.map_eq_some_iff] at hq
      obtain ⟨skip, hskip, rfl⟩ := hq
      have hfit : ¬ len < s.sumLen + skip + offp := by omega
      rw [hskip]
      dsimp only
      rw [if_neg hfit, Nat.add_assoc, Nat.add_sub_cancel_left]

/-- The frame at `q`, in a run with at least one frame. -/
theorem matchFrame_eq {data q : ℕ} (hq : data ≤ q) {s : Scan} (hpos : s.pos ≠ 0) :
    matchFrame m cards data { s with sumLen := q - data } =
      if 2048 < frameLen m q then
        .inr { sumLen := 0, pos := s.pos, sub := s.sub, errCode := true }
      else if SameParams s.sub (frameSub m q) then
        if MAX_PACKAGES_NUM ≤ s.pos + 1 then
          .inr { sumLen := 0, pos := s.pos + 1, sub := s.sub, errCode := true }
        else .inl { s with pos := s.pos + 1, sumLen := q + frameLen m q - data }
      else if cards.isValidChipid (frameSub m q).chipId then
        .inr { sumLen := q - data, pos := s.pos, sub := s.sub }
      else
        .inr { sumLen := q - data, pos := s.pos, sub := s.sub, errCode := true } := by
  have haddr : data + (q - data) = q := Nat.add_sub_of_le hq
  have hsum : q - data + frameLen m q = q + frameLen m q - data := by omega
  have hdiff : (s.sub.chipId ≠ (frameSub m q).chipId ∨ s.sub.funcId ≠ (frameSub m q).funcId ∨
      s.sub.port ≠ (frameSub m q).port) ↔ ¬ SameParams s.sub (frameSub m q) := by
    unfold SameParams
    tauto
  simp only [matchFrame, countFrame, haddr, hpos, if_false, hdiff, hsum]
  by_cases hlong : 2048 < frameLen m q
  · rw [if_pos hlong, if_pos hlong]
  · rw [if_neg hlong, if_neg hlong]
    by_cases hsame : SameParams s.sub (frameSub m q)
    · rw [if_neg (not_not_intro hsame), if_pos hsame]
    · rw [if_pos hsame, if_neg hsame]
      cases cards.isValidChipid (frameSub m q).chipId with
      | true => rfl
      | false => rfl

/-- One more iteration: the run ends, or has another frame. -/
theorem scanFrom_succ (hlt : offp < len) (hsync : IsSync m (header + offp)) (n : ℕ) {s : Scan}
    (hpos : s.pos ≠ 0) :
    scanFrom m cards (header + offp) len offp (n + 1) s =
      match nextFrame m cards (header + len) s.sub (header + offp + s.sumLen) with
      | .inl ending =>
          Tail.result ⟨[], header + offp + s.sumLen, ending⟩ (header + offp) s.pos s.sub
      | .inr q =>
          if MAX_PACKAGES_NUM ≤ s.pos + 1 then
            { sumLen := 0, pos := s.pos + 1, sub := s.sub, errCode := true }
          else
            scanFrom m cards (header + offp) len offp n
              { s with pos := s.pos + 1, sumLen := q + frameLen m q - (header + offp) } := by
  rcases nextFrame_cases m cards (header + len) s.sub (header + offp + s.sumLen) with
    ⟨hle, heq⟩ | ⟨hin, hnone, heq⟩ | ⟨q, hin, hq, hcases⟩
  · rw [heq, scanFrom, if_neg (by omega)]
    dsimp only [Tail.result]
    rw [Nat.add_sub_cancel_left]
    rfl
  · have hs : s.sumLen < len - offp := by omega
    rw [heq, scanFrom, if_pos hs, matchLoop, matchIter_eq hlt hsync hs, hnone]
    dsimp only [Tail.result]
    rw [Nat.add_sub_cancel_left]
    rfl
  · have hs : s.sumLen < len - offp := by omega
    obtain ⟨j, hj, -, -, -⟩ := nextHeader_eq_some.mp hq
    rw [scanFrom, if_pos hs, matchLoop, matchIter_eq hlt hsync hs, hq]
    dsimp only
    rw [matchFrame_eq (by omega : header + offp ≤ q) hpos]
    rcases hcases with ⟨hlong, heq⟩ | ⟨hlen, ⟨hsame, heq⟩ | ⟨hdiff, ⟨hvalid, heq⟩ | ⟨hvalid, heq⟩⟩⟩
    · rw [heq, if_pos hlong]
      rfl
    · rw [heq, if_neg (not_lt.mpr hlen), if_pos hsame]
      dsimp only
      split_ifs with hmax
      · rfl
      · rfl
    · rw [heq, if_neg (not_lt.mpr hlen), if_neg hdiff, if_pos hvalid]
      rfl
    · rw [heq, if_neg (not_lt.mpr hlen), if_neg hdiff, if_neg (Bool.eq_false_iff.mp hvalid)]
      rfl

/-- The scan behind a frame gives the rest of the run. -/
theorem scanFrom_eq (hlt : offp < len) (hsync : IsSync m (header + offp)) (n : ℕ) {s : Scan}
    (hpos : s.pos ≠ 0) (hn : s.pos + n + 1 = MAX_PACKAGES_NUM) :
    scanFrom m cards (header + offp) len offp (n + 1) s =
      (tailFrom m cards (header + len) s.sub n (header + offp + s.sumLen)).result
        (header + offp) s.pos s.sub := by
  induction n generalizing s with
  | zero =>
    rw [scanFrom_succ hlt hsync 0 hpos]
    cases h : nextFrame m cards (header + len) s.sub (header + offp + s.sumLen) with
    | inl ending => rw [tailFrom_of_inl h]
    | inr q =>
      rw [tailFrom_zero_of_inr h]
      exact if_pos hn.ge
  | succ n ih =>
    rw [scanFrom_succ hlt hsync (n + 1) hpos]
    cases h : nextFrame m cards (header + len) s.sub (header + offp + s.sumLen) with
    | inl ending => rw [tailFrom_of_inl h]
    | inr q =>
      obtain ⟨-, hq, -, -⟩ := nextFrame_eq_inr h
      obtain ⟨j, hj, -, -, -⟩ := nextHeader_eq_some.mp hq
      have hmore : ¬ MAX_PACKAGES_NUM ≤ s.pos + 1 := by omega
      have haddr : header + offp + (q + frameLen m q - (header + offp)) = q + frameLen m q := by
        omega
      rw [tailFrom_succ_of_inr h]
      dsimp only
      rw [if_neg hmore, ih (Nat.succ_ne_zero _) (by dsimp only; omega)]
      dsimp only
      rw [haddr, Tail.result_cons]

end Refinement

/-- The counters after the scan of a run. -/
def UplinkStat.count (st : UplinkStat) (pkgs errs : ℕ) : UplinkStat :=
  { st with forwardPkgs := st.forwardPkgs + pkgs, routeErrPkgs := st.routeErrPkgs + errs }

/-- The key and the vector of a run. -/
def Segment.entry (m : Mem) (s : Segment) : ℤ × Iovec :=
  ((frameSub m s.start).hashId, ⟨s.start, s.size⟩)

/-- The vector of a run is filed under the key of the first frame. -/
def Segment.load (m : Mem) (u : Channel) (s : Segment) : Channel :=
  xdmaLoadDispBuffer u s.start s.size (frameSub m s.start)

section Load

variable {m : Mem} {u : Channel} {s : Segment}

/-- A vector that the table accepts: its bytes are counted. -/
theorem Segment.load_of_accepted
    (h : 0 ≤ (spmHashRenew u.table (s.entry m).1 (s.entry m).2).2) :
    s.load m u =
      { table := (spmHashRenew u.table (s.entry m).1 (s.entry m).2).1
        stat := { u.stat with routeBytes := u.stat.routeBytes + s.size }
        renewed := u.renewed ++ [s.entry m] } :=
  congrArg (fun st => Channel.mk (spmHashRenew u.table (s.entry m).1 (s.entry m).2).1 st
    (u.renewed ++ [s.entry m])) (if_pos h)

/-- A vector that the table refuses: an error is counted. -/
theorem Segment.load_of_refused
    (h : ¬ 0 ≤ (spmHashRenew u.table (s.entry m).1 (s.entry m).2).2) :
    s.load m u =
      { table := (spmHashRenew u.table (s.entry m).1 (s.entry m).2).1
        stat := { u.stat with routeErrPkgs := u.stat.routeErrPkgs + 1 }
        renewed := u.renewed ++ [s.entry m] } :=
  congrArg (fun st => Channel.mk (spmHashRenew u.table (s.entry m).1 (s.entry m).2).1 st
    (u.renewed ++ [s.entry m])) (if_neg h)

end Load

section Refinement

variable {m : Mem} {cards : CardsStatus} {header len offp : ℕ}

/-- The first iteration of the scan at the start of a run. -/
theorem matchIter_of_isStart (hstart : IsStart m cards (header + offp)) :
    matchIter m cards (header + offp) len offp {} = .inl
      { pos := 1, sumLen := frameLen m (header + offp), sub := frameSub m (header + offp) } := by
  obtain ⟨hsync, hlen, hvalid⟩ := hstart
  have hlen' : ¬ 2048 < frameLen m (header + offp) := not_lt.mpr hlen
  have hmax : ¬ MAX_PACKAGES_NUM ≤ 0 + 1 := by decide
  simp only [matchIter, matchFrame, countFrame, Nat.add_zero, hsync, if_true, hlen', hvalid,
    hmax, if_false, Bool.true_eq_false, Nat.zero_add]

/-- The first iteration of the scan where no run starts. -/
theorem matchIter_of_not_isStart (hstart : ¬ IsStart m cards (header + offp)) :
    matchIter m cards (header + offp) len offp {} =
      .inr { sumLen := 0, pos := 0, sub := {}, errCode := decide (IsSync m (header + offp)) } := by
  by_cases hsync : IsSync m (header + offp)
  · by_cases hlen : 2048 < frameLen m (header + offp)
    · simp only [matchIter, matchFrame, Nat.add_zero, hsync, if_true, hlen, decide_true]
    · have hvalid : cards.isValidChipid (frameSub m (header + offp)).chipId = false := by
        rw [← Bool.not_eq_true]
        rintro hvalid
        exact hstart ⟨hsync, not_lt.mp hlen, hvalid⟩
      simp only [matchIter, matchFrame, Nat.add_zero, hsync, if_true, hlen, hvalid, if_false,
        decide_true]
  · simp only [matchIter, Nat.add_zero, hsync, if_false, ne_eq, not_true_eq_false, decide_false]

/-- The scan at the start of a run. -/
theorem matchLoop_of_isStart (hlt : offp < len) (hstart : IsStart m cards (header + offp)) :
    matchLoop m cards (header + offp) len offp MAX_PACKAGES_NUM {} =
      (tailFrom m cards (header + len) (frameSub m (header + offp)) (MAX_PACKAGES_NUM - 2)
        (header + offp + frameLen m (header + offp))).result (header + offp) 1
        (frameSub m (header + offp)) := by
  obtain ⟨n, hn, hmax⟩ : ∃ n, MAX_PACKAGES_NUM - 2 = n ∧ MAX_PACKAGES_NUM = n + 1 + 1 :=
    ⟨_, rfl, by decide⟩
  have hscan := @scanFrom_eq m cards header len offp hlt hstart.1 n
    { pos := 1, sumLen := frameLen m (header + offp), sub := frameSub m (header + offp) }
    Nat.one_ne_zero (by dsimp only; omega)
  rw [hn, hmax, matchLoop, matchIter_of_isStart hstart]
  exact hscan

/-- The scan where no run starts. -/
theorem matchLoop_of_not_isStart (hstart : ¬ IsStart m cards (header + offp)) :
    matchLoop m cards (header + offp) len offp MAX_PACKAGES_NUM {} =
      { sumLen := 0, pos := 0, sub := {}, errCode := decide (IsSync m (header + offp)) } := by
  obtain ⟨n, hmax⟩ : ∃ n, MAX_PACKAGES_NUM = n + 1 := ⟨MAX_PACKAGES_NUM - 1, by decide⟩
  rw [hmax, matchLoop, matchIter_of_not_isStart hstart]

end Refinement

/-! ### The router files the runs -/

section Dispatch

variable {m : Mem} {cards : CardsStatus} {header len offp : ℕ}

/-- What becomes of the result of the scan. -/
theorem xdmaOfMatchPkgs_eq (hblock : len ≤ XDMA_BLOCK_SIZE) (hlt : offp < len) (st : UplinkStat)
    {data : ℕ} {r : MatchResult}
    (hr : matchLoop m cards data len offp MAX_PACKAGES_NUM {} = r) :
    xdmaOfMatchPkgs m cards data len offp st =
      ({ r with readOver := r.readOver || r.errCode || decide (len - offp ≤ r.sumLen) },
        st.count (if 0 < r.pos ∧ r.pos < MAX_PACKAGES_NUM then r.pos else 0)
          (if r.errCode then 1 else 0)) := by
  have hguard : ¬ (len ≤ offp ∨ XDMA_BLOCK_SIZE < len) := by omega
  rw [xdmaOfMatchPkgs, if_neg hguard, hr]
  obtain ⟨sumLen, pos, sub, errCode, readOver⟩ := r
  refine Prod.ext ?_ ?_
  · by_cases hover : len - offp ≤ sumLen
    · cases errCode <;> cases readOver <;> simp [hover]
    · cases errCode <;> cases readOver <;> simp [hover]
  · by_cases hpos : 0 < pos ∧ pos < MAX_PACKAGES_NUM
    · cases errCode <;> simp [UplinkStat.count, hpos]
    · cases errCode <;> simp [UplinkStat.count, hpos]

/-- **The scan at the start of a run** gives back its vector and counts its frames. -/
theorem xdmaOfMatchPkgs_of_isStart (hblock : len ≤ XDMA_BLOCK_SIZE) (hlt : offp < len)
    (hstart : IsStart m cards (header + offp)) (st : UplinkStat) :
    let s := segmentAt m cards (header + len) (header + offp)
    ∃ r, xdmaOfMatchPkgs m cards (header + offp) len offp st = (r, st.count s.pkgs s.errs) ∧
      r.sumLen = s.size ∧ r.sub = frameSub m s.start ∧ r.readOver = s.readOver := by
  have hspec := segmentAt_spec hstart (show header + offp < header + len by omega)
  have hle := length_frames_tailFrom m cards (header + len) (frameSub m (header + offp))
    (MAX_PACKAGES_NUM - 2) (header + offp + frameLen m (header + offp))
  have hmax : MAX_PACKAGES_NUM - 2 + 2 = MAX_PACKAGES_NUM := by decide
  have heq := xdmaOfMatchPkgs_eq hblock hlt st (matchLoop_of_isStart hlt hstart)
  dsimp only [segmentAt] at hspec ⊢
  generalize tailFrom m cards (header + len) (frameSub m (header + offp)) (MAX_PACKAGES_NUM - 2)
    (header + offp + frameLen m (header + offp)) = t at hspec hle heq ⊢
  obtain ⟨frames, stop, ending⟩ := t
  obtain ⟨hstop, hspec⟩ := hspec
  dsimp only at hstop hspec hle
  have hpos : 0 < 1 + frames.length ∧ 1 + frames.length < MAX_PACKAGES_NUM := by omega
  have hcomm : frames.length + 1 = 1 + frames.length := Nat.add_comm _ _
  refine ⟨_, heq.trans (Prod.ext rfl ?_), ?_, ?_, ?_⟩
  · cases ending with
    | tooMany =>
      have hfull : ¬ (0 < 1 + frames.length + 1 ∧ 1 + frames.length + 1 < MAX_PACKAGES_NUM) := by
        rw [List.length_cons] at hspec
        omega
      simp only [Tail.result, Segment.pkgs, Segment.errs, hfull, if_false, if_true]
    | _ =>
      simp only [Tail.result, Segment.pkgs, Segment.errs, hpos, List.length_cons, hcomm, and_self,
        if_true, if_false, Bool.false_eq_true]
  · cases ending <;> rfl
  · cases ending <;> rfl
  · cases ending with
    | passed => exact decide_eq_true (show len - offp ≤ stop - (header + offp) by omega)
    | gap => exact decide_eq_false (show ¬ len - offp ≤ stop - (header + offp) by omega)
    | change q =>
      have hq := nextHeader_le hspec.2.1
      exact decide_eq_false (show ¬ len - offp ≤ q - (header + offp) by omega)
    | _ => rfl

/-- The scan where no run starts gives back nothing. -/
theorem xdmaOfMatchPkgs_of_not_isStart (hblock : len ≤ XDMA_BLOCK_SIZE) (hlt : offp < len)
    (hstart : ¬ IsStart m cards (header + offp)) (st : UplinkStat) :
    ∃ r, xdmaOfMatchPkgs m cards (header + offp) len offp st =
        (r, st.count 0 (if IsSync m (header + offp) then 1 else 0)) ∧ r.sumLen = 0 := by
  have heq := xdmaOfMatchPkgs_eq hblock hlt st (matchLoop_of_not_isStart hstart)
  refine ⟨_, heq.trans (Prod.ext rfl ?_), rfl⟩
  simp only [lt_irrefl, false_and, if_false, decide_eq_true_eq]

/-- A change of the counters of a channel. -/
def Channel.count (u : Channel) (pkgs errs : ℕ) : Channel :=
  { u with stat := u.stat.count pkgs errs }

/-- The errors of the scans from an address on, at most `n` runs. -/
def scanErrs (m : Mem) (cards : CardsStatus) (lim n a : ℕ) : ℕ :=
  if n = 0 ∨ lim ≤ a then 0
  else if IsStart m cards a then ((segments m cards lim n a).map Segment.errs).sum
  else if IsSync m a then 1
  else 0

theorem Channel.count_count (u : Channel) (a b c d : ℕ) :
    (u.count a b).count c d = u.count (a + c) (b + d) := by
  simp only [Channel.count, UplinkStat.count, Nat.add_assoc]

theorem Segment.load_count (m : Mem) (u : Channel) (a b : ℕ) (s : Segment) :
    s.load m (u.count a b) = (s.load m u).count a b := by
  by_cases hrv : 0 ≤ (spmHashRenew u.table (s.entry m).1 (s.entry m).2).2
  · rw [Segment.load_of_accepted (u := u.count a b) hrv, Segment.load_of_accepted hrv]
    generalize s.entry m = e
    rfl
  · rw [Segment.load_of_refused (u := u.count a b) hrv, Segment.load_of_refused hrv]
    generalize s.entry m = e
    simp only [Channel.count, UplinkStat.count, Nat.add_right_comm]

theorem foldl_load_count (m : Mem) (u : Channel) (a b : ℕ) (ss : List Segment) :
    ss.foldl (Segment.load m) (u.count a b) = (ss.foldl (Segment.load m) u).count a b := by
  induction ss generalizing u with
  | nil => rfl
  | cons s ss ih => rw [List.foldl_cons, Segment.load_count, ih, List.foldl_cons]

/-- A run that does not end the block is kept, and the next scan starts where its vector ends. -/
theorem kept_of_not_readOver {a lim : ℕ} (hstart : IsStart m cards a) (ha : header ≤ a)
    (hlt : a < lim) (hlim : lim = header + len)
    (h : (segmentAt m cards lim a).readOver = false) :
    (segmentAt m cards lim a).Kept len ∧ a + (segmentAt m cards lim a).size < lim ∧
      a + (segmentAt m cards lim a).size = (segmentAt m cards lim a).limit := by
  have hspec := (segmentAt_spec hstart hlt).2
  have hfst : (segmentAt m cards lim a).start = a := rfl
  cases hend : (segmentAt m cards lim a).ending with
  | gap =>
    simp only [hend] at hspec
    simp only [Segment.Kept, Segment.size, Segment.limit, hend, hfst]
    omega
  | change q =>
    simp only [hend] at hspec
    have hq := nextHeader_le hspec.2.1
    simp only [Segment.Kept, Segment.size, Segment.limit, hend, hfst]
    omega
  | _ =>
    rw [Segment.readOver, hend] at h
    cases h

/-- One more run of a block. -/
theorem dispatchLoop_of_isStart (hblock : len ≤ XDMA_BLOCK_SIZE) {n offset : ℕ}
    (hlt : offset < len) (hstart : IsStart m cards (header + offset)) (u : Channel) :
    let s := segmentAt m cards (header + len) (header + offset)
    let u' := if s.Kept len then s.load m (u.count s.pkgs s.errs) else u.count s.pkgs s.errs
    dispatchLoop m cards header len (n + 1) offset u =
      if s.readOver then u' else dispatchLoop m cards header len n (s.limit - header) u' := by
  intro s u'
  obtain ⟨r, heq, hsize, hsub, hover⟩ := xdmaOfMatchPkgs_of_isStart hblock hlt hstart u.stat
  have hnext : s.readOver = false → s.Kept len ∧ header + offset + s.size < header + len ∧
      header + offset + s.size = s.limit :=
    kept_of_not_readOver hstart (Nat.le_add_right header offset)
      (show header + offset < header + len by omega) rfl
  change r.sumLen = s.size at hsize
  change r.sub = frameSub m s.start at hsub
  change r.readOver = s.readOver at hover
  rw [dispatchLoop, heq]
  dsimp only
  rw [hsize, hsub, hover]
  by_cases hkept : s.Kept len
  · obtain ⟨hpos, hle⟩ := hkept
    have hu' : u' = s.load m (u.count s.pkgs s.errs) := if_pos ⟨hpos, hle⟩
    rw [if_neg (by omega), if_pos hpos, hu']
    cases hro : s.readOver with
    | true =>
      simp only [true_or, if_true, ite_self]
      rfl
    | false =>
      obtain ⟨-, hin, hlimit⟩ := hnext hro
      have hoff : offset + s.size = s.limit - header := by omega
      rw [if_neg (by omega), if_neg (by simp [hpos.ne']), if_pos (by omega), hoff]
      rfl
  · have hu' : u' = u.count s.pkgs s.errs := if_neg hkept
    have hro : s.readOver = true := by
      cases hro : s.readOver with
      | true => rfl
      | false => exact absurd (hnext hro).1 hkept
    rw [hu', hro, if_pos rfl]
    by_cases hlong : len < s.size
    · rw [if_pos (.inl hlong)]
      rfl
    · have hzero : s.size = 0 := by
        by_contra hne
        exact hkept ⟨Nat.pos_of_ne_zero hne, not_lt.mp hlong⟩
      rw [hzero, if_neg (by omega), if_neg (lt_irrefl 0), if_neg (by omega), if_pos (.inl rfl)]
      rfl

/-- The first run of a list is filed first. -/
theorem foldl_load_cons (m : Mem) (u : Channel) (s : Segment) (ss : List Segment) (a b c d : ℕ) :
    (((s :: ss).filter (Segment.Kept len)).foldl (Segment.load m) u).count (a + c) (b + d) =
      ((ss.filter (Segment.Kept len)).foldl (Segment.load m)
        (if s.Kept len then s.load m (u.count a b) else u.count a b)).count c d := by
  by_cases hkept : s.Kept len
  · have hcons : (s :: ss).filter (Segment.Kept len) = s :: ss.filter (Segment.Kept len) :=
      List.filter_cons_of_pos (decide_eq_true hkept)
    rw [hcons, List.foldl_cons, if_pos hkept, Segment.load_count, foldl_load_count,
      Channel.count_count]
  · have hcons : (s :: ss).filter (Segment.Kept len) = ss.filter (Segment.Kept len) :=
      List.filter_cons_of_neg (by rwa [decide_eq_true_eq])
    rw [hcons, if_neg hkept, foldl_load_count, Channel.count_count]

theorem scanErrs_of_isStart {lim a : ℕ} (hstart : IsStart m cards a) (hlt : a < lim) (n : ℕ) :
    scanErrs m cards lim n a = ((segments m cards lim n a).map Segment.errs).sum := by
  rw [scanErrs, if_pos hstart]
  split_ifs with hnone
  · rcases hnone with rfl | hle
    · rfl
    · omega
  · rfl

/-- The loop ends at the end of the block. -/
theorem dispatchLoop_of_le {offset : ℕ} (hle : len ≤ offset) (n : ℕ) (u : Channel) :
    dispatchLoop m cards header len (n + 1) offset u =
      u.count 0 (scanErrs m cards (header + len) (n + 1) (header + offset)) := by
  have hscan : xdmaOfMatchPkgs m cards (header + offset) len offset u.stat =
      ({ sumLen := 0, pos := 0, sub := {}, readOver := true }, u.stat) := by
    rw [xdmaOfMatchPkgs, if_pos (.inl hle)]
  rw [dispatchLoop, hscan]
  dsimp only
  simp only [scanErrs, Nat.add_le_add_iff_left, hle, or_true, if_true, lt_irrefl, if_false,
    ite_self]
  rfl

/-- The loop ends where no run starts. -/
theorem dispatchLoop_of_not_isStart (hblock : len ≤ XDMA_BLOCK_SIZE) {offset : ℕ}
    (hlt : offset < len) (hstart : ¬ IsStart m cards (header + offset)) (n : ℕ) (u : Channel) :
    dispatchLoop m cards header len (n + 1) offset u =
      u.count 0 (scanErrs m cards (header + len) (n + 1) (header + offset)) := by
  have hsync : ¬ header + len ≤ header + offset := by omega
  obtain ⟨r, heq, hzero⟩ := xdmaOfMatchPkgs_of_not_isStart hblock hlt hstart u.stat
  rw [dispatchLoop, heq]
  dsimp only
  rw [hzero, if_neg (by omega), if_neg (lt_irrefl 0), if_neg (by omega), if_pos (.inr rfl)]
  simp only [scanErrs, Nat.succ_ne_zero, hsync, or_self, if_false, hstart]
  rfl

/-- **The router files the runs of a block that it keeps**, in their order, and counts their
frames. -/
theorem dispatchLoop_eq (hblock : len ≤ XDMA_BLOCK_SIZE) (n offset : ℕ) (u : Channel) :
    dispatchLoop m cards header len n offset u =
      (((segments m cards (header + len) n (header + offset)).filter (Segment.Kept len)).foldl
        (Segment.load m) u).count
        ((segments m cards (header + len) n (header + offset)).map Segment.pkgs).sum
        (scanErrs m cards (header + len) n (header + offset)) := by
  induction n generalizing offset u with
  | zero => rfl
  | succ n ih =>
    by_cases hlt : offset < len
    · by_cases hstart : IsStart m cards (header + offset)
      · have hlt' : header + offset < header + len := by omega
        have hspec := (segmentAt_spec hstart hlt').2
        have hstep := dispatchLoop_of_isStart hblock hlt hstart u (n := n)
        have hchange := fun q => segments_of_change (q := q) hlt' hstart
        have hlast := segments_of_ne_change hlt' hstart
        dsimp only at hstep
        rw [scanErrs_of_isStart hstart hlt', hstep]
        generalize segmentAt m cards (header + len) (header + offset) = s at hspec hchange hlast ⊢
        cases hend : s.ending with
        | gap =>
          simp only [hend] at hspec
          have hlimit : s.limit = s.stop := by rw [Segment.limit, hend]
          have haddr : header + (s.stop - header) = s.stop := by omega
          have hsync : ¬ IsSync m s.stop := fun hsync => by
            rw [nextHeader_of_isSync hsync hspec.2.1] at hspec
            cases hspec.2.2
          have hover : s.readOver = false := by rw [Segment.readOver, hend]
          rw [hlast (fun q hq => by rw [hend] at hq; cases hq), List.map_cons, List.sum_cons,
            List.map_cons, List.sum_cons, foldl_load_cons, hover, if_neg Bool.false_ne_true, hlimit,
            ih, haddr, segments_of_not_isStart fun h => hsync h.2.1]
          simp only [scanErrs, hsync, IsStart, false_and, if_false, ite_self]
          rfl
        | change q =>
          simp only [hend] at hspec
          obtain ⟨hafter, hq, -, hstart'⟩ := hspec
          have haddr : header + (q - header) = q := by omega
          have hlimit : s.limit = q := by rw [Segment.limit, hend]
          have hover : s.readOver = false := by rw [Segment.readOver, hend]
          rw [hchange q hend, List.map_cons, List.sum_cons, List.map_cons, List.sum_cons,
            foldl_load_cons, hover, if_neg Bool.false_ne_true, hlimit, ih,
            haddr, scanErrs_of_isStart hstart' (nextHeader_le hq).2]
        | _ =>
          have hover : s.readOver = true := by rw [Segment.readOver, hend]
          rw [hlast (fun q hq => by rw [hend] at hq; cases hq), List.map_cons, List.sum_cons,
            List.map_cons, List.sum_cons, foldl_load_cons, hover, if_pos rfl]
          rfl
      · rw [segments_of_not_isStart (fun h => hstart h.2),
          dispatchLoop_of_not_isStart hblock hlt hstart]
        rfl
    · rw [segments_of_not_isStart (fun h => hlt (by omega)), dispatchLoop_of_le (not_lt.mp hlt)]
      rfl

end Dispatch

/-! ### Blocks -/

section Blocks

variable (m : Mem) (cards : CardsStatus) (header len : ℕ) (u : Channel)

/-- The errors of the scans of a block. -/
def blockErrs : ℕ :=
  if XDMA_BLOCK_SIZE < len then 0
  else scanErrs m cards (header + len) XDMA_DATA_TYPE_MAX_PKGS header

theorem dispatchLoop_block :
    dispatchLoop m cards header len XDMA_DATA_TYPE_MAX_PKGS 0 u =
      ((vectors m cards header len).foldl (Segment.load m) u).count
        ((blockRuns m cards header len).map Segment.pkgs).sum (blockErrs m cards header len) := by
  by_cases hblock : XDMA_BLOCK_SIZE < len
  · have hscan : xdmaOfMatchPkgs m cards header len 0 u.stat =
        ({ sumLen := 0, pos := 0, sub := {}, readOver := true }, u.stat) := by
      rw [xdmaOfMatchPkgs, if_pos (.inr hblock)]
    obtain ⟨n, hn⟩ : ∃ n, XDMA_DATA_TYPE_MAX_PKGS = n + 1 := ⟨65535, by decide⟩
    have hnil : blockRuns m cards header len = [] := if_pos hblock
    rw [vectors, hnil, blockErrs, if_pos hblock, hn, dispatchLoop, Nat.add_zero, hscan]
    simp only [lt_irrefl, if_false, true_or, if_true, ite_self]
    rfl
  · have hruns : blockRuns m cards header len =
        segments m cards (header + len) XDMA_DATA_TYPE_MAX_PKGS header := if_neg hblock
    rw [dispatchLoop_eq (not_lt.mp hblock), vectors, hruns, blockErrs, if_neg hblock]
    rfl

theorem renewed_foldl_load (ss : List Segment) :
    (ss.foldl (Segment.load m) u).renewed = u.renewed ++ ss.map (Segment.entry m) := by
  induction ss generalizing u with
  | nil => exact (List.append_nil _).symm
  | cons s ss ih =>
    rw [List.foldl_cons, ih, List.map_cons, List.append_cons]
    rfl

/-- Filing vectors changes neither the frames nor the bytes read. -/
theorem stat_foldl_load (ss : List Segment) :
    (ss.foldl (Segment.load m) u).stat.forwardPkgs = u.stat.forwardPkgs ∧
      (ss.foldl (Segment.load m) u).stat.readBytes = u.stat.readBytes := by
  induction ss generalizing u with
  | nil => exact ⟨rfl, rfl⟩
  | cons s ss ih =>
    have hstep : (s.load m u).stat.forwardPkgs = u.stat.forwardPkgs ∧
        (s.load m u).stat.readBytes = u.stat.readBytes := by
      by_cases hrv : 0 ≤ (spmHashRenew u.table (s.entry m).1 (s.entry m).2).2
      · rw [Segment.load_of_accepted hrv]
        exact ⟨rfl, rfl⟩
      · rw [Segment.load_of_refused hrv]
        exact ⟨rfl, rfl⟩
    rw [List.foldl_cons, (ih _).1, (ih _).2]
    exact hstep

/-- **The vectors of a block** are those of the runs that are kept, in their order. -/
theorem renewed_dispatchBlock :
    (dispatchBlock m cards u header len).renewed =
      u.renewed ++ (vectors m cards header len).map (Segment.entry m) := by
  rw [dispatchBlock, dispatchLoop_block]
  exact renewed_foldl_load m u _

/-- The vectors of some blocks. -/
theorem renewed_xdmaDataDispatcherBuffer (blocks : List (ℕ × ℕ)) :
    (xdmaDataDispatcherBuffer m cards blocks u).renewed =
      u.renewed ++ blocks.flatMap fun b => (vectors m cards b.1 b.2).map (Segment.entry m) := by
  induction blocks generalizing u with
  | nil => exact (List.append_nil _).symm
  | cons b blocks ih =>
    have hstep : xdmaDataDispatcherBuffer m cards (b :: blocks) u =
        xdmaDataDispatcherBuffer m cards blocks (dispatchBlock m cards u b.1 b.2) := rfl
    rw [hstep, ih, renewed_dispatchBlock, List.flatMap_cons, List.append_assoc]

end Blocks

end M57Card.Uplink
