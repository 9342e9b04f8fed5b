import M57Card.Lib.SplitBy
import M57Card.Uplink.Room

/-!
# Blocks of well-formed frames

A block that is a concatenation of well-formed frames is cut exactly at the changes of the
subscription parameters: the vectors of the block are its maximal runs of frames with equal
parameters, one behind the other, and together they are the block. Every frame is counted once, and
an error is counted for a vector that the table refuses only; as long as the table has room for the
vectors, every byte of the block is counted as routed.

## Main definitions

* `IsUplinkFrame`, `subOf` : well-formed frames and their parameters.
* `maximalRuns`, `runEntries` : the runs of a list of frames, and their keys and vectors.
* `refusals` : how many vectors the table refuses.

## Main results

* `segments_runs` : the layout of a block of well-formed frames.
* `xdmaDataDispatcherBuffer_frames` : the router on such a block.
-/

namespace M57Card.Uplink

open M57 Bytes

/-! ### Frames -/

/-- The subscription parameters of a frame. -/
def subOf (f : List UInt8) : NetSub where
  chipId := u16 f 10
  funcId := u16 f 18
  prioId := if byteAt f 3 / 16 = 3 then 1 else 0
  port := u16 f 20

/-- A well-formed frame: sync word, length and a chip that is there. -/
structure IsUplinkFrame (cards : CardsStatus) (f : List UInt8) : Prop where
  sync : u16 f 0 = M57_SYNC_HEADER
  len : u16 f 4 = f.length
  min : 24 ≤ f.length
  max : f.length ≤ 2048
  chip : cards.isValidChipid (subOf f).chipId = true

/-- The maximal runs of consecutive frames with equal parameters. -/
def maximalRuns (fs : List (List UInt8)) : List (List (List UInt8)) :=
  fs.splitBy fun f g => decide (SameParams (subOf f) (subOf g))

/-- The keys and the vectors of runs that lie behind each other from the address `p` on: each is
filed under the key of its first frame. -/
def runEntries : ℕ → List (List (List UInt8)) → List (ℤ × Iovec)
  | _, [] => []
  | p, r :: rs =>
      ((subOf (r.headD [])).hashId, ⟨p, r.flatten.length⟩) :: runEntries (p + r.flatten.length) rs

section Memory

variable {m : Mem} {cards : CardsStatus} {a : ℕ} {f : List UInt8}

/-- A well-formed frame in memory. -/
theorem IsUplinkFrame.inMemory (hf : IsUplinkFrame cards f) (hm : m.Holds a f) :
    IsSync m a ∧ frameLen m a = f.length ∧ frameSub m a = subOf f := by
  have hmin := hf.min
  have hu (i : ℕ) (hi : i < 23) : m.u16 (a + i) = u16 f i := hm.u16_add (by omega)
  refine ⟨(hu 0 (by omega)).trans hf.sync, (hu 4 (by omega)).trans hf.len, ?_⟩
  rw [frameSub, subOf, hu 10 (by omega), hu 18 (by omega), hu 20 (by omega),
    hm.byteAt_add (by omega : 3 < f.length)]

theorem IsUplinkFrame.isStart (hf : IsUplinkFrame cards f) (hm : m.Holds a f) :
    IsStart m cards a := by
  obtain ⟨hsync, hlen, hsub⟩ := hf.inMemory hm
  exact ⟨hsync, by rw [hlen]; exact hf.max, by rw [hsub]; exact hf.chip⟩

/-- A well-formed frame right behind another one continues the run or ends it. -/
theorem nextFrame_of_frame {lim : ℕ} (hf : IsUplinkFrame cards f) (hm : m.Holds a f) (hlt : a < lim)
    (sub : NetSub) :
    nextFrame m cards lim sub a =
      if SameParams sub (subOf f) then .inr a else .inl (.change a) := by
  obtain ⟨hsync, hlen, hsub⟩ := hf.inMemory hm
  have hmax : ¬ 2048 < f.length := not_lt.mpr hf.max
  rw [nextFrame, if_neg (not_le.mpr hlt), nextHeader_of_isSync hsync hlt]
  simp only [hlen, hmax, hsub, hf.chip, if_false, if_true]

/-- The rest of a run of well-formed frames, and the frames behind it. -/
theorem tailFrom_run {sub : NetSub} {lim : ℕ} {gs : List (List UInt8)}
    (hgs : ∀ g ∈ gs, IsUplinkFrame cards g) (hnext : ∀ g ∈ gs.head?, ¬ SameParams sub (subOf g))
    {r : List (List UInt8)} (hr : ∀ g ∈ r, IsUplinkFrame cards g ∧ SameParams sub (subOf g))
    {k e : ℕ} (hk : r.length ≤ k) (hm : m.Holds e (r.flatten ++ gs.flatten))
    (hlim : lim = e + (r.flatten ++ gs.flatten).length) :
    let t := tailFrom m cards lim sub k e
    t.stop = e + r.flatten.length ∧ t.frames.length = r.length ∧
      t.ending = if gs = [] then .passed else .change (e + r.flatten.length) := by
  induction r generalizing k e with
  | nil =>
    have hend : nextFrame m cards lim sub e = .inl (if gs = [] then .passed else .change e) := by
      cases gs with
      | nil =>
        have hle : lim ≤ e := hlim.le
        rw [if_pos rfl, nextFrame, if_pos hle]
      | cons g gs =>
        have hf := hgs g List.mem_cons_self
        have hmin := hf.min
        rw [List.flatten_nil, List.nil_append, List.flatten_cons, Mem.holds_append] at hm
        rw [List.flatten_nil, List.nil_append, List.flatten_cons, List.length_append] at hlim
        rw [nextFrame_of_frame hf hm.1 (by omega), if_neg (hnext g rfl),
          if_neg (List.cons_ne_nil _ _)]
    rw [tailFrom_of_inl hend]
    exact ⟨rfl, rfl, rfl⟩
  | cons g r ih =>
    obtain ⟨hf, hsame⟩ := hr g List.mem_cons_self
    have hmin := hf.min
    obtain ⟨k, rfl⟩ := Nat.exists_eq_add_one_of_ne_zero (Nat.ne_of_gt (Nat.lt_of_lt_of_le
      (Nat.zero_lt_succ _) hk))
    rw [List.flatten_cons, List.append_assoc, Mem.holds_append] at hm
    rw [List.flatten_cons, List.append_assoc, List.length_append] at hlim
    have hnextg : nextFrame m cards lim sub e = .inr e := by
      rw [nextFrame_of_frame hf hm.1 (by omega), if_pos hsame]
    have hrest := ih (fun g hg => hr g (List.mem_cons_of_mem _ hg)) (Nat.le_of_succ_le_succ hk) hm.2
      (by omega)
    rw [tailFrom_succ_of_inr hnextg, (hf.inMemory hm.1).2.1]
    dsimp only at hrest ⊢
    rw [List.flatten_cons, List.length_append, ← Nat.add_assoc]
    exact ⟨hrest.1, congrArg Nat.succ hrest.2.1, hrest.2.2⟩

end Memory

/-! ### The layout of a block of frames -/

/-- A run of well-formed frames: not empty, not too many, and all with the parameters of the
first. -/
structure IsRun (cards : CardsStatus) (r : List (List UInt8)) : Prop where
  ne_nil : r ≠ []
  few : r.length < MAX_PACKAGES_NUM
  frames : ∀ g ∈ r, IsUplinkFrame cards g ∧ SameParams (subOf (r.headD [])) (subOf g)

/-- Two runs with different parameters. -/
def Differs (r r' : List (List UInt8)) : Prop :=
  ¬ SameParams (subOf (r.headD [])) (subOf (r'.headD []))

theorem IsRun.length_flatten_pos {cards : CardsStatus} {r : List (List UInt8)}
    (hr : IsRun cards r) : 0 < r.flatten.length := by
  obtain ⟨f, r', rfl⟩ := List.exists_cons_of_ne_nil hr.ne_nil
  have hmin := (hr.frames f List.mem_cons_self).1.min
  rw [List.flatten_cons, List.length_append]
  omega

section Layout

variable {m : Mem} {cards : CardsStatus} {lim : ℕ}

/-- The run at the start of some runs. -/
theorem segmentAt_run {a : ℕ} {r : List (List UInt8)} {rs : List (List (List UInt8))}
    (hr : IsRun cards r) (hrs : ∀ r ∈ rs, IsRun cards r) (hdiff : ∀ r' ∈ rs.head?, Differs r r')
    (hm : m.Holds a (r :: rs).flatten.flatten)
    (hlim : lim = a + (r :: rs).flatten.flatten.length) :
    IsStart m cards a ∧ a < lim ∧ frameSub m a = subOf (r.headD []) ∧
      (segmentAt m cards lim a).stop = a + r.flatten.length ∧
      (segmentAt m cards lim a).frames.length = r.length ∧
      (segmentAt m cards lim a).ending =
        if rs = [] then .passed else .change (a + r.flatten.length) := by
  obtain ⟨hne, hfew, hframes⟩ := hr
  obtain ⟨f, r, rfl⟩ := List.exists_cons_of_ne_nil hne
  obtain ⟨hf, -⟩ := hframes f List.mem_cons_self
  have hmin := hf.min
  rw [List.flatten_cons, List.flatten_append, List.flatten_cons, List.append_assoc,
    Mem.holds_append] at hm
  rw [List.flatten_cons, List.flatten_append, List.flatten_cons, List.append_assoc,
    List.length_append] at hlim
  obtain ⟨hsync, hlen, hsub⟩ := hf.inMemory hm.1
  have hnil : rs.flatten = [] ↔ rs = [] := by
    rw [List.flatten_eq_nil_iff]
    refine ⟨fun h => ?_, fun h => by rw [h]; simp⟩
    cases rs with
    | nil => rfl
    | cons r' rs => exact absurd (h r' List.mem_cons_self) (hrs r' List.mem_cons_self).ne_nil
  have hnext : ∀ g ∈ rs.flatten.head?, ¬ SameParams (subOf f) (subOf g) := by
    rintro g hg
    cases rs with
    | nil => cases hg
    | cons r' rs =>
      obtain ⟨f', r', rfl⟩ := List.exists_cons_of_ne_nil (hrs r' List.mem_cons_self).ne_nil
      obtain rfl := Option.some.inj hg
      exact hdiff _ rfl
  have hgs : ∀ g ∈ rs.flatten, IsUplinkFrame cards g := by
    rintro g hg
    obtain ⟨r', hr', hg⟩ := List.mem_flatten.mp hg
    exact ((hrs r' hr').frames g hg).1
  have hlim' : lim = a + f.length + (r.flatten ++ rs.flatten.flatten).length := by omega
  have htail := tailFrom_run hgs hnext (fun g hg => hframes g (List.mem_cons_of_mem _ hg))
    (k := MAX_PACKAGES_NUM - 2) (by rw [List.length_cons] at hfew; omega) hm.2 hlim'
  dsimp only at htail
  simp only [hnil] at htail
  refine ⟨hf.isStart hm.1, by omega, hsub, ?_⟩
  rw [segmentAt, hsub, hlen, List.flatten_cons, List.length_append, ← Nat.add_assoc]
  exact ⟨htail.1, congrArg Nat.succ htail.2.1, htail.2.2⟩

/-- What the run at the start of some runs is filed as. -/
theorem values_segmentAt_run {a : ℕ} {r : List (List UInt8)} {rs : List (List (List UInt8))}
    (hr : IsRun cards r) (hrs : ∀ r ∈ rs, IsRun cards r) (hdiff : ∀ r' ∈ rs.head?, Differs r r')
    (hm : m.Holds a (r :: rs).flatten.flatten)
    (hlim : lim = a + (r :: rs).flatten.flatten.length) :
    (segmentAt m cards lim a).entry m =
        ((subOf (r.headD [])).hashId, ⟨a, r.flatten.length⟩) ∧
      (segmentAt m cards lim a).size = r.flatten.length ∧
      (segmentAt m cards lim a).pkgs = r.length ∧ (segmentAt m cards lim a).errs = 0 := by
  obtain ⟨-, -, hsub, hstop, hcount, hend⟩ := segmentAt_run hr hrs hdiff hm hlim
  have hstart : (segmentAt m cards lim a).start = a := rfl
  have hsize : (segmentAt m cards lim a).size = r.flatten.length := by
    split_ifs at hend
    · simp only [Segment.size, Segment.limit, hend, hstop, hstart, Nat.add_sub_cancel_left]
    · simp only [Segment.size, Segment.limit, hend, hstart, Nat.add_sub_cancel_left]
  refine ⟨by rw [Segment.entry, hsize, hstart, hsub], hsize, ?_, ?_⟩
  · split_ifs at hend
    · simp only [Segment.pkgs, hend, hcount]
    · simp only [Segment.pkgs, hend, hcount]
  · split_ifs at hend
    · simp only [Segment.errs, hend]
    · simp only [Segment.errs, hend]

/-- The run at the start of some runs, and what is laid out behind it. -/
theorem segments_run {n a : ℕ} {r : List (List UInt8)} {rs : List (List (List UInt8))}
    (hr : IsRun cards r) (hrs : ∀ r ∈ rs, IsRun cards r) (hdiff : ∀ r' ∈ rs.head?, Differs r r')
    (hm : m.Holds a (r :: rs).flatten.flatten)
    (hlim : lim = a + (r :: rs).flatten.flatten.length) :
    segments m cards lim (n + 1) a =
      segmentAt m cards lim a :: segments m cards lim n (a + r.flatten.length) := by
  obtain ⟨hstart, hlt, -, -, -, hend⟩ := segmentAt_run hr hrs hdiff hm hlim
  by_cases hnil : rs = []
  · -- the block ends behind the run
    subst hnil
    have hbehind : ¬ (a + r.flatten.length < lim ∧ IsStart m cards (a + r.flatten.length)) := by
      intro h
      rw [hlim, List.flatten_cons, List.flatten_nil, List.append_nil] at h
      exact lt_irrefl _ h.1
    rw [if_pos rfl] at hend
    rw [segments_of_ne_change hlt hstart (fun q hq => by rw [hend] at hq; cases hq),
      segments_of_not_isStart hbehind]
  · rw [if_neg hnil] at hend
    exact segments_of_change hlt hstart hend n

/-- **The layout of a block of well-formed frames**: one run behind the other. -/
theorem segments_runs {len n a : ℕ} {rs : List (List (List UInt8))}
    (hrs : ∀ r ∈ rs, IsRun cards r) (hdiff : rs.IsChain Differs) (hn : rs.length ≤ n)
    (hm : m.Holds a rs.flatten.flatten) (hlim : lim = a + rs.flatten.flatten.length)
    (hlen : rs.flatten.flatten.length ≤ len) :
    let ss := segments m cards lim n a
    ss.map (Segment.entry m) = runEntries a rs ∧ (∀ s ∈ ss, s.Kept len) ∧
      (ss.map Segment.pkgs).sum = rs.flatten.length ∧ (ss.map Segment.errs).sum = 0 := by
  induction rs generalizing n a with
  | nil =>
    have hnil : segments m cards lim n a = [] :=
      segments_of_not_isStart (fun h => by rw [hlim] at h; exact absurd h.1 (lt_irrefl a)) n
    dsimp only
    rw [hnil]
    exact ⟨rfl, fun s hs => absurd hs List.not_mem_nil, rfl, rfl⟩
  | cons r rs ih =>
    obtain ⟨n, rfl⟩ := Nat.exists_eq_add_one_of_ne_zero (Nat.ne_of_gt (Nat.lt_of_lt_of_le
      (Nat.zero_lt_succ _) hn))
    have hr := hrs r List.mem_cons_self
    have hrs' : ∀ r ∈ rs, IsRun cards r := fun r hr => hrs r (List.mem_cons_of_mem _ hr)
    obtain ⟨hhead, hdiff'⟩ := List.isChain_cons.mp hdiff
    obtain ⟨hentry, hsize, hcount, herr⟩ := values_segmentAt_run hr hrs' hhead hm hlim
    have hsegments := segments_run (n := n) hr hrs' hhead hm hlim
    rw [List.flatten_cons, List.flatten_append, Mem.holds_append] at hm
    rw [List.flatten_cons, List.flatten_append, List.length_append] at hlim hlen
    have hpos := hr.length_flatten_pos
    obtain ⟨hentries, hkept, hpkgs, herrs⟩ := ih hrs' hdiff' (Nat.le_of_succ_le_succ hn) hm.2
      (by omega) (by omega)
    dsimp only at hentries hkept hpkgs herrs ⊢
    rw [hsegments]
    refine ⟨?_, ?_, ?_, ?_⟩
    · rw [List.map_cons, hentries, hentry]
      rfl
    · rintro s hs
      rcases List.mem_cons.mp hs with rfl | hs
      · rw [Segment.Kept, hsize]
        omega
      · exact hkept s hs
    · rw [List.map_cons, List.sum_cons, hpkgs, hcount, List.flatten_cons, List.length_append]
    · rw [List.map_cons, List.sum_cons, herrs, herr]

end Layout

/-! ### Room in the table -/

section Room

variable {V : Type}

/-- How many of some vectors the table refuses when they are filed one after the other. -/
def refusals (t : SpmHash V) : List (ℤ × V) → ℕ
  | [] => 0
  | e :: es =>
      (if 0 ≤ (spmHashRenew t e.1 e.2).2 then 0 else 1) + refusals (spmHashRenew t e.1 e.2).1 es

/-- The errors counted while vectors are filed are those that the table refuses. -/
theorem routeErrPkgs_foldl_load (m : Mem) (u : Channel) (ss : List Segment) :
    (ss.foldl (Segment.load m) u).stat.routeErrPkgs =
      u.stat.routeErrPkgs + refusals u.table (ss.map (Segment.entry m)) := by
  induction ss generalizing u with
  | nil => rfl
  | cons s ss ih =>
    rw [List.foldl_cons, ih, List.map_cons, refusals]
    by_cases hrv : 0 ≤ (spmHashRenew u.table (s.entry m).1 (s.entry m).2).2
    · have hload := Segment.load_of_accepted hrv
      generalize s.entry m = e at hrv hload ⊢
      rw [hload, if_pos hrv, Nat.zero_add]
    · have hload := Segment.load_of_refused hrv
      generalize s.entry m = e at hrv hload ⊢
      rw [hload, if_neg hrv, Nat.add_assoc]

/-- Vectors that the table has room for are all counted as routed. -/
theorem stat_foldl_load_of_hasRoom (m : Mem) {ss : List Segment} {u : Channel}
    (hne : ∀ e ∈ ss.map (Segment.entry m), e.1 ≠ 0)
    (h : HasRoom u.table ((ss.map (Segment.entry m)).map Prod.fst)) :
    (ss.foldl (Segment.load m) u).stat =
      { u.stat with
        routeBytes :=
          u.stat.routeBytes + ((ss.map (Segment.entry m)).map fun e => e.2.len).sum } := by
  induction ss generalizing u with
  | nil => rfl
  | cons s ss ih =>
    obtain ⟨hkey, hne⟩ := List.forall_mem_cons.mp hne
    obtain ⟨hpos, hrest⟩ := (hasRoom_cons_iff hkey (s.entry m).2).mp h
    have hload := Segment.load_of_accepted hpos.le
    rw [List.foldl_cons, ih hne (by rwa [hload]), hload, List.map_cons, List.map_cons,
      List.sum_cons, ← Nat.add_assoc]
    rfl

end Room

/-! ### The router on a block of frames -/

/-- Some vectors lie behind each other from `p` to `q`, without gaps. -/
def Tiles : ℕ → List Iovec → ℕ → Prop
  | p, [], q => p = q
  | p, v :: vs, q => v.base = p ∧ 0 < v.len ∧ Tiles (p + v.len) vs q

section Runs

variable {m : Mem} {cards : CardsStatus} {fs : List (List UInt8)}

/-- A maximal run of well-formed frames is a run. -/
theorem isRun_of_mem_maximalRuns (hfs : ∀ f ∈ fs, IsUplinkFrame cards f)
    {r : List (List UInt8)} (hr : r ∈ maximalRuns fs) (hfew : r.length < MAX_PACKAGES_NUM) :
    IsRun cards r := by
  refine ⟨List.ne_nil_of_mem_splitBy hr, hfew, fun g hg =>
    ⟨hfs g ?_, rel_headD_of_mem_splitBy (sameParams_equivalence subOf) hr hg []⟩⟩
  rw [← List.flatten_splitBy (fun f g => decide (SameParams (subOf f) (subOf g))) fs]
  exact List.mem_flatten_of_mem hr hg

theorem tiles_runEntries {p : ℕ} {rs : List (List (List UInt8))} (hrs : ∀ r ∈ rs, IsRun cards r) :
    Tiles p ((runEntries p rs).map Prod.snd) (p + rs.flatten.flatten.length) := by
  induction rs generalizing p with
  | nil => rfl
  | cons r rs ih =>
    refine ⟨rfl, (hrs r List.mem_cons_self).length_flatten_pos, ?_⟩
    rw [List.flatten_cons, List.flatten_append, List.length_append, ← Nat.add_assoc]
    exact ih fun r hr => hrs r (List.mem_cons_of_mem _ hr)

theorem slices_runEntries {p : ℕ} {rs : List (List (List UInt8))}
    (hm : m.Holds p rs.flatten.flatten) :
    ((runEntries p rs).map fun e => m.slice e.2.base e.2.len) = rs.map List.flatten := by
  induction rs generalizing p with
  | nil => rfl
  | cons r rs ih =>
    rw [List.flatten_cons, List.flatten_append, Mem.holds_append] at hm
    rw [runEntries, List.map_cons, List.map_cons, ih hm.2, hm.1.slice_eq]

theorem sum_len_runEntries (p : ℕ) (rs : List (List (List UInt8))) :
    ((runEntries p rs).map fun e => e.2.len).sum = rs.flatten.flatten.length := by
  induction rs generalizing p with
  | nil => rfl
  | cons r rs ih =>
    rw [runEntries, List.map_cons, List.sum_cons, ih, List.flatten_cons, List.flatten_append,
      List.length_append]

/-- The scans of a block of well-formed frames count no error. -/
theorem blockErrs_frames {header : ℕ} (hfs : ∀ f ∈ fs, IsUplinkFrame cards f)
    (hm : m.Holds header fs.flatten)
    (herrs : ((segments m cards (header + fs.flatten.length) XDMA_DATA_TYPE_MAX_PKGS header).map
      Segment.errs).sum = 0) :
    blockErrs m cards header fs.flatten.length = 0 := by
  rw [blockErrs]
  split_ifs
  · rfl
  · cases fs with
    | nil => rw [scanErrs, if_pos (.inr (Nat.le_refl _))]
    | cons f fs =>
      have hf := hfs f List.mem_cons_self
      have hmin := hf.min
      rw [List.flatten_cons, Mem.holds_append] at hm
      rw [scanErrs_of_isStart (hf.isStart hm.1), herrs]
      rw [List.flatten_cons, List.length_append]
      omega

/-- **Frame routing partitions the block.** A block that is a concatenation of well-formed frames,
with runs that are neither too long nor too many, is filed as one vector for each of its maximal
runs, in their order and under the key of the first frame; the vectors lie behind each other from
the start of the block to its end and have the bytes of the runs. All frames are counted, all bytes
are counted as read, and nothing but a refusal by the table is counted as an error. With room in the
table there is none: all bytes are counted as routed, and the table has the vectors behind those
that were there. -/
theorem xdmaDataDispatcherBuffer_frames {header : ℕ} {u : Channel}
    (hfs : ∀ f ∈ fs, IsUplinkFrame cards f) (hm : m.Holds header fs.flatten)
    (hlen : fs.flatten.length ≤ XDMA_BLOCK_SIZE)
    (hfew : ∀ r ∈ maximalRuns fs, r.length < MAX_PACKAGES_NUM)
    (hruns : (maximalRuns fs).length ≤ XDMA_DATA_TYPE_MAX_PKGS) :
    let u' := xdmaDataDispatcherBuffer m cards [(header, fs.flatten.length)] u
    let entries := runEntries header (maximalRuns fs)
    u'.renewed = u.renewed ++ entries ∧
      Tiles header (entries.map Prod.snd) (header + fs.flatten.length) ∧
      (entries.map fun e => m.slice e.2.base e.2.len) = (maximalRuns fs).map List.flatten ∧
      u'.stat.forwardPkgs = u.stat.forwardPkgs + fs.length ∧
      u'.stat.readBytes = u.stat.readBytes + fs.flatten.length ∧
      u'.stat.routeErrPkgs = u.stat.routeErrPkgs + refusals u.table entries ∧
      (HasRoom u.table (entries.map Prod.fst) →
        u'.stat.routeBytes = u.stat.routeBytes + fs.flatten.length ∧
          u'.stat.routeErrPkgs = u.stat.routeErrPkgs ∧
          ∀ k, vecs u'.table k =
            vecs u.table k ++ (entries.filter fun e => e.1 = k).map Prod.snd) := by
  intro u' entries
  have hflat : (maximalRuns fs).flatten = fs := List.flatten_splitBy _ _
  have hrs : ∀ r ∈ maximalRuns fs, IsRun cards r :=
    fun r hr => isRun_of_mem_maximalRuns hfs hr (hfew r hr)
  have hm' : m.Holds header (maximalRuns fs).flatten.flatten := by rwa [hflat]
  have hlim : header + fs.flatten.length =
      header + (maximalRuns fs).flatten.flatten.length := by rw [hflat]
  have hle : (maximalRuns fs).flatten.flatten.length ≤ fs.flatten.length := by rw [hflat]
  have hchain := isChain_headD_splitBy (sameParams_equivalence subOf) fs []
  obtain ⟨hentries, hkept, hpkgs, herrs⟩ := segments_runs hrs hchain hruns hm' hlim hle
  have hblock : blockRuns m cards header fs.flatten.length =
      segments m cards (header + fs.flatten.length) XDMA_DATA_TYPE_MAX_PKGS header :=
    if_neg (not_lt.mpr hlen)
  have hvectors : vectors m cards header fs.flatten.length =
      segments m cards (header + fs.flatten.length) XDMA_DATA_TYPE_MAX_PKGS header := by
    rw [vectors, hblock]
    exact List.filter_eq_self.mpr fun s hs => decide_eq_true (hkept s hs)
  have hnoerr := blockErrs_frames hfs hm herrs
  have hloop := dispatchLoop_block m cards header fs.flatten.length u
  rw [hvectors, hblock, hnoerr, hpkgs, hflat] at hloop
  have hu' : u' = dispatchBlock m cards u header fs.flatten.length := rfl
  have htiles := tiles_runEntries (p := header) hrs
  rw [hflat] at htiles
  have hstat := stat_foldl_load m u
    (segments m cards (header + fs.flatten.length) XDMA_DATA_TYPE_MAX_PKGS header)
  have herr := routeErrPkgs_foldl_load m u
    (segments m cards (header + fs.flatten.length) XDMA_DATA_TYPE_MAX_PKGS header)
  rw [hentries] at herr
  refine ⟨?_, htiles, slices_runEntries hm', ?_, ?_, ?_, fun hroom => ?_⟩
  · rw [hu', renewed_dispatchBlock, hvectors, hentries]
  · rw [hu', dispatchBlock, hloop]
    exact congrArg (· + fs.length) hstat.1
  · rw [hu', dispatchBlock, hloop]
    exact congrArg (· + fs.flatten.length) hstat.2
  · rw [hu', dispatchBlock, hloop]
    exact herr
  · have hne : ∀ e ∈ (segments m cards (header + fs.flatten.length) XDMA_DATA_TYPE_MAX_PKGS
        header).map (Segment.entry m), e.1 ≠ 0 := by
      rw [← hvectors]
      exact fun e he => entry_ne_zero he
    have hsum := sum_len_runEntries header (maximalRuns fs)
    rw [hflat] at hsum
    have hroom' : HasRoom u.table (((segments m cards (header + fs.flatten.length)
        XDMA_DATA_TYPE_MAX_PKGS header).map (Segment.entry m)).map Prod.fst) := by
      rwa [hentries]
    have hall := stat_foldl_load_of_hasRoom m hne hroom'
    have htable := table_xdmaDataDispatcherBuffer m cards [(header, fs.flatten.length)] u
    rw [List.flatMap_singleton, hvectors] at htable
    rw [hentries, hsum] at hall
    refine ⟨?_, ?_, fun k => ?_⟩
    · rw [hu', dispatchBlock, hloop, Channel.count, hall]
      rfl
    · rw [hu', dispatchBlock, hloop, Channel.count, hall]
      rfl
    · rw [htable, hroom'.vecs_renewAll hne, hentries]

/-- Two frames of a chip in slot five and one of another function, in an empty channel. -/
theorem xdmaDataDispatcherBuffer_frames_three :
    let fs := [headerBytes 1 24 0x502 1 0, headerBytes 1 24 0x502 1 0, headerBytes 1 24 0x502 2 0]
    let m := Mem.ofList fs.flatten
    let u := xdmaDataDispatcherBuffer m CardsStatus.slotFive [(0, 72)] {}
    u.renewed = [(53, ⟨0, 48⟩), (85, ⟨48, 24⟩)] ∧
      u.stat = { readBytes := 72, routeBytes := 72, forwardPkgs := 3, routeErrPkgs := 0 } := by
  intro fs m u
  have hfs : ∀ f ∈ fs, IsUplinkFrame CardsStatus.slotFive f := by
    have hone : IsUplinkFrame CardsStatus.slotFive (headerBytes 1 24 0x502 1 0) :=
      ⟨by decide, by decide, by decide, by decide, by decide⟩
    have htwo : IsUplinkFrame CardsStatus.slotFive (headerBytes 1 24 0x502 2 0) :=
      ⟨by decide, by decide, by decide, by decide, by decide⟩
    rintro f hf
    simp only [fs, List.mem_cons, List.not_mem_nil, or_false] at hf
    rcases hf with rfl | rfl | rfl
    · exact hone
    · exact hone
    · exact htwo
  have hkeys : (runEntries 0 (maximalRuns fs)) = [(53, ⟨0, 48⟩), (85, ⟨48, 24⟩)] := by decide
  have hroom : HasRoom (spmHashCreate : SpmHash Iovec) [53, 85] := hasRoom_create (by decide)
  have hlen : fs.flatten.length = 72 := by decide
  obtain ⟨hrenewed, -, -, hforward, hread, -, hroute⟩ :=
    @xdmaDataDispatcherBuffer_frames m _ fs 0 {} hfs (Mem.holds_ofList fs.flatten) (by decide)
      (by decide) (by decide)
  rw [hkeys] at hrenewed hroute
  obtain ⟨hroute, herr, -⟩ := hroute hroom
  rw [hlen] at hrenewed hroute hforward herr hread
  exact ⟨hrenewed, UplinkStat.ext hread hroute hforward herr⟩

end Runs

end M57Card.Uplink
