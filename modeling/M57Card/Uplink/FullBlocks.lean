import M57Card.Uplink.Padding

/-!
# Full blocks of small frames

A scan of `_xdma_of_match_pkgs` takes fewer than `_MAX_PACKAGES_NUM` frames. At the last one that it
counts it sets the length of what it has analysed to zero, so that the frames in front of it are
lost too, and the router is done with the block (`spm_xdma.c`, lines 663–668). A block of
`XDMA_BLOCK_SIZE` bytes has room for that many frames when they have at most 256 bytes.

Frames with one key can have different parameters, since the key has only some bits of them; they
are then in several runs, of which the router reads `XDMA_DATA_TYPE_MAX_PKGS`. The table takes as
many vectors under the key as its entry has room for.

## Main definitions

* `RegistersAll` : every byte of a block is in a vector that the table takes under a key.

## Main results

* `registersAll_iff` : when all bytes of a block of frames with one key are registered.
-/

namespace M57Card.Uplink

open M57 Bytes

/-- Every byte of the block is in a vector that the table takes under the key. -/
def RegistersAll (m : Mem) (cards : CardsStatus) (header len : ℕ) (key : ℤ) (u : Channel) : Prop :=
  ∀ p, header ≤ p → p < header + len →
    ∃ v ∈ added m cards [(header, len)] u key, v.base ≤ p ∧ p < v.base + v.len

section Frames

variable {m : Mem} {cards : CardsStatus} {header len e : ℕ} {key : ℤ} {rs : List (List ℕ)}
  {fs : List (List UInt8)}

/-- The vectors of a block start at frames of it. -/
theorem LaidOut.start_mem (h : LaidOut m cards (header + len) header rs e)
    (hfew : ∀ r ∈ rs, r.length < MAX_PACKAGES_NUM) (hlim : e ≤ header + len)
    (hblock : len ≤ XDMA_BLOCK_SIZE) {s : Segment} (hs : s ∈ vectors m cards header len) :
    s.start ∈ rs.flatten := by
  have hframes : s.frames ∈ rs.take XDMA_DATA_TYPE_MAX_PKGS := by
    rw [← h.frames_vectors hfew hlim hblock]
    exact List.mem_map_of_mem hs
  have hfirst : s.start ∈ s.frames := by
    rw [(eq_segmentAt_of_mem_vectors hs).2.2.2.1]
    exact List.mem_cons_self
  exact List.mem_flatten_of_mem (List.mem_of_mem_take hframes) hfirst

/-- The vectors of a block whose frames have one key are filed under it. -/
theorem LaidOut.map_key_vectors_eq_replicate
    (h : LaidOut m cards (header + len) header rs (header + len))
    (hkey : ∀ p ∈ rs.flatten, (frameSub m p).hashId = key) (hblock : len ≤ XDMA_BLOCK_SIZE)
    (hruns : rs.length ≤ XDMA_DATA_TYPE_MAX_PKGS)
    (hfew : ∀ r ∈ rs, r.length < MAX_PACKAGES_NUM) :
    (vectors m cards header len).map (fun s => (frameSub m s.start).hashId) =
      List.replicate rs.length key := by
  rw [h.map_key_vectors hfew (Nat.le_refl _) hblock hruns, List.eq_replicate_iff]
  refine ⟨List.length_map _, List.forall_mem_map.mpr fun r hr => hkey _ ?_⟩
  obtain ⟨p, r, rfl⟩ := List.exists_cons_of_ne_nil (h.runs _ hr).1
  exact List.mem_flatten_of_mem hr List.mem_cons_self

/-- **All bytes of a block** whose frames have one key are registered under it if and only if its
runs are neither too many nor too long, and the table has room for them. -/
theorem LaidOut.registersAll_iff_runs (h : LaidOut m cards (header + len) header rs (header + len))
    (hkey : ∀ p ∈ rs.flatten, (frameSub m p).hashId = key) (hblock : len ≤ XDMA_BLOCK_SIZE)
    {u : Channel} :
    RegistersAll m cards header len key u ↔
      (rs.length ≤ XDMA_DATA_TYPE_MAX_PKGS ∧ ∀ r ∈ rs, r.length < MAX_PACKAGES_NUM) ∧
        HasRoom u.table (List.replicate rs.length key) := by
  have hruns : blockRuns m cards header len =
      segments m cards (header + len) XDMA_DATA_TYPE_MAX_PKGS header := if_neg (not_lt.mpr hblock)
  have hcovered := h.covered_iff (Nat.le_refl _) (Nat.le_refl header) XDMA_DATA_TYPE_MAX_PKGS
  rw [← hruns] at hcovered
  obtain ⟨ss, hss, -, hadded, hroom⟩ := added_eq m cards header len u
  constructor
  · intro hall
    have hin (p : ℕ) (hp : header ≤ p) (hlt : p < header + len) :
        ∃ s ∈ ss, s.start ≤ p ∧ p < s.start + s.size := by
      obtain ⟨v, hv, hrange⟩ := hall p hp hlt
      rw [hadded] at hv
      obtain ⟨x, hx, rfl⟩ := List.mem_map.mp hv
      obtain ⟨s, hs, rfl⟩ := List.mem_map.mp (List.mem_of_mem_filter hx)
      exact ⟨s, hs, hrange⟩
    have hcond := hcovered.mp fun p hp hlt => by
      obtain ⟨s, hs, hrange⟩ := hin p hp hlt
      obtain ⟨hrun, hkept⟩ := mem_vectors.mp (hss.subset hs)
      exact ⟨s, hrun, hkept, hrange⟩
    refine ⟨hcond, ?_⟩
    rw [← h.map_key_vectors_eq_replicate hkey hblock hcond.1 hcond.2]
    refine hroom.mp (eq_vectors_of_sublist hss fun s hs => ?_)
    -- the first byte of a vector lies in a vector that the table takes
    obtain ⟨hle, hlt, -⟩ := eq_segmentAt_of_mem_vectors hs
    obtain ⟨t, ht, hfirst, hlast⟩ := hin s.start hle hlt
    rwa [eq_of_start_lt hs (hss.subset ht) hfirst hlast]
  · rintro ⟨hcond, hfree⟩ p hp hlt
    rw [← h.map_key_vectors_eq_replicate hkey hblock hcond.1 hcond.2] at hfree
    obtain rfl := hroom.mpr hfree
    obtain ⟨s, hrun, hkept, hrange⟩ := hcovered.mpr hcond p hp hlt
    have hs := mem_vectors.mpr ⟨hrun, hkept⟩
    have hfiled : (s.entry m).1 = key := hkey _ (h.start_mem hcond.2 (Nat.le_refl _) hblock hs)
    refine ⟨(s.entry m).2, ?_, hrange⟩
    rw [hadded]
    exact List.mem_map_of_mem
      (List.mem_filter.mpr ⟨List.mem_map_of_mem hs, decide_eq_true hfiled⟩)

/-- Frames without filler. -/
def unpadded (fs : List (List UInt8)) : List PaddedFrame := fs.map fun f => ⟨f, []⟩

theorem bytes_unpadded (fs : List (List UInt8)) :
    (unpadded fs).flatMap PaddedFrame.bytes = fs.flatten := by
  rw [unpadded, List.flatMap_map]
  induction fs with
  | nil => rfl
  | cons f fs ih =>
    rw [List.flatMap_cons, List.flatten_cons, ih]
    exact congrArg (· ++ fs.flatten) (List.append_nil f)

theorem map_frame_unpadded (fs : List (List UInt8)) :
    (unpadded fs).map PaddedFrame.frame = fs := by
  rw [unpadded, List.map_map]
  exact List.map_id fs

theorem isPadded_unpadded (hfs : ∀ f ∈ fs, IsUplinkFrame cards f) :
    ∀ x ∈ unpadded fs, IsPadded cards x :=
  List.forall_mem_map.mpr fun f hf => ⟨hfs f hf, fun _ hg => absurd hg List.not_mem_nil⟩

/-- Frames without filler fill the block. -/
theorem laidOut_unpadded (hfs : ∀ f ∈ fs, IsUplinkFrame cards f) (hm : m.Holds header fs.flatten) :
    LaidOut m cards (header + fs.flatten.length) header (runsOf m (positions header (unpadded fs)))
      (header + fs.flatten.length) := by
  rw [← bytes_unpadded] at hm ⊢
  obtain ⟨e, -, hlaid, hend⟩ := laidOut_positions (isPadded_unpadded hfs) hm
  have hempty : ∀ x ∈ unpadded fs, x.filler = [] := List.forall_mem_map.mpr fun _ _ => rfl
  rwa [hend hempty] at hlaid

/-- The frames in memory have the keys of the frames. -/
theorem hashId_of_mem_positions (hfs : ∀ f ∈ fs, IsUplinkFrame cards f)
    (hkey : ∀ f ∈ fs, (subOf f).hashId = key) (hm : m.Holds header fs.flatten) :
    ∀ p ∈ (runsOf m (positions header (unpadded fs))).flatten, (frameSub m p).hashId = key := by
  rw [← bytes_unpadded] at hm
  have hsubs := map_frameSub_positions (isPadded_unpadded hfs) hm
  rw [map_frame_unpadded] at hsubs
  have hflat : (runsOf m (positions header (unpadded fs))).flatten =
      positions header (unpadded fs) := List.flatten_splitBy _ _
  rw [hflat]
  rintro p hp
  have hsub := List.mem_map_of_mem (f := frameSub m) hp
  rw [hsubs] at hsub
  obtain ⟨f, hf, heq⟩ := List.mem_map.mp hsub
  rw [← heq]
  exact hkey f hf

/-- The runs of the frames, in memory. -/
theorem runsOf_unpadded (hfs : ∀ f ∈ fs, IsUplinkFrame cards f) (hm : m.Holds header fs.flatten) :
    (runsOf m (positions header (unpadded fs))).length = (maximalRuns fs).length ∧
      ((∀ r ∈ runsOf m (positions header (unpadded fs)), r.length < MAX_PACKAGES_NUM) ↔
        ∀ r ∈ maximalRuns fs, r.length < MAX_PACKAGES_NUM) := by
  rw [← bytes_unpadded] at hm
  have hruns := runsOf_positions (isPadded_unpadded hfs) hm
  rwa [map_frame_unpadded] at hruns

/-- **Full blocks of small frames**: all bytes of a block of well-formed frames with one key are
registered if and only if its runs are at most `XDMA_DATA_TYPE_MAX_PKGS`, each of fewer than
`MAX_PACKAGES_NUM` frames, and the table takes as many vectors under the key. -/
theorem registersAll_iff (hfs : ∀ f ∈ fs, IsUplinkFrame cards f)
    (hkey : ∀ f ∈ fs, (subOf f).hashId = key) (hm : m.Holds header fs.flatten)
    (hblock : fs.flatten.length ≤ XDMA_BLOCK_SIZE) (u : Channel) :
    RegistersAll m cards header fs.flatten.length key u ↔
      ((maximalRuns fs).length ≤ XDMA_DATA_TYPE_MAX_PKGS ∧
        ∀ r ∈ maximalRuns fs, r.length < MAX_PACKAGES_NUM) ∧
        HasRoom u.table (List.replicate (maximalRuns fs).length key) := by
  obtain ⟨hcount, hshort⟩ := runsOf_unpadded hfs hm
  rw [(laidOut_unpadded hfs hm).registersAll_iff_runs (hashId_of_mem_positions hfs hkey hm) hblock,
    hcount, hshort]

/-- Three frames of one key. -/
theorem registersAll_three :
    RegistersAll (Mem.ofList (List.replicate 3 (headerBytes 1 24 0x502 1 0)).flatten)
      CardsStatus.slotFive 0 (List.replicate 3 (headerBytes 1 24 0x502 1 0)).flatten.length 53
        {} := by
  have hframe : IsUplinkFrame CardsStatus.slotFive (headerBytes 1 24 0x502 1 0) :=
    ⟨by decide, by decide, by decide, by decide, by decide⟩
  refine (registersAll_iff (fun f hf => ?_) (fun f hf => ?_) (Mem.holds_ofList _) (by decide)
    {}).mpr ⟨by decide, hasRoom_create (by decide)⟩
  · rwa [List.eq_of_mem_replicate hf]
  · rw [List.eq_of_mem_replicate hf]
    decide

/-- In a block of 16384 frames of 24 bytes nothing is registered. -/
theorem not_registersAll_dense :
    (∀ f ∈ List.replicate 16384 (headerBytes 1 24 0x502 1 0),
      IsUplinkFrame CardsStatus.slotFive f) ∧
      (List.replicate 16384 (headerBytes 1 24 0x502 1 0)).flatten.length ≤ XDMA_BLOCK_SIZE ∧
      ¬ RegistersAll (Mem.ofList (List.replicate 16384 (headerBytes 1 24 0x502 1 0)).flatten)
        CardsStatus.slotFive 0 (List.replicate 16384 (headerBytes 1 24 0x502 1 0)).flatten.length 53
        {} := by
  have hframe : IsUplinkFrame CardsStatus.slotFive (headerBytes 1 24 0x502 1 0) :=
    ⟨by decide, by decide, by decide, by decide, by decide⟩
  have hkey : (subOf (headerBytes 1 24 0x502 1 0)).hashId = 53 := by decide
  have hlen : (headerBytes 1 24 0x502 1 0).length = 24 := by decide
  generalize headerBytes 1 24 0x502 1 0 = f at *
  have hfs : ∀ g ∈ List.replicate 16384 f, IsUplinkFrame CardsStatus.slotFive g := fun g hg => by
    rwa [List.eq_of_mem_replicate hg]
  have hkeys : ∀ g ∈ List.replicate 16384 f, (subOf g).hashId = 53 := fun g hg => by
    rwa [List.eq_of_mem_replicate hg]
  have hbytes : (List.replicate 16384 f).flatten.length = 16384 * 24 := by
    rw [List.length_flatten, List.map_replicate, List.sum_replicate, hlen]
    rfl
  have hblock : (List.replicate 16384 f).flatten.length ≤ XDMA_BLOCK_SIZE := by
    rw [hbytes]
    decide
  have hruns : maximalRuns (List.replicate 16384 f) = [List.replicate 16384 f] :=
    List.splitBy_of_isChain (List.ne_nil_of_length_pos (by rw [List.length_replicate]; decide))
      (List.isChain_replicate_of_rel _ (decide_eq_true ⟨rfl, rfl, rfl⟩))
  refine ⟨hfs, hblock, fun hall => ?_⟩
  have hm := Mem.holds_ofList (List.replicate 16384 f).flatten
  have hfew := (runsOf_unpadded hfs hm).2.mp
    (((laidOut_unpadded hfs hm).registersAll_iff_runs (hashId_of_mem_positions hfs hkeys hm)
      hblock).mp hall).1.2
  rw [hruns, List.forall_mem_singleton, List.length_replicate] at hfew
  exact absurd hfew (by decide)

end Frames

end M57Card.Uplink
