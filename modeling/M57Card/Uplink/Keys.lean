import M57Card.Uplink.Vectors

/-!
# The keys of the frames

A vector is filed under the key of its first frame. The other frames of its run agree with the first
one in chip, function and port. The priority class, which is part of the key too, is not compared:
every frame is filed under its own key if and only if no run that becomes a vector mixes the two
classes.

## Main definitions

* `FiledUnderOwnKeys` : every frame of a filed vector has the key of the vector.

## Main results

* `filedUnderOwnKeys_iff` : when every frame is filed under its own key.
-/

namespace M57Card.Uplink

open M57

/-- Every frame of a vector that a call files has the key of the vector. -/
def FiledUnderOwnKeys (m : Mem) (cards : CardsStatus) (blocks : List (ℕ × ℕ)) (u : Channel) :
    Prop :=
  ∀ e ∈ filed m cards blocks u, ∀ p, FrameIn m e.2 p → e.1 = (frameSub m p).hashId

/-- The priority class of a frame. -/
theorem prioId_frameSub_lt (m : Mem) (p : ℕ) : (frameSub m p).prioId < 2 := by
  rw [frameSub]
  dsimp only
  split_ifs
  · exact Nat.one_lt_two
  · exact Nat.zero_lt_two

/-- Frames with the parameters of a run have equal keys if and only if their classes are equal. -/
theorem hashId_eq_iff {m : Mem} {p q : ℕ} (h : SameParams (frameSub m p) (frameSub m q)) :
    (frameSub m p).hashId = (frameSub m q).hashId ↔
      (frameSub m p).prioId = (frameSub m q).prioId := by
  obtain ⟨hchip, hfunc, hport⟩ := h
  have hp := prioId_frameSub_lt m p
  have hq := prioId_frameSub_lt m q
  rw [NetSub.hashId, NetSub.hashId, hchip, hfunc, hport, getHashmapId, getHashmapId]
  omega

/-- **Every frame is filed under its own key** if and only if, in each run of the blocks that
becomes a vector, all frames are of the priority class of the first one. -/
theorem filedUnderOwnKeys_iff (m : Mem) (cards : CardsStatus) (blocks : List (ℕ × ℕ))
    (u : Channel) :
    FiledUnderOwnKeys m cards blocks u ↔
      ∀ b ∈ blocks, ∀ s ∈ vectors m cards b.1 b.2, ∀ p ∈ s.frames,
        (frameSub m p).prioId = (frameSub m s.start).prioId := by
  -- the frames of a vector, and their keys
  have hkey {b : ℕ × ℕ} {s : Segment} (hs : s ∈ vectors m cards b.1 b.2) :
      (∀ p, FrameIn m (s.entry m).2 p → (s.entry m).1 = (frameSub m p).hashId) ↔
        ∀ p ∈ s.frames, (frameSub m p).prioId = (frameSub m s.start).prioId := by
    refine forall_congr' fun p => ?_
    rw [frameIn_iff_of_mem_vectors hs]
    refine imp_congr_right fun hp => ?_
    obtain ⟨-, -, -, hsame, -⟩ := (linked_of_mem_vectors hs).mem hp
    exact (hashId_eq_iff hsame).trans eq_comm
  rw [FiledUnderOwnKeys, forall_mem_filed]
  exact forall₂_congr fun b _ => forall₂_congr fun s hs => hkey hs

/-- An urgent frame and another one of the same chip, function and port share a vector. -/
theorem not_filedUnderOwnKeys_urgent :
    ¬ FiledUnderOwnKeys
      (Mem.ofList (headerBytes 3 24 0x502 1 0 ++ headerBytes 1 24 0x502 1 0))
      CardsStatus.slotFive [(0, 48)] {} := by
  intro h
  have hfiled : filed (Mem.ofList (headerBytes 3 24 0x502 1 0 ++ headerBytes 1 24 0x502 1 0))
      CardsStatus.slotFive [(0, 48)] {} = [(8245, ⟨0, 48⟩)] := by
    decide +kernel
  have hkey := h (8245, ⟨0, 48⟩) (by rw [hfiled]; exact List.mem_cons_self) 24
    (.next .first (by decide +kernel))
  exact absurd hkey (by decide +kernel)

end M57Card.Uplink
