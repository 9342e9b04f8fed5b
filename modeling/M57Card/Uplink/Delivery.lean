import Mathlib.Data.List.Sort
import M57Card.Uplink.BadFrames
import M57Card.Uplink.Sender

/-!
# What a client gets of a vector

The router and the sender find frames by different rules: the router skips any filler in a block and
takes any length up to 2048, the sender looks 32 bytes ahead and takes lengths from 24 on. A client
gets bytes from behind its vector if and only if the sender can follow all frames of the vector and
then meets, behind a filler of 24 or 32 bytes, the frame that has ended the run (`isolated_iff`). It
gets exactly the frames of the vector, and the sender returns the length of the vector, if and only
if the sender can follow all of them and the filler at the end of the vector is shorter than a
header, or the frame behind it is too short to be sent (`delivers_iff`).

## Main definitions

* `Isolated` : only frames of a vector are sent for it.
* `Delivers` : all frames of a vector are sent for it, each once and in their order.

## Main results

* `isolated_filed_iff` : when the vectors of a call are isolated.
* `delivers_filed_iff` : when they are delivered.
-/

namespace M57Card.Uplink

open M57

/-- Whatever the socket does, what is sent for a vector lies inside it, and is frames of it. -/
def Isolated (m : Mem) (v : Iovec) : Prop :=
  ∀ socket, ∀ r ∈ (dataSendPackage m socket v.base v.len).sent,
    (v.base ≤ r.1 ∧ r.1 + r.2 ≤ v.base + v.len) ∧ FrameIn m v r.1 ∧ r = frameRange m r.1

/-- When every send succeeds, the frames of a vector are sent, each once, in their order and without
filler, and the result is the length of the vector. -/
def Delivers (m : Mem) (v : Iovec) : Prop :=
  ∀ socket, FullSends socket → ∃ ps : List ℕ, ps.Pairwise (· < ·) ∧ (∀ p, p ∈ ps ↔ FrameIn m v p) ∧
    dataSendPackage m socket v.base v.len = ⟨ps.map (frameRange m), some v.len⟩

section Vector

variable {m : Mem} {cards : CardsStatus} {header len : ℕ} {s : Segment}

/-- A socket that always takes everything. -/
theorem fullSends_sent : FullSends fun _ n => [.sent n] := by
  intro i n
  cases n with
  | zero => rfl
  | succ n => simp [tcpSendDataToClient, tcpSendLoop]

/-- The frames that the sender can follow take at least a header each. -/
theorem Reads.length_le {sub : NetSub} {lim e stop : ℕ} {qs : List ℕ} (hreads : Reads m e qs)
    (h : Linked m cards lim sub e qs stop) : e + HPA_HEADER_LEN * qs.length ≤ stop := by
  induction h with
  | nil e => exact Nat.le_refl e
  | @cons e q stop qs hq hrest ih =>
    obtain ⟨-, hmin, hreads⟩ := hreads
    have hle := nextHeader_le (nextFrame_eq_inr hq).2.1
    have hrec := ih hreads
    rw [List.length_cons, Nat.mul_succ]
    omega

theorem start_mem_frames (hs : s ∈ vectors m cards header len) : s.start ∈ s.frames := by
  obtain ⟨-, -, -, heq, -⟩ := eq_segmentAt_of_mem_vectors hs
  rw [heq]
  exact List.mem_cons_self

/-- What follows behind the frames of a vector where there is room for a header. -/
theorem stop_of_mem_vectors (hs : s ∈ vectors m cards header len) :
    s.stop ≤ s.limit ∧ (s.stop + HPA_HEADER_LEN ≤ s.limit →
      nextHeader m (header + len) s.stop = some s.limit ∧
        frameLen m s.limit ≤ HPA_MAXDATA_LEN) := by
  obtain ⟨-, hlt, hstart, heq, -⟩ := eq_segmentAt_of_mem_vectors hs
  have hspec := (segmentAt_spec hstart hlt).2
  have hheader : 0 < HPA_HEADER_LEN := by decide
  rw [← heq] at hspec
  cases hend : s.ending with
  | unknown q =>
    simp only [hend] at hspec
    have hlimit : s.limit = q := by rw [Segment.limit, hend]
    rw [hlimit]
    exact ⟨(nextHeader_le hspec.2.1).1, fun _ => ⟨hspec.2.1, hspec.2.2.1⟩⟩
  | change q =>
    simp only [hend] at hspec
    have hlimit : s.limit = q := by rw [Segment.limit, hend]
    rw [hlimit]
    exact ⟨(nextHeader_le hspec.2.1).1, fun _ => ⟨hspec.2.1, hspec.2.2.2.2.1⟩⟩
  | _ =>
    have hlimit : s.limit = s.stop := by rw [Segment.limit, hend]
    rw [hlimit]
    exact ⟨Nat.le_refl _, fun hroom => by omega⟩

/-- The sender on a vector that its frames fill up to less than a header. -/
theorem dataSendPackage_of_end (hs : s ∈ vectors m cards header len)
    {socket : ℕ → ℕ → List SendResult} (hsocket : FullSends socket)
    (hreads : Reads m s.start s.frames) (hend : s.limit < s.stop + HPA_HEADER_LEN) :
    dataSendPackage m socket s.start s.size = ⟨s.frames.map (frameRange m), some s.size⟩ := by
  have hlinked := linked_of_mem_vectors hs
  have hfirst := start_mem_frames hs
  have hstop := (stop_of_mem_vectors hs).1
  have hlimit := start_add_size hs
  have hlen : s.start + 24 * s.frames.length ≤ s.stop := hreads.length_le hlinked
  have hheader : HPA_HEADER_LEN = 24 := rfl
  have hpos := List.length_pos_of_mem hfirst
  obtain ⟨n, hn⟩ : ∃ n, s.size = n + s.frames.length := ⟨s.size - s.frames.length, by omega⟩
  have hloop := sendLoop_of_reads_end hsocket hlinked hreads (List.ne_nil_of_mem hfirst)
    (hstop.trans hlimit.ge) (hlimit.trans_lt hend) n (s := { pdata := s.start }) rfl
    (by dsimp only; omega)
  rw [← hn] at hloop
  rw [dataSendPackage, if_neg (by omega), hloop]
  rfl

/-- The sender on a vector with more filler behind its frames. -/
theorem dataSendPackage_of_filler (hs : s ∈ vectors m cards header len)
    {socket : ℕ → ℕ → List SendResult} (hsocket : FullSends socket)
    (hreads : Reads m s.start s.frames) (hroom : s.stop + HPA_HEADER_LEN ≤ s.limit) :
    dataSendPackage m socket s.start s.size =
      if s.stop + 32 < s.limit then ⟨s.frames.map (frameRange m), some (s.stop - s.start)⟩
      else if frameLen m s.limit < HPA_HEADER_LEN then
        ⟨s.frames.map (frameRange m), some s.size⟩
      else ⟨s.frames.map (frameRange m) ++ [frameRange m s.limit], some s.size⟩ := by
  have hlinked := linked_of_mem_vectors hs
  obtain ⟨hnext, hmax⟩ := (stop_of_mem_vectors hs).2 hroom
  have hlimit := start_add_size hs
  have hlen : s.start + 24 * s.frames.length ≤ s.stop := hreads.length_le hlinked
  have hheader : HPA_HEADER_LEN = 24 := rfl
  obtain ⟨n, hn⟩ : ∃ n, s.size = n + 1 + s.frames.length :=
    ⟨s.size - s.frames.length - 1, by omega⟩
  rw [← hlimit] at hroom hnext hmax ⊢
  obtain ⟨s', hpdata, hsent, hdist, hloop⟩ := sendLoop_of_reads hsocket hlinked hreads hroom (n + 1)
    (s := { pdata := s.start }) rfl (by dsimp only; omega)
  have hlast := sendLoop_last hsocket hnext hmax n hpdata hdist
  rw [← hn, hlast, hsent] at hloop
  rw [dataSendPackage, if_neg (by omega), hloop]
  rfl

/-- What is sent for a vector, whatever the socket does. -/
theorem sent_dataSendPackage (hs : s ∈ vectors m cards header len)
    (socket : ℕ → ℕ → List SendResult) :
    (∃ k ≤ s.frames.length, (dataSendPackage m socket s.start s.size).sent =
        (s.frames.take k).map (frameRange m) ∧ (k = s.frames.length → Reads m s.start s.frames)) ∨
      Reads m s.start s.frames ∧ Overruns m s.stop s.limit ∧
        (dataSendPackage m socket s.start s.size).sent =
          s.frames.map (frameRange m) ++ [frameRange m s.limit] := by
  have hlinked := linked_of_mem_vectors hs
  have hnext := (stop_of_mem_vectors hs).2
  have hlimit := start_add_size hs
  have hne := List.ne_nil_of_mem (start_mem_frames hs)
  rw [dataSendPackage]
  split_ifs with hshort
  · refine .inl ⟨0, Nat.zero_le _, rfl, fun hk => ?_⟩
    exact absurd (List.eq_nil_of_length_eq_zero hk.symm) hne
  · have hsent := sent_sendLoop socket s.start s.size hlinked (n := s.size)
      (s := { pdata := s.start }) rfl
      (fun hroom => by rw [hlimit] at hroom ⊢; exact (hnext hroom).1)
      (fun hnil => absurd hnil hne)
    rw [hlimit] at hsent
    exact hsent

/-- **A vector is isolated** if and only if the sender cannot follow all of its frames, or does not
go on to the frame behind it. -/
theorem isolated_iff (hs : s ∈ vectors m cards header len) :
    Isolated m (s.entry m).2 ↔ ¬ (Reads m s.start s.frames ∧ Overruns m s.stop s.limit) := by
  have hlinked := linked_of_mem_vectors hs
  have hstop := (stop_of_mem_vectors hs).1
  have hlimit := start_add_size hs
  have hheader : 0 < HPA_HEADER_LEN := by decide
  constructor
  · rintro h ⟨hreads, hover⟩
    have hmin := hover.min
    have hsent := dataSendPackage_of_filler hs fullSends_sent hreads hover.header
    rw [if_neg (not_lt.mpr hover.near), if_neg (not_lt.mpr hmin)] at hsent
    have hin := (h (fun _ n => [.sent n]) (frameRange m s.limit) (by
      change _ ∈ (dataSendPackage m _ s.start s.size).sent
      rw [hsent]
      exact List.mem_append_right _ (List.mem_singleton_self _))).1.2
    change s.limit + frameLen m s.limit ≤ s.start + s.size at hin
    omega
  · rintro h socket r hr
    change r ∈ (dataSendPackage m socket s.start s.size).sent at hr
    rcases sent_dataSendPackage hs socket with ⟨k, -, hsent, -⟩ | ⟨hreads, hover, -⟩
    · rw [hsent] at hr
      obtain ⟨p, hp, rfl⟩ := List.mem_map.mp hr
      have hmem := List.mem_of_mem_take hp
      obtain ⟨-, -, -, -, hle, hpstop⟩ := hlinked.mem hmem
      refine ⟨⟨hle, ?_⟩, (frameIn_iff_of_mem_vectors hs p).mpr hmem, rfl⟩
      change p + frameLen m p ≤ s.start + s.size
      omega
    · exact absurd ⟨hreads, hover⟩ h

/-- **A vector is delivered** if and only if the sender can follow all of its frames, and the filler
behind them is shorter than a header, or at most 32 bytes long in front of a frame that is too short
to be sent. -/
theorem delivers_iff (hs : s ∈ vectors m cards header len) :
    Delivers m (s.entry m).2 ↔
      Reads m s.start s.frames ∧ (s.limit < s.stop + HPA_HEADER_LEN ∨
        s.limit ≤ s.stop + 32 ∧ frameLen m s.limit < HPA_HEADER_LEN) := by
  have hsorted := pairwise_frames_of_mem_vectors hs
  have hlimit := start_add_size hs
  have hframes := frameIn_iff_of_mem_vectors hs
  constructor
  · intro h
    obtain ⟨ps, hps, hmem, hsend⟩ := h _ fullSends_sent
    obtain rfl : ps = s.frames :=
      hps.eq_of_mem_iff hsorted fun p => (hmem p).trans (hframes p)
    change dataSendPackage m _ s.start s.size = ⟨_, some (s.size : ℤ)⟩ at hsend
    have hreads : Reads m s.start s.frames := by
      rcases sent_dataSendPackage hs (fun _ n => [.sent n]) with ⟨k, hk, hsent, hreads⟩ |
        ⟨hreads, -, -⟩
      · refine hreads (le_antisymm hk ?_)
        have hlen := congrArg List.length ((congrArg Sent.sent hsend).symm.trans hsent)
        rw [List.length_map, List.length_map, List.length_take] at hlen
        omega
      · exact hreads
    refine ⟨hreads, ?_⟩
    by_contra hcon
    obtain ⟨hroom, hlong⟩ := not_or.mp hcon
    have hheader : 0 < HPA_HEADER_LEN := by decide
    have hfiller := dataSendPackage_of_filler hs fullSends_sent hreads (not_lt.mp hroom)
    rw [hsend] at hfiller
    split_ifs at hfiller with hfar hshort
    · have hret := Option.some.inj (congrArg Sent.ret hfiller)
      omega
    · exact hlong ⟨not_lt.mp hfar, hshort⟩
    · have hlen := congrArg (List.length ∘ Sent.sent) hfiller
      dsimp only [Function.comp_apply] at hlen
      rw [List.length_append, List.length_singleton] at hlen
      omega
  · rintro ⟨hreads, hend⟩ socket hsocket
    refine ⟨s.frames, hsorted, fun p => (hframes p).symm, ?_⟩
    change dataSendPackage m socket s.start s.size = ⟨_, some (s.size : ℤ)⟩
    by_cases hroom : s.stop + HPA_HEADER_LEN ≤ s.limit
    · rcases hend with hshort | ⟨hnear, hshort⟩
      · exact absurd hroom (not_le.mpr hshort)
      · rw [dataSendPackage_of_filler hs hsocket hreads hroom, if_neg (not_lt.mpr hnear),
          if_pos hshort]
    · exact dataSendPackage_of_end hs hsocket hreads (not_le.mp hroom)

end Vector

section Calls

variable (m : Mem) (cards : CardsStatus) (blocks : List (ℕ × ℕ)) (u : Channel)

/-- **Sender isolation**: only bytes of a vector are sent for it, for every vector that a call of
the router files, if and only if behind no vector whose frames the sender can follow there is, after
a filler of 24 to 32 bytes, another frame of at least 24 bytes. -/
theorem isolated_filed_iff :
    (∀ e ∈ filed m cards blocks u, Isolated m e.2) ↔
      ∀ b ∈ blocks, ∀ s ∈ vectors m cards b.1 b.2,
        ¬ (Reads m s.start s.frames ∧ Overruns m s.stop s.limit) := by
  rw [forall_mem_filed]
  exact forall₂_congr fun b _ => forall₂_congr fun s hs => isolated_iff hs

/-- Two frames of different functions with twenty-four bytes of filler between them: the second one
is sent to the clients of the first. -/
theorem not_isolated_filler :
    ¬ ∀ e ∈ filed (Mem.ofList
        (headerBytes 1 24 0x502 1 0 ++ List.replicate 24 0 ++ headerBytes 1 24 0x502 2 0))
        CardsStatus.slotFive [(0, 72)] {}, Isolated (Mem.ofList
        (headerBytes 1 24 0x502 1 0 ++ List.replicate 24 0 ++ headerBytes 1 24 0x502 2 0)) e.2 := by
  intro h
  have hfiled : filed (Mem.ofList
      (headerBytes 1 24 0x502 1 0 ++ List.replicate 24 0 ++ headerBytes 1 24 0x502 2 0))
      CardsStatus.slotFive [(0, 72)] {} = [(53, ⟨0, 48⟩), (85, ⟨48, 24⟩)] := by
    decide +kernel
  have hsent : (dataSendPackage (Mem.ofList
      (headerBytes 1 24 0x502 1 0 ++ List.replicate 24 0 ++ headerBytes 1 24 0x502 2 0))
      (fun _ n => [.sent n]) 0 48).sent = [(0, 24), (48, 24)] := by
    decide +kernel
  have hin := h (53, ⟨0, 48⟩) (by rw [hfiled]; exact List.mem_cons_self) (fun _ n => [.sent n])
    (48, 24)
  rw [hsent] at hin
  exact absurd (hin (List.mem_cons_of_mem _ List.mem_cons_self)).1.2 (by decide)

/-- **Router and sender agree** on the frames of the vectors that a call of the router files, if and
only if the sender can follow the frames of each, and the filler behind them is shorter than a
header or at most 32 bytes long in front of a frame that is too short to be sent. -/
theorem delivers_filed_iff :
    (∀ e ∈ filed m cards blocks u, Delivers m e.2) ↔
      ∀ b ∈ blocks, ∀ s ∈ vectors m cards b.1 b.2,
        Reads m s.start s.frames ∧ (s.limit < s.stop + HPA_HEADER_LEN ∨
          s.limit ≤ s.stop + 32 ∧ frameLen m s.limit < HPA_HEADER_LEN) := by
  rw [forall_mem_filed]
  exact forall₂_congr fun b _ => forall₂_congr fun s hs => delivers_iff hs

/-- Two frames with equal parameters and forty bytes of filler between them: the second one is not
sent. -/
theorem not_delivers_filler :
    ¬ ∀ e ∈ filed (Mem.ofList
        (headerBytes 1 24 0x502 1 0 ++ List.replicate 40 0 ++ headerBytes 1 24 0x502 1 0))
        CardsStatus.slotFive [(0, 88)] {}, Delivers (Mem.ofList
        (headerBytes 1 24 0x502 1 0 ++ List.replicate 40 0 ++ headerBytes 1 24 0x502 1 0)) e.2 := by
  intro h
  have hfiled : filed (Mem.ofList
      (headerBytes 1 24 0x502 1 0 ++ List.replicate 40 0 ++ headerBytes 1 24 0x502 1 0))
      CardsStatus.slotFive [(0, 88)] {} = [(53, ⟨0, 88⟩)] := by
    decide +kernel
  have hsent : dataSendPackage (Mem.ofList
      (headerBytes 1 24 0x502 1 0 ++ List.replicate 40 0 ++ headerBytes 1 24 0x502 1 0))
      (fun _ n => [.sent n]) 0 88 = ⟨[(0, 24)], some 24⟩ := by
    decide +kernel
  obtain ⟨ps, -, -, hret⟩ := h (53, ⟨0, 88⟩) (by rw [hfiled]; exact List.mem_cons_self) _
    fullSends_sent
  rw [hsent] at hret
  have hlen : (some 24 : Option ℤ) = some 88 := congrArg Sent.ret hret
  exact absurd hlen (by decide)

end Calls

end M57Card.Uplink
