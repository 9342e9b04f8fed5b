import M57Card.Receive.Phases

/-!
# Frames sent and read back

Both encoders of M57 frames (`m57_send_cmd`, `m57.c`, lines 1396–1432, and `m57_send_resp`, lines
1449–1510) fill a header structure, swap its elements for the wire, allocate a send buffer with
the length field of the header and copy the header, the extended header and the payload into it.
`m57_send_cmd` stores the length before the swap and leaves the reserved field of the header as it
was on the stack; `m57_send_resp` clears the header first and stores the length after the swap.

This file follows the bytes from the copies into the send buffer to the parser of the other side.
A command comes back with its type, its priority, its code, its length and its payload, as long as
the length of the whole frame fits into the 16 bits of the length field. A data frame is not
collected as a body: it is consumed whole and passed through, or, when its own payload looks like
a request of the key tool, turned into a command.

## Main definitions

* `SendBuffer`, `SendBuffer.Fits`, `SendBuffer.sent` : the allocation, the copies, the bytes sent.
* `RespFrame.sendBuffer` : the send buffer of a frame.
* `cmdFrame` : the frame that `m57_send_cmd` builds.
* `RoundTrips`, `PassesThrough` : what the parser makes of the bytes sent.

## Main results

* `m57SwapHeaderElement_swapSend` : the receiver's swap undoes the sender's.
* `RespFrame.sent_sendBuffer` : the bytes in the send buffer are those of the frame.
* `roundTrips_frames` : both encoders against the parser.
-/

namespace M57Card.M57

open Net Bytes

/-! ### Send buffers -/

/-- A block from `calloc` and the copies made into it, in their order. -/
structure SendBuffer where
  size : ℕ
  copies : List (ℕ × List UInt8)
  deriving DecidableEq

namespace SendBuffer

/-- The block holds every byte that is copied into it. -/
def Fits (b : SendBuffer) : Prop := ∀ p ∈ b.copies, p.1 + p.2.length ≤ b.size

instance : DecidablePred Fits := fun b => inferInstanceAs (Decidable (∀ p ∈ b.copies, _))

/-- The memory from the start of the block on, after the copies. -/
def memory (b : SendBuffer) : List UInt8 :=
  b.copies.foldl (fun m p => memcpy m p.1 p.2) (List.replicate b.size 0)

/-- The bytes handed to `cl->send`: those of the block. -/
def sent (b : SendBuffer) : List UInt8 := b.memory.take b.size

end SendBuffer

/-- The send buffer of a frame. -/
def RespFrame.sendBuffer (f : RespFrame) : SendBuffer where
  size := f.header.len % 65536
  copies := [(0, f.header.bytes)] ++
    (match f.exHeader with
      | some ex => [(HEADER_LEN, ex.bytes)]
      | none => []) ++
    if f.payload = [] then []
    else [(HEADER_LEN + if f.exHeader.isSome then EX_HEADER_LEN else 0, f.payload)]

/-- The frame that `m57_send_cmd` builds for a command code and the `len` bytes at `args`; `resv` is
what the reserved field of the uninitialised header has. -/
def cmdFrame (prio sn resv code : ℕ) (args : List UInt8) : RespFrame where
  header := m57SwapSendHeaderElement
    { header := M57_SYNC_HEADER
      type := M57_CMD_TYPE
      prio := prio % 16
      number := sn % 256
      len := (HEADER_LEN + EX_HEADER_LEN + args.length) % 65536
      resv := resv % 65536 }
  exHeader := some { cmd := code % 65536, len := (EX_HEADER_LEN + args.length) % 65536 }
  payload := args

@[simp] theorem M57Header.length_bytes (h : M57Header) : h.bytes.length = 8 := rfl

@[simp] theorem M57ExHeader.length_bytes (h : M57ExHeader) : h.bytes.length = 8 := rfl

/-- A copy behind what has been copied, into a block of zeros. -/
theorem memcpy_replicate (done src : List UInt8) (n : ℕ) :
    memcpy (done ++ List.replicate (n - done.length) 0) done.length src =
      (done ++ src) ++ List.replicate (n - (done ++ src).length) 0 := by
  rw [memcpy, List.take_left, ← List.drop_drop, List.drop_left, List.drop_replicate,
    List.length_append, Nat.sub_sub]

namespace RespFrame

variable (f : RespFrame)

/-- The extended header on the wire; a data frame has none. -/
def exBytes : List UInt8 := (f.exHeader.map M57ExHeader.bytes).getD []

/-- The memory of the send buffer: the frame, and zeros behind it. -/
theorem memory_sendBuffer :
    f.sendBuffer.memory = (f.header.bytes ++ f.exBytes ++ f.payload) ++
      List.replicate (f.header.len % 65536 -
        (f.header.bytes ++ f.exBytes ++ f.payload).length) 0 := by
  obtain ⟨header, exHeader, payload⟩ := f
  have hfirst := memcpy_replicate [] header.bytes (header.len % 65536)
  rw [List.nil_append, List.length_nil, Nat.sub_zero, List.nil_append] at hfirst
  have hlast (done : List UInt8) :
      (if payload = [] then [] else [(done.length, payload)]).foldl
          (fun m p => memcpy m p.1 p.2)
          (done ++ List.replicate (header.len % 65536 - done.length) 0) =
        (done ++ payload) ++
          List.replicate (header.len % 65536 - (done ++ payload).length) 0 := by
    split_ifs with hempty
    · rw [hempty, List.append_nil, List.foldl_nil]
    · exact memcpy_replicate done payload _
  cases exHeader with
  | none =>
    have hend := hlast header.bytes
    simp only [SendBuffer.memory, sendBuffer, exBytes, Option.map_none, Option.getD_none,
      List.append_nil, List.foldl_append, List.foldl_cons, List.foldl_nil, hfirst]
    exact hend
  | some ex =>
    have hsecond : memcpy (header.bytes ++
        List.replicate (header.len % 65536 - header.bytes.length) 0) 8 ex.bytes = _ :=
      memcpy_replicate header.bytes ex.bytes _
    have hend := hlast (header.bytes ++ ex.bytes)
    simp only [SendBuffer.memory, sendBuffer, exBytes, Option.map_some, Option.getD_some,
      List.foldl_append, List.foldl_cons, List.foldl_nil, hfirst, HEADER_LEN]
    rw [hsecond]
    exact hend

/-- The bytes in the send buffer are those of the frame. -/
theorem sent_sendBuffer
    (hlen : f.header.len % 65536 ≤ (f.header.bytes ++ f.exBytes ++ f.payload).length) :
    f.sendBuffer.sent = f.bytes := by
  rw [SendBuffer.sent, memory_sendBuffer, RespFrame.bytes]
  exact List.take_append_of_le_length hlen

/-- The length field has the length of the frame, which is not cut to 16 bits. -/
def LenFits : Prop := f.header.len = 8 + f.exBytes.length + f.payload.length ∧ f.header.len < 65536

variable {f}

theorem LenFits.sent_eq (h : f.LenFits) :
    f.sendBuffer.sent = f.header.bytes ++ (f.exBytes ++ f.payload) := by
  have hlen : (f.header.bytes ++ (f.exBytes ++ f.payload)).length = f.header.len % 65536 := by
    rw [List.length_append, List.length_append, M57Header.length_bytes, Nat.mod_eq_of_lt h.2, h.1,
      Nat.add_assoc]
  rw [sent_sendBuffer f (by rw [List.append_assoc, hlen]), RespFrame.bytes, List.append_assoc]
  exact List.take_of_length_le hlen.le

/-- The block then holds every byte copied into it. -/
theorem LenFits.fits (h : f.LenFits) : f.sendBuffer.Fits := by
  obtain ⟨hlen, hlt⟩ := h
  obtain ⟨header, exHeader, payload⟩ := f
  dsimp only at hlen hlt
  rintro ⟨off, src⟩ hmem
  simp only [sendBuffer, List.mem_append, List.mem_singleton, Prod.mk.injEq,
    Nat.mod_eq_of_lt hlt] at hmem ⊢
  rcases hmem with (⟨rfl, rfl⟩ | hmem) | hmem
  · rw [M57Header.length_bytes]
    omega
  · cases exHeader with
    | none => cases hmem
    | some ex =>
      obtain ⟨rfl, rfl⟩ := Prod.mk.inj (List.mem_singleton.mp hmem)
      have hex : (RespFrame.exBytes ⟨header, some ex, payload⟩).length = 8 := rfl
      rw [M57ExHeader.length_bytes, HEADER_LEN]
      omega
  · split_ifs at hmem with hempty hsome
    · cases hmem
    · obtain ⟨ex, rfl⟩ := Option.isSome_iff_exists.mp hsome
      obtain ⟨rfl, rfl⟩ := Prod.mk.inj (List.mem_singleton.mp hmem)
      have hex : (RespFrame.exBytes ⟨header, some ex, src⟩).length = 8 := rfl
      rw [HEADER_LEN, EX_HEADER_LEN]
      omega
    · obtain ⟨rfl, rfl⟩ := Prod.mk.inj (List.mem_singleton.mp hmem)
      rw [HEADER_LEN]
      omega

end RespFrame

/-! ### Headers -/

/-- A header whose fields have the widths of the structure. -/
structure M57Header.InRange (h : M57Header) : Prop where
  header : h.header < 65536
  prio : h.prio < 16
  type : h.type < 16
  number : h.number < 256
  len : h.len < 65536
  resv : h.resv < 65536

section Headers

variable {h : M57Header}

theorem M57Header.InRange.swapSend (hr : h.InRange) : (m57SwapSendHeaderElement h).InRange where
  header := hr.header
  prio := Nat.mod_lt _ (by omega)
  type := Nat.mod_lt _ (by omega)
  number := Nat.mod_lt _ (by omega)
  len := hr.len
  resv := hr.resv

/-- The receiver's swap undoes the sender's. -/
theorem m57SwapHeaderElement_swapSend (hr : h.InRange) :
    m57SwapHeaderElement (m57SwapSendHeaderElement h) = h := by
  obtain ⟨header, prio, type, number, len, resv⟩ := h
  obtain ⟨-, hprio, htype, hnumber, -, -⟩ := hr
  simp only [m57SwapHeaderElement, m57SwapSendHeaderElement, M57Header.mk.injEq, true_and, and_true]
  dsimp only at hprio htype hnumber
  omega

/-- A header structure is read back from its bytes. -/
theorem readHeader_bytes_append (hr : h.InRange) (b : List UInt8) :
    readHeader (h.bytes ++ b) = h := by
  obtain ⟨header, prio, type, number, len, resv⟩ := h
  obtain ⟨hheader, hprio, htype, hnumber, hlen, hresv⟩ := hr
  simp only [readHeader, M57Header.bytes, u16, byteAt, le16, List.cons_append, List.nil_append,
    List.getD_cons_zero, List.getD_cons_succ, UInt8.toNat_ofNat', M57Header.mk.injEq]
  dsimp only at hheader hprio htype hnumber hlen hresv
  omega

/-- The fields that the parser looks at, in a frame that starts with a swapped header. -/
theorem M57Header.InRange.wire (hr : h.InRange) (b : List UInt8) :
    let buf := (m57SwapSendHeaderElement h).bytes ++ b
    u16 buf 0 = h.header ∧ byteAt buf 3 % 16 = h.type ∧ byteAt buf 3 / 16 = h.prio ∧
      u16 buf 4 = h.len := by
  intro buf
  have hread : readHeader buf = m57SwapSendHeaderElement h := readHeader_bytes_append hr.swapSend b
  have hswap := m57SwapHeaderElement_swapSend hr
  rw [← hread] at hswap
  refine ⟨congrArg M57Header.header hread, ?_, ?_, congrArg M57Header.len hread⟩
  · rw [← m57SwapHeaderElement_type, hswap]
  · rw [← m57SwapHeaderElement_prio, hswap]

end Headers

/-! ### Both encoders against the parser -/

/-- A command code and a payload come back from the bytes of a send buffer: the block holds what
is copied into it, the parser accepts the bytes with the type and the priority and announces what
lies behind the header, and the body of a command has the code, its length and the payload. -/
structure RoundTrips (type prio code : ℕ) (payload : List UInt8) (b : SendBuffer)
    (r : HeaderResult Ctx) : Prop where
  fits : b.Fits
  accepted : r.stat = true ∧ r.request.dataState = .normal
  dataType : r.request.dataType = type
  prio : r.request.prio = prio
  contentLength : r.request.contentLength = b.sent.length - HEADER_LEN
  body : type = M57_CMD_TYPE → u16 (b.sent.drop r.headLen) 0 = code ∧
    u16 (b.sent.drop r.headLen) 2 = EX_HEADER_LEN + payload.length ∧
    b.sent.drop (r.headLen + EX_HEADER_LEN) = payload

/-- A data frame is accepted with its priority and taken as one piece. One that does not look like
a request of the key tool keeps its type and announces no body; one that does becomes a command,
with the bytes from the reserved field on as its body. -/
structure PassesThrough (prio : ℕ) (b : SendBuffer) (req : NetTcpRequest)
    (r : HeaderResult Ctx) : Prop where
  fits : b.Fits
  accepted : r.stat = true ∧ r.request.dataState = .normal
  prio : r.request.prio = prio
  data : m57ParseKeytoolData b.sent b.sent.length = none →
    r.request.dataType = M57_DATA_TYPE ∧ r.request.contentLength = req.contentLength ∧
      r.headLen = b.sent.length
  keytool : m57ParseKeytoolData b.sent b.sent.length ≠ none →
    r.request.dataType = M57_CMD_TYPE ∧ r.headLen = 6 ∧
      r.request.contentLength = b.sent.length - r.headLen

section Encoders

variable {h : M57Header} {f : RespFrame}

/-- A command frame whose length fits into the length field comes back. -/
theorem roundTrips_of_wire (hr : h.InRange) (hheader : f.header = m57SwapSendHeaderElement h)
    (hsync : h.header = M57_SYNC_HEADER) (htype : h.type = M57_CMD_TYPE) {code : ℕ}
    (hcode : code < 65536) (hex : f.exHeader = some { cmd := code, len := 8 + f.payload.length })
    (hlen : f.LenFits) (state : NetTcpState) (req : NetTcpRequest) (c : Ctx) :
    RoundTrips M57_CMD_TYPE h.prio code f.payload f.sendBuffer
      (m57ParseHeader f.sendBuffer.sent state req c) := by
  obtain ⟨wsync, wtype, wprio, wlen⟩ := hr.wire (f.exBytes ++ f.payload)
  rw [← hheader, ← hlen.sent_eq] at wsync wtype wprio wlen
  have hex' : f.exBytes = le16 code ++ (le16 (8 + f.payload.length) ++ (le16 0 ++ le16 0)) := by
    rw [RespFrame.exBytes, hex]
    rfl
  have hflen : h.len = 16 + f.payload.length := by
    have hlen' := hlen.1
    rwa [hex', hheader] at hlen'
  have hsent : f.sendBuffer.sent.length = h.len := by
    rw [hlen.sent_eq, List.length_append, hex', hflen, M57Header.length_bytes, List.length_append]
    simp only [List.length_append, length_le16]
    omega
  have hkind : headerKind f.sendBuffer.sent = .cmd (h.len - HEADER_LEN) := by
    have hshort : ¬ f.sendBuffer.sent.length < HEADER_LEN := by
      rw [hsent, HEADER_LEN]
      omega
    have hle : HEADER_LEN ≤ h.len := by
      rw [HEADER_LEN]
      omega
    simp only [headerKind, hshort, wsync, hsync, wtype, htype, wlen, hle, if_true, if_false, ne_eq,
      not_true_eq_false]
  have hparse := m57ParseHeader_eq f.sendBuffer.sent state req c
  simp only [hkind] at hparse
  have hbody : f.sendBuffer.sent.drop HEADER_LEN = f.exBytes ++ f.payload := by
    rw [hlen.sent_eq]
    exact List.drop_left' (M57Header.length_bytes _)
  have hsecond : (f.exBytes ++ f.payload).drop 2 =
      le16 (8 + f.payload.length) ++ (le16 0 ++ le16 0 ++ f.payload) := by
    rw [hex']
    rfl
  have hthird : (f.exBytes ++ f.payload).drop EX_HEADER_LEN = f.payload := by
    rw [hex']
    rfl
  have hlt := hr.len
  rw [hparse]
  refine ⟨hlen.fits, ⟨rfl, rfl⟩, rfl, wprio, by rw [hsent]; rfl, fun _ => ?_⟩
  dsimp only
  rw [← List.drop_drop, hbody]
  refine ⟨?_, ?_, hthird⟩
  · rw [hex', List.append_assoc, u16_le16_append hcode]
  · rw [← Nat.add_zero 2, ← u16_drop, hsecond, u16_le16_append (by omega), EX_HEADER_LEN]

/-- A data frame whose length fits into the length field is taken as one piece. -/
theorem passesThrough_of_wire (hr : h.InRange) (hheader : f.header = m57SwapSendHeaderElement h)
    (hsync : h.header = M57_SYNC_HEADER) (htype : h.type = M57_DATA_TYPE)
    (hex : f.exHeader = none) (hlen : f.LenFits) (state : NetTcpState) (req : NetTcpRequest)
    (c : Ctx) :
    PassesThrough h.prio f.sendBuffer req (m57ParseHeader f.sendBuffer.sent state req c) := by
  obtain ⟨wsync, wtype, wprio, wlen⟩ := hr.wire (f.exBytes ++ f.payload)
  rw [← hheader, ← hlen.sent_eq] at wsync wtype wprio wlen
  have hex' : f.exBytes = [] := by
    rw [RespFrame.exBytes, hex]
    rfl
  have hflen : h.len = 8 + f.payload.length := by
    have hlen' := hlen.1
    rwa [hex', hheader] at hlen'
  have hsent : f.sendBuffer.sent.length = h.len := by
    rw [hlen.sent_eq, hex', hflen]
    exact List.length_append
  have hshort : ¬ h.len < HEADER_LEN := by
    rw [HEADER_LEN]
    omega
  have hne : ¬ M57_DATA_TYPE = M57_CMD_TYPE := by decide
  have hparse := m57ParseHeader_eq f.sendBuffer.sent state req c
  cases hkey : m57ParseKeytoolData f.sendBuffer.sent h.len with
  | none =>
    have hkind : headerKind f.sendBuffer.sent = .data h.len := by
      simp only [headerKind, wsync, hsync, wtype, htype, wlen, hne, hsent, hshort, lt_irrefl, hkey,
        if_true, if_false, ne_eq, not_true_eq_false]
    simp only [hkind] at hparse
    rw [hparse]
    refine ⟨hlen.fits, ⟨rfl, rfl⟩, wprio, fun _ => ⟨rfl, rfl, hsent.symm⟩, fun hsome => ?_⟩
    rw [hsent, hkey] at hsome
    exact absurd rfl hsome
  | some code =>
    have hkind : headerKind f.sendBuffer.sent = .keytool code (h.len - 6) := by
      simp only [headerKind, wsync, hsync, wtype, htype, wlen, hne, hsent, hshort, lt_irrefl, hkey,
        if_true, if_false, ne_eq, not_true_eq_false]
    simp only [hkind] at hparse
    rw [hparse]
    refine ⟨hlen.fits, ⟨rfl, rfl⟩, wprio, fun hnone => ?_, fun _ => ⟨rfl, rfl, ?_⟩⟩
    · rw [hsent, hkey] at hnone
      cases hnone
    · rw [hsent]
      rfl

end Encoders

/-- **Frames come back as they were sent.** As long as the length of a frame fits into its length
field, a command of either encoder comes back with its type, its priority, its code, its length
and its payload, and a data frame is taken as one piece, with its priority; the send buffers hold
what is copied into them. -/
theorem roundTrips_frames {prio code : ℕ} (hprio : prio < 16) (hcode : code < 65536) (sn resv : ℕ)
    (payload : List UInt8) (state : NetTcpState) (req : NetTcpRequest) (c : Ctx) :
    (payload.length + 16 < 65536 →
      ∀ f ∈ [cmdFrame prio sn resv code payload, respFrame false prio sn code payload],
        RoundTrips M57_CMD_TYPE prio code payload f.sendBuffer
          (m57ParseHeader f.sendBuffer.sent state req c)) ∧
    (payload.length + 8 < 65536 →
      PassesThrough prio (respFrame true prio sn code payload).sendBuffer req
        (m57ParseHeader (respFrame true prio sn code payload).sendBuffer.sent state req c)) := by
  have hmod : prio % 16 = prio := Nat.mod_eq_of_lt hprio
  have hrange (type len resv' : ℕ) (htype : type < 16) :
      M57Header.InRange ⟨M57_SYNC_HEADER, prio % 16, type, sn % 256, len % 65536, resv' % 65536⟩ :=
    ⟨show 0x5751 < 65536 by decide, Nat.mod_lt _ (by omega), htype, Nat.mod_lt _ (by omega),
      Nat.mod_lt _ (by omega), Nat.mod_lt _ (by omega)⟩
  refine ⟨fun hlen => ?_, fun hlen => ?_⟩
  · have hex : (8 + payload.length) % 65536 = 8 + payload.length := Nat.mod_eq_of_lt (by omega)
    have hlenFits : (8 + 8 + payload.length) % 65536 = 8 + 8 + payload.length ∧
        (8 + 8 + payload.length) % 65536 < 65536 :=
      ⟨Nat.mod_eq_of_lt (by omega), Nat.mod_lt _ (by omega)⟩
    have hcmd := roundTrips_of_wire (hrange M57_CMD_TYPE (8 + 8 + payload.length) resv (by decide))
      (f := cmdFrame prio sn resv code payload) rfl rfl rfl hcode
      (by simp only [cmdFrame, EX_HEADER_LEN, Nat.mod_eq_of_lt hcode, hex]) hlenFits state req c
    have hresp := roundTrips_of_wire (hrange M57_CMD_TYPE (8 + 8 + payload.length) 0 (by decide))
      (f := respFrame false prio sn code payload) rfl rfl rfl hcode
      (by simp [respFrame, EX_HEADER_LEN, Nat.mod_eq_of_lt hcode, hex]) hlenFits state req c
    rw [hmod] at hcmd hresp
    rintro f hf
    rcases List.mem_cons.mp hf with rfl | hf
    · exact hcmd
    · obtain rfl := List.mem_singleton.mp hf
      exact hresp
  · have hlenFits : (8 + 0 + payload.length) % 65536 = 8 + 0 + payload.length ∧
        (8 + 0 + payload.length) % 65536 < 65536 :=
      ⟨Nat.mod_eq_of_lt (by omega), Nat.mod_lt _ (by omega)⟩
    have hdata := passesThrough_of_wire
      (hrange M57_DATA_TYPE (8 + 0 + payload.length) 0 (by decide))
      (f := respFrame true prio sn code payload) rfl rfl rfl rfl hlenFits state req c
    rwa [hmod] at hdata

/-- An answer with a payload of two bytes, in a command and in a data frame. -/
theorem roundTrips_frames_two :
    RoundTrips M57_CMD_TYPE 3 2 [7, 9] (respFrame false 3 0 2 [7, 9]).sendBuffer
        (m57ParseHeader (respFrame false 3 0 2 [7, 9]).sendBuffer.sent .header {}
          (.start .reliable fun _ => false)) ∧
      PassesThrough 3 (respFrame true 3 0 2 [7, 9]).sendBuffer {}
        (m57ParseHeader (respFrame true 3 0 2 [7, 9]).sendBuffer.sent .header {}
          (.start .reliable fun _ => false)) := by
  have h := @roundTrips_frames 3 2 (by decide) (by decide) 0 0 [7, 9] .header {}
    (.start .reliable fun _ => false)
  exact ⟨h.1 (by decide) _ (List.mem_cons_of_mem _ List.mem_cons_self), h.2 (by decide)⟩

/-- A data frame with one byte of payload announces no body: the parser passes it through. -/
theorem not_roundTrips_data_frame :
    ¬ RoundTrips M57_DATA_TYPE 1 1 [0] (respFrame true 1 0 1 [0]).sendBuffer
      (m57ParseHeader (respFrame true 1 0 1 [0]).sendBuffer.sent .header {}
        (.start .reliable fun _ => false)) := by
  intro h
  have hlen := h.contentLength
  revert hlen
  decide

end M57Card.M57
