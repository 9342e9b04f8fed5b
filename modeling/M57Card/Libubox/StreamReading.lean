import M57Card.Libubox.StreamBuffers

/-!
# What a stream reads

The event loop reads a descriptor into the chain `r` of its stream until the descriptor has no more,
and the user of the stream looks at the first buffer of the chain and consumes bytes of it
(`ustream.c`, lines 204–361, `ustream-fd.c`, lines 45–82). A callback of the user may run between
any two iterations of the loop. When the chain has no room the stream is blocked, until something is
consumed.

## Main definitions

* `Ustream`, `ustreamInitDefaults`.
* `ustreamConsume`, `ustreamReserve`, `ustreamFillRead`, `ustreamGetReadBuf`, `ustreamRead`.
* `ustreamFdReadIter` : an iteration of the loop of `ustream_fd_read_pending`.

## Main results

* `ustreamConsume_spec` : the consumed bytes are the first ones, and the others stay in order.
* `ustreamFdReadIter_spec` : the bytes that are read come behind the others.
* `ustreamRead_spec` : a copy out of the stream takes the first bytes, however they are divided
  among the buffers.
-/

namespace M57Card.Libubox

/-- `struct ustream`; the two bits of `read_blocked` are two fields. -/
structure Ustream where
  r : UstreamBufList
  w : UstreamBufList
  stringData : Bool := false
  writeError : Bool := false
  eof : Bool := false
  blockedUser : Bool := false
  blockedFull : Bool := false

/-- `DEFAULT_SET`. -/
def defaultSet (f d : ℤ) : ℤ := if f = 0 then d else f

/-- `ustream_init_defaults`. -/
def ustreamInitDefaults (s : Ustream) : Ustream where
  r := { s.r with
    minBuffers := defaultSet s.r.minBuffers 1
    maxBuffers := defaultSet s.r.maxBuffers 1
    bufferLen := if s.r.bufferLen = 0 then 32768 else s.r.bufferLen
    buffers := 0
    dataBytes := 0 }
  w := { s.w with
    minBuffers := defaultSet s.w.minBuffers 2
    maxBuffers := defaultSet s.w.maxBuffers (-1)
    bufferLen := if s.w.bufferLen = 0 then 32768 else s.w.bufferLen
    buffers := 0
    dataBytes := 0 }
  stringData := s.stringData

/-! ### Consuming -/

/-- The loop of `ustream_consume`. There is no result when the bytes of the chain are fewer. -/
def consumeLoop : ℕ → ℕ → UstreamBufList → Option UstreamBufList
  | 0, _, _ => none
  | fuel + 1, len, l =>
    match l.chain with
    | [] => none
    | buf :: next =>
      let bufLen := buf.tail - buf.data
      if len < bufLen then
        some (l.setHead { buf with data := buf.data + len })
      else
        let l := ustreamFreeBuf l buf
        if len - bufLen = 0 then
          some l
        else if next = [] then
          none
        else
          consumeLoop fuel (len - bufLen) l

/-- `ustream_consume`; no result is an `abort`. -/
def ustreamConsume (len : ℕ) (s : Ustream) : Option Ustream :=
  if len = 0 then
    some s
  else
    let l := { s.r with dataBytes := s.r.dataBytes - len }
    if l.dataBytes < 0 then
      none
    else
      (consumeLoop len len l).map fun l => { s with r := l, blockedFull := false }

/-! ### Filling -/

/-- `ustream_reserve`, with `maxlen`. -/
def ustreamReserve (malloc : Option Mem) (len : ℕ) (s : Ustream) : Ustream × ℕ :=
  match ustreamPrepareBuf s.stringData malloc s.r len with
  | (false, l) => ({ s with r := l, blockedFull := true }, 0)
  | (true, l) => ({ s with r := l }, (l.rest.head?.map fun buf => buf.len - buf.tail).getD 0)

/-- The loop of `ustream_fill_read`, on the buffers before and from `data_tail` on. -/
def fillLoop (fix : Bool) : ℕ → List UstreamBuf → List UstreamBuf →
    Option (List UstreamBuf × List UstreamBuf)
  | _, _, [] => none
  | len, filled, buf :: next =>
    let maxlen := min len (buf.len - buf.tail)
    let buf := { buf with tail := buf.tail + maxlen }
    let buf := if fix then ustreamFixupString buf else buf
    if len - maxlen = 0 then
      some (filled, buf :: next)
    else
      fillLoop fix (len - maxlen) (filled ++ [buf]) next

/-- `ustream_fill_read` without the callback; no result is an `abort`. -/
def ustreamFillRead (len : ℕ) (s : Ustream) : Option Ustream :=
  (fillLoop s.stringData len s.r.filled s.r.rest).map fun p =>
    { s with r := { s.r with filled := p.1, rest := p.2, dataBytes := s.r.dataBytes + len } }

/-- What `read` gives: bytes, of which it takes as many as fit, no bytes at the end of the file, or
an error. -/
inductive ReadResult where
  | got (bytes : List UInt8)
  | eintr
  | eagain
  | err
  deriving DecidableEq

/-- The bytes `src` are read to the place where `ustream_reserve` has found room. -/
def writeDataTail (src : List UInt8) (l : UstreamBufList) : UstreamBufList :=
  match l.rest with
  | [] => l
  | buf :: _ =>
      l.setDataTail { buf with mem := buf.mem.write buf.tail (Mem.ofList src) 0 src.length }

/-- An iteration of the loop of `ustream_fd_read_pending`, with the bytes that it has read. -/
def ustreamFdReadIter (res : ReadResult) (malloc : Option Mem) (s : Ustream) :
    Option (Ustream × List UInt8) :=
  if s.blockedUser || s.blockedFull then
    some (s, [])
  else
    let (s, buflen) := ustreamReserve malloc 1 s
    if s.blockedFull then
      some (s, [])
    else
      match res with
      | .eintr | .eagain => some (s, [])
      | .err => some ({ s with eof := true }, [])
      | .got bytes =>
        let src := bytes.take buflen
        if src = [] then
          some ({ s with eof := true }, [])
        else
          (ustreamFillRead src.length { s with r := writeDataTail src s.r }).map (·, src)

/-! ### Looking -/

/-- `ustream_get_read_buf`: the bytes in the first buffer, none for a null pointer. -/
def ustreamGetReadBuf (s : Ustream) : List UInt8 := (s.r.chain.head?.map UstreamBuf.bytes).getD []

/-- `ustream_read`, with the copied bytes. -/
def ustreamRead : ℕ → ℕ → Ustream → Option (Ustream × List UInt8)
  | 0, _, _ => none
  | fuel + 1, buflen, s =>
    let chunk := (ustreamGetReadBuf s).take buflen
    if ustreamGetReadBuf s = [] then
      some (s, [])
    else
      (ustreamConsume chunk.length s).bind fun s =>
        if chunk.length < buflen then
          (ustreamRead fuel (buflen - chunk.length) s).map fun p => (p.1, chunk ++ p.2)
        else
          some (s, chunk)

/-! ### Consuming takes the first bytes -/

section Consume

open UstreamBufList

variable {fix : Bool} {l : UstreamBufList}

/-- **The loop of `ustream_consume`** takes the first `len` bytes out of a chain that has so
many. -/
theorem consumeLoop_spec (fuel : ℕ) {len : ℕ} (h : l.Ok fix) (hpos : 0 < len)
    (hle : len ≤ l.bytes.length) (hfuel : len ≤ fuel) :
    ∃ l', consumeLoop fuel len l = some l' ∧ l'.Ok fix ∧ l'.bytes = l.bytes.drop len ∧
      SameBounds l l' := by
  induction fuel generalizing len l with
  | zero => omega
  | succ fuel ih =>
    have hne : l.bytes ≠ [] := List.ne_nil_of_length_pos (by omega)
    rw [consumeLoop]
    cases hc : l.chain with
    | nil => exact absurd (by rw [UstreamBufList.bytes, hc]; rfl) hne
    | cons buf next =>
      have hlen := UstreamBuf.length_bytes buf
      have hhead := List.length_pos_iff.mpr (h.head_ne_nil hc hne)
      have hbytes := bytes_of_chain hc
      have hok := (h.ok buf (hc ▸ List.mem_cons_self)).1
      dsimp only
      rw [← hlen]
      by_cases hlt : len < buf.bytes.length
      · rw [if_pos hlt]
        refine ⟨_, rfl, h.setHead hc (hok.skip hlt) rfl rfl, ?_, ⟨rfl, rfl, rfl, rfl⟩⟩
        rw [bytes_of_chain (chain_setHead hc _), UstreamBuf.bytes_skip, hbytes,
          List.drop_append_of_le_length hlt.le]
      · obtain ⟨hfree, more, hchain, hmore⟩ := h.freeBuf hc
        have hfreed : (ustreamFreeBuf l buf).bytes = next.flatMap UstreamBuf.bytes := by
          rw [UstreamBufList.bytes, hchain, List.flatMap_append, hmore, List.append_nil]
        have hdrop : l.bytes.drop len =
            (ustreamFreeBuf l buf).bytes.drop (len - buf.bytes.length) := by
          rw [hbytes, hfreed, List.drop_append, List.drop_eq_nil_of_le (not_lt.mp hlt),
            List.nil_append]
        have hlength := congrArg List.length hbytes
        rw [List.length_append, ← hfreed] at hlength
        have hbounds := sameBounds_freeBuf l buf
        rw [if_neg hlt, hdrop]
        by_cases hzero : len - buf.bytes.length = 0
        · rw [if_pos hzero, hzero]
          exact ⟨_, rfl, hfree, rfl, hbounds⟩
        · have hnext : next ≠ [] := by
            rintro rfl
            rw [hfreed, List.flatMap_nil, List.length_nil] at hlength
            omega
          rw [if_neg hzero, if_neg hnext]
          obtain ⟨l', hl', hok', hbytes', hbounds'⟩ :=
            ih hfree (Nat.pos_of_ne_zero hzero) (by omega) (by omega)
          exact ⟨l', hl', hok', hbytes', hbounds.trans hbounds'⟩

end Consume

/-- The invariant of what a stream reads. -/
structure Ustream.ReadOk (s : Ustream) : Prop where
  ok : s.r.Ok s.stringData
  dataBytes : s.r.dataBytes = s.r.bytes.length

/-- The two streams agree in all but what is read. -/
structure SameButRead (s s' : Ustream) : Prop where
  w : s'.w = s.w
  stringData : s'.stringData = s.stringData
  writeError : s'.writeError = s.writeError
  blockedUser : s'.blockedUser = s.blockedUser
  minBuffers : s'.r.minBuffers = s.r.minBuffers
  maxBuffers : s'.r.maxBuffers = s.r.maxBuffers
  bufferLen : s'.r.bufferLen = s.r.bufferLen

theorem SameButRead.refl (s : Ustream) : SameButRead s s := ⟨rfl, rfl, rfl, rfl, rfl, rfl, rfl⟩

theorem SameButRead.trans {s₁ s₂ s₃ : Ustream} (h₁ : SameButRead s₁ s₂) (h₂ : SameButRead s₂ s₃) :
    SameButRead s₁ s₃ where
  w := h₂.w.trans h₁.w
  stringData := h₂.stringData.trans h₁.stringData
  writeError := h₂.writeError.trans h₁.writeError
  blockedUser := h₂.blockedUser.trans h₁.blockedUser
  minBuffers := h₂.minBuffers.trans h₁.minBuffers
  maxBuffers := h₂.maxBuffers.trans h₁.maxBuffers
  bufferLen := h₂.bufferLen.trans h₁.bufferLen

variable {s : Ustream}

/-- **Consuming** takes the first bytes, and unblocks a stream that was full. -/
theorem ustreamConsume_spec (h : s.ReadOk) {len : ℕ} (hle : len ≤ s.r.bytes.length) :
    ∃ s', ustreamConsume len s = some s' ∧ s'.ReadOk ∧ s'.r.bytes = s.r.bytes.drop len ∧
      SameButRead s s' ∧ (s' = s ∨ s'.blockedFull = false) := by
  rw [ustreamConsume]
  rcases Nat.eq_zero_or_pos len with rfl | hpos
  · exact ⟨s, if_pos rfl, h, rfl, .refl s, .inl rfl⟩
  · have hcount := h.dataBytes
    obtain ⟨l', hl', hok', hbytes', hbounds⟩ :=
      consumeLoop_spec len (h.ok.setDataBytes (s.r.dataBytes - len)) hpos hle le_rfl
    have hlength := congrArg List.length hbytes'
    rw [List.length_drop] at hlength
    dsimp only
    rw [if_neg (by omega), if_neg (by omega), hl']
    refine ⟨_, rfl, ⟨hok', ?_⟩, hbytes', ⟨rfl, rfl, rfl, rfl, hbounds.minBuffers,
      hbounds.maxBuffers, hbounds.bufferLen⟩, .inr rfl⟩
    change l'.dataBytes = l'.bytes.length
    rw [hbounds.dataBytes, hlength]
    change s.r.dataBytes - len = ((s.r.bytes.length - len : ℕ) : ℤ)
    omega

/-- Consuming more than there is ends the process. -/
theorem ustreamConsume_eq_none (h : s.ReadOk) {len : ℕ} (hlt : s.r.bytes.length < len) :
    ustreamConsume len s = none := by
  have hcount := h.dataBytes
  rw [ustreamConsume, if_neg (by omega)]
  exact if_pos (by dsimp only; omega)

/-! ### Reading puts bytes behind the others -/

theorem fillLoop_cons (fix : Bool) {len : ℕ} (filled : List UstreamBuf) {buf : UstreamBuf}
    (next : List UstreamBuf) (hle : len ≤ buf.len - buf.tail) :
    fillLoop fix len filled (buf :: next) =
      some (filled, (if fix then ustreamFixupString { buf with tail := buf.tail + len }
        else { buf with tail := buf.tail + len }) :: next) := by
  rw [fillLoop, min_eq_left hle, Nat.sub_self]
  exact if_pos rfl

/-- Bytes that are read to the end of the buffer at `data_tail`, and accounted for. -/
theorem ustreamFillRead_writeDataTail {buf : UstreamBuf} {next : List UstreamBuf}
    (hr : s.r.rest = buf :: next) {src : List UInt8} (hle : src.length ≤ buf.len - buf.tail) :
    ustreamFillRead src.length { s with r := writeDataTail src s.r } =
      some { s with r := { s.r.setDataTail (buf.put s.stringData src) with
        dataBytes := s.r.dataBytes + src.length } } := by
  rw [writeDataTail, hr]
  dsimp only
  rw [ustreamFillRead, UstreamBufList.setDataTail, UstreamBufList.setDataTail, hr, List.tail_cons]
  dsimp only
  rw [@fillLoop_cons s.stringData src.length s.r.filled
    { buf with mem := buf.mem.write buf.tail (Mem.ofList src) 0 src.length } next hle]
  rfl

/-- What an iteration of the reading loop does: the bytes `src` that it has read, the first ones of
what `read` offers, are behind the others. In a chain of one buffer, and with memory for it, it
blocks the stream only when the buffer is full, and reads something otherwise. -/
structure ReadIter (res : ReadResult) (malloc : Option Mem) (s s' : Ustream) (src : List UInt8) :
    Prop where
  ok : s'.ReadOk
  bytes : s'.r.bytes = s.r.bytes ++ src
  same : SameButRead s s'
  offered : ∀ bytes, res = .got bytes → src <+: bytes
  other : (∀ bytes, res ≠ .got bytes) → src = []
  blocked : s.r.maxBuffers = 1 → malloc ≠ none → s'.blockedFull = true →
    s' = s ∨ s'.r.bytes.length = s'.r.bufferLen
  progress : s.r.maxBuffers = 1 → malloc ≠ none → s.blockedUser = false → s.blockedFull = false →
    s.r.bytes.length ≠ s.r.bufferLen → ∀ b bytes, res = .got (b :: bytes) → src ≠ []

/-- **An iteration of the reading loop** puts what it reads behind the other bytes. -/
theorem ustreamFdReadIter_spec (h : s.ReadOk) (res : ReadResult) (malloc : Option Mem) :
    ∃ s' src, ustreamFdReadIter res malloc s = some (s', src) ∧ ReadIter res malloc s s' src := by
  rw [ustreamFdReadIter]
  split
  · rename_i hblocked
    refine ⟨s, [], rfl, h, (List.append_nil _).symm, .refl s, fun _ _ => List.nil_prefix,
      fun _ => rfl, fun _ _ _ => .inl rfl, fun _ _ huser hfull => ?_⟩
    rw [huser, hfull] at hblocked
    exact absurd hblocked Bool.false_ne_true
  rename_i hblocked
  rw [Bool.not_eq_true, Bool.or_eq_false_iff] at hblocked
  have hprep := h.ok.prepareBuf malloc 1
  have hwhole (mem : Mem) (hmem : malloc = some mem) :=
    @UstreamBufList.data_eq_zero_of_prepareBuf s.r s.stringData mem 1 Nat.one_pos
  rw [ustreamReserve]
  rcases hres : ustreamPrepareBuf s.stringData malloc s.r 1 with ⟨ok, l⟩
  rw [hres] at hprep
  obtain ⟨hok, hbytes, hbounds, hroom, hfull⟩ := hprep
  have hread (full eof : Bool) :
      ({ s with r := l, blockedFull := full, eof := eof } : Ustream).ReadOk :=
    ⟨hok, by rw [hbounds.dataBytes, h.dataBytes, hbytes]⟩
  have hsame (full eof : Bool) :
      SameButRead s { s with r := l, blockedFull := full, eof := eof } :=
    ⟨rfl, rfl, rfl, rfl, hbounds.minBuffers, hbounds.maxBuffers, hbounds.bufferLen⟩
  cases ok with
  | false =>
    have hlength (hmax : s.r.maxBuffers = 1) (hne : malloc ≠ none) :
        l.bytes.length = l.bufferLen := by
      obtain ⟨mem, rfl⟩ := Option.ne_none_iff_exists'.mp hne
      have hdata := hwhole mem rfl
      rw [hres] at hdata
      exact hok.length_bytes_of_isFull (hbounds.maxBuffers.trans hmax) (hfull rfl) (hdata rfl)
    refine ⟨_, _, if_pos rfl, hread _ _, hbytes.trans (List.append_nil _).symm, hsame _ _,
      fun _ _ => List.nil_prefix, fun _ => rfl, fun hmax hne _ => .inr (hlength hmax hne),
      fun hmax hne _ _ hroom => absurd ?_ hroom⟩
    rw [← hbytes, ← hbounds.bufferLen]
    exact hlength hmax hne
  | true =>
    obtain ⟨buf, next, hr, hlt⟩ := hroom rfl
    dsimp only
    rw [if_neg (by rw [hblocked.2]; exact Bool.false_ne_true)]
    have hstay (eof : Bool) (hres : ∀ b bytes, res ≠ .got (b :: bytes)) :
        ReadIter res malloc s { s with r := l, eof := eof } [] :=
      ⟨hread s.blockedFull _, hbytes.trans (List.append_nil _).symm, hsame s.blockedFull _,
        fun _ _ => List.nil_prefix, fun _ => rfl,
        fun _ _ hfull => absurd (hfull.symm.trans hblocked.2) nofun,
        fun _ _ _ _ _ b bytes hgot => absurd hgot (hres b bytes)⟩
    cases res with
    | eintr => exact ⟨_, _, rfl, hstay s.eof nofun⟩
    | eagain => exact ⟨_, _, rfl, hstay s.eof nofun⟩
    | err => exact ⟨_, _, rfl, hstay true nofun⟩
    | got bytes =>
      rw [hr, List.head?_cons, Option.map_some, Option.getD_some]
      dsimp only
      split
      · rename_i hnil
        refine ⟨_, _, rfl, hstay true fun b bs hgot => ?_⟩
        rw [ReadResult.got.inj hgot, List.take_eq_nil_iff] at hnil
        rcases hnil with hzero | hnil
        · omega
        · exact List.cons_ne_nil _ _ hnil
      · rename_i hne
        have hle : (bytes.take (buf.len - buf.tail)).length ≤ buf.len - buf.tail :=
          List.length_take_le _ _
        have hcount : l.dataBytes = l.bytes.length := by
          rw [hbounds.dataBytes, h.dataBytes, hbytes]
        obtain ⟨hok', hbytes', hcount'⟩ := hok.fill hcount hr id rfl hle rfl
        rw [@ustreamFillRead_writeDataTail { s with r := l } _ _ hr _ hle]
        refine ⟨_, _, rfl, ⟨hok', hcount'⟩, hbytes'.trans (by rw [hbytes]),
          ⟨rfl, rfl, rfl, rfl, hbounds.minBuffers, hbounds.maxBuffers, hbounds.bufferLen⟩,
          fun b hb => ?_, fun hother => absurd rfl (hother bytes),
          fun _ _ hfull => absurd (hfull.symm.trans hblocked.2) nofun, fun _ _ _ _ _ _ _ _ => hne⟩
        obtain rfl := ReadResult.got.inj hb
        exact List.take_prefix _ _

/-! ### Looking at the first buffer -/

/-- **The first buffer** has the first bytes of the stream, and some when the stream has some. -/
theorem ustreamGetReadBuf_spec (h : s.ReadOk) :
    ustreamGetReadBuf s <+: s.r.bytes ∧ (ustreamGetReadBuf s = [] → s.r.bytes = []) := by
  rw [ustreamGetReadBuf]
  cases hc : s.r.chain with
  | nil =>
    have hnil : s.r.bytes = [] := by
      rw [UstreamBufList.bytes, hc]
      rfl
    exact ⟨List.nil_prefix, fun _ => hnil⟩
  | cons buf next =>
    rw [List.head?_cons, Option.map_some, Option.getD_some]
    refine ⟨⟨_, (UstreamBufList.bytes_of_chain hc).symm⟩, fun hnil => ?_⟩
    by_contra hne
    exact h.ok.head_ne_nil hc hne hnil

/-- With one buffer the stream shows all its bytes at once. -/
theorem ustreamGetReadBuf_eq (h : s.ReadOk) (hmax : s.r.maxBuffers = 1) :
    ustreamGetReadBuf s = s.r.bytes := by
  rw [ustreamGetReadBuf, UstreamBufList.bytes]
  rcases h.ok.cases_one hmax with hc | ⟨buf, -, hc⟩
  · rw [hc]
    rfl
  · rw [hc, List.flatMap_singleton]
    rfl

/-- **A copy out of the stream** takes its first bytes, however they are divided among the
buffers. -/
theorem ustreamRead_spec (h : s.ReadOk) (fuel : ℕ) {buflen : ℕ} (hfuel : buflen < fuel) :
    ∃ s', ustreamRead fuel buflen s = some (s', s.r.bytes.take buflen) ∧ s'.ReadOk ∧
      s'.r.bytes = s.r.bytes.drop buflen ∧ SameButRead s s' ∧
      (s' = s ∨ s'.blockedFull = false) := by
  induction fuel generalizing buflen s with
  | zero => omega
  | succ fuel ih =>
    obtain ⟨⟨others, hothers⟩, hnil⟩ := ustreamGetReadBuf_spec h
    rw [ustreamRead]
    by_cases hempty : ustreamGetReadBuf s = []
    · rw [if_pos hempty, hnil hempty, List.take_nil, List.drop_nil]
      exact ⟨s, rfl, h, hnil hempty, .refl s, .inl rfl⟩
    · have hpos := List.length_pos_iff.mpr hempty
      have hlength := congrArg List.length hothers
      rw [List.length_append] at hlength
      obtain ⟨s₁, hs₁, hok₁, hbytes₁, hsame₁, hblocked₁⟩ :=
        ustreamConsume_spec h
          (show ((ustreamGetReadBuf s).take buflen).length ≤ _ by rw [List.length_take]; omega)
      rw [if_neg hempty, hs₁, Option.bind_some]
      rw [List.length_take] at *
      by_cases hlt : min buflen (ustreamGetReadBuf s).length < buflen
      · have hshort : (ustreamGetReadBuf s).length ≤ buflen := by omega
        rw [min_eq_right hshort] at *
        obtain ⟨s₂, hs₂, hok₂, hbytes₂, hsame₂, hblocked₂⟩ :=
          ih hok₁ (show buflen - (ustreamGetReadBuf s).length < fuel by omega)
        rw [if_pos hlt, hs₂]
        refine ⟨s₂, ?_, hok₂, ?_, hsame₁.trans hsame₂, ?_⟩
        · rw [Option.map_some, hbytes₁, List.take_of_length_le hshort, ← hothers,
            List.drop_left, List.take_append, List.take_of_length_le hshort]
        · rw [hbytes₂, hbytes₁, List.drop_drop, Nat.add_sub_cancel' hshort]
        · rcases hblocked₂ with rfl | hblocked₂
          · exact hblocked₁
          · exact .inr hblocked₂
      · have hlong : buflen ≤ (ustreamGetReadBuf s).length := by omega
        rw [if_neg hlt]
        rw [min_eq_left hlong] at hbytes₁
        refine ⟨s₁, ?_, hok₁, hbytes₁, hsame₁, hblocked₁⟩
        rw [← hothers, List.take_append_of_le_length hlong]

end M57Card.Libubox
