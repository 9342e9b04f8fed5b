import M57Card.Lib.Memory

/-!
# The buffer chains of a stream

Every connection of the servers goes through two chains of buffers, one for what has been read from
the descriptor and one for what could not be written yet (`lib/libubox/ustream.c`). A chain is a
linked list with three pointers: `head` and `tail` to its ends and `data_tail` to the buffer that is
being filled. An emptied buffer is appended again instead of freed as long as the chain has fewer
than `min_buffers`, and the bytes of a buffer are moved to the start of its block when too much room
is lost before them.

A chain is modelled by its two parts: the buffers before `data_tail`, and those from `data_tail` on,
so that the pointer is null when the second part is empty. A block is a memory of its own, in which
`data`, `tail` and `end` are offsets from `head`. The counters of type `int` are integers.

## Main definitions

* `UstreamBuf`, `UstreamBuf.bytes` : a buffer and the bytes in it.
* `UstreamBufList`, `UstreamBufList.bytes` : a chain and the bytes in it.
* `ustreamAddBuf`, `ustreamFreeBuf`, `ustreamPrepareBuf`.
* `UstreamBufList.Ok` : the invariant of a chain.

## Main results

* `UstreamBufList.Ok.freeBuf` : the first buffer goes with its bytes.
* `UstreamBufList.Ok.prepareBuf` : looking for room moves no bytes in the chain, and finds some.
* `UstreamBufList.Ok.fill` : bytes put into that room are behind all others.
-/

namespace M57Card.Libubox

/-- `struct ustream_buf`, with `data` and `tail` as offsets from `head`; `end` is `head + len`. -/
structure UstreamBuf where
  mem : Mem
  data : ℕ
  tail : ℕ
  len : ℕ

/-- The bytes from `data` to `tail`. -/
def UstreamBuf.bytes (buf : UstreamBuf) : List UInt8 :=
  buf.mem.slice buf.data (buf.tail - buf.data)

/-- `struct ustream_buf_list`: the buffers before `data_tail`, the buffers from it on, and the
counters. -/
structure UstreamBufList where
  filled : List UstreamBuf := []
  rest : List UstreamBuf := []
  dataBytes : ℤ := 0
  minBuffers : ℤ
  maxBuffers : ℤ
  bufferLen : ℕ
  buffers : ℤ := 0

namespace UstreamBufList

/-- The buffers from `head` to `tail`. -/
def chain (l : UstreamBufList) : List UstreamBuf := l.filled ++ l.rest

/-- The bytes in the chain. -/
def bytes (l : UstreamBufList) : List UInt8 := l.chain.flatMap UstreamBuf.bytes

/-- The first buffer is replaced. -/
def setHead (l : UstreamBufList) (buf : UstreamBuf) : UstreamBufList :=
  { l with
    filled := if l.filled.isEmpty then [] else buf :: l.filled.tail
    rest := if l.filled.isEmpty then buf :: l.rest.tail else l.rest }

/-- The first buffer is taken out. -/
def dropHead (l : UstreamBufList) : UstreamBufList :=
  { l with
    filled := l.filled.tail
    rest := if l.filled.isEmpty then l.rest.tail else l.rest }

/-- The buffer at `data_tail` is replaced. -/
def setDataTail (l : UstreamBufList) (buf : UstreamBuf) : UstreamBufList :=
  { l with rest := buf :: l.rest.tail }

end UstreamBufList

/-- `ustream_init_buf`, for a length other than zero. -/
def ustreamInitBuf (mem : Mem) (len : ℕ) : UstreamBuf where
  mem := Function.update mem 0 0
  data := 0
  tail := 0
  len := len

/-- `ustream_add_buf`: a null `data_tail` is set to the head of the chain. -/
def ustreamAddBuf (l : UstreamBufList) (buf : UstreamBuf) : UstreamBufList :=
  { l with
    buffers := l.buffers + 1
    filled := if l.rest.isEmpty then [] else l.filled
    rest := if l.rest.isEmpty then l.filled ++ [buf] else l.rest ++ [buf] }

/-- `ustream_can_alloc`. -/
def ustreamCanAlloc (l : UstreamBufList) : Bool :=
  l.maxBuffers ≤ 0 || l.buffers < l.maxBuffers

/-- `ustream_alloc_default`, where `malloc` is the block that the allocation gives. -/
def ustreamAllocDefault (malloc : Option Mem) (l : UstreamBufList) : Option UstreamBufList :=
  if ustreamCanAlloc l then
    malloc.map fun mem => ustreamAddBuf l (ustreamInitBuf mem l.bufferLen)
  else
    none

/-- `ustream_free_buf` for the first buffer `buf` of the chain, which both of its callers give it:
it is freed, or appended again when `min_buffers` are not left. -/
def ustreamFreeBuf (l : UstreamBufList) (buf : UstreamBuf) : UstreamBufList :=
  let l := { l.dropHead with buffers := l.buffers - 1 }
  if l.minBuffers ≤ l.buffers then l else ustreamAddBuf l (ustreamInitBuf buf.mem buf.len)

/-- `ustream_should_move`, for the buffer at `data_tail`; `last` tells that it is the tail. -/
def ustreamShouldMove (l : UstreamBufList) (buf : UstreamBuf) (last : Bool) (len : ℕ) : Bool :=
  if buf.data = 0 then
    false
  else if buf.len / 2 < buf.data then
    true
  else if buf.tail - buf.data < 32 ∧ buf.len / 4 < buf.data then
    true
  else if !last || ustreamCanAlloc l then
    false
  else
    buf.len - buf.tail < len

/-- `ustream_fixup_string`, when the stream has string data. -/
def ustreamFixupString (buf : UstreamBuf) : UstreamBuf :=
  { buf with mem := Function.update buf.mem buf.tail 0 }

/-- The bytes of a buffer are moved to the start of its block. A terminating zero is written behind
them when `fix` tells so, which it does in the chain of a stream with string data that is read. -/
def moveBuf (fix : Bool) (buf : UstreamBuf) : UstreamBuf :=
  let len := buf.tail - buf.data
  let buf := { buf with mem := buf.mem.write 0 buf.mem buf.data len, data := 0, tail := len }
  if fix then ustreamFixupString buf else buf

/-- The end of `ustream_prepare_buf`: a new buffer, which becomes `data_tail`. -/
def allocDataTail (malloc : Option Mem) (l : UstreamBufList) : Bool × UstreamBufList :=
  match ustreamAllocDefault malloc l with
  | none => (false, l)
  | some l =>
      (true, { l with filled := l.chain.dropLast, rest := l.chain.getLast?.toList })

/-- `ustream_prepare_buf`. -/
def ustreamPrepareBuf (fix : Bool) (malloc : Option Mem) (l : UstreamBufList) (len : ℕ) :
    Bool × UstreamBufList :=
  match l.rest with
  | [] => allocDataTail malloc l
  | buf :: next =>
    let buf := if ustreamShouldMove l buf next.isEmpty len then moveBuf fix buf else buf
    let l := l.setDataTail buf
    if buf.tail ≠ buf.len then
      (true, l)
    else if next ≠ [] then
      (true, { l with filled := l.filled ++ [buf], rest := next })
    else
      allocDataTail malloc l

/-! ### Buffers -/

namespace UstreamBuf

variable {buf : UstreamBuf} {fix : Bool}

/-- A zero stands behind the bytes of the buffer. -/
def Terminated (buf : UstreamBuf) : Prop := buf.mem buf.tail = 0

/-- A buffer has bytes, inside its block, or it is empty and starts at the block. In a chain of
strings a zero stands behind the bytes. -/
structure Ok (fix : Bool) (buf : UstreamBuf) : Prop where
  empty : buf.tail ≤ buf.data → buf.data = 0 ∧ buf.tail = 0
  tail_le : buf.tail ≤ buf.len
  len_pos : 0 < buf.len
  terminated : fix = true → buf.Terminated

theorem length_bytes (buf : UstreamBuf) : buf.bytes.length = buf.tail - buf.data :=
  Mem.length_slice _ _ _

theorem bytes_eq_nil (h : buf.tail ≤ buf.data) : buf.bytes = [] :=
  List.eq_nil_of_length_eq_zero (by rw [length_bytes, Nat.sub_eq_zero_of_le h])

theorem Ok.le (h : buf.Ok fix) : buf.data ≤ buf.tail := by
  by_contra hlt
  have := h.empty (by omega)
  omega

/-- The bytes of a buffer from the first `n` on. -/
theorem bytes_skip (buf : UstreamBuf) (n : ℕ) :
    ({ buf with data := buf.data + n } : UstreamBuf).bytes = buf.bytes.drop n := by
  rw [bytes, bytes, Mem.drop_slice, Nat.sub_add_eq]

theorem Ok.skip (h : buf.Ok fix) {n : ℕ} (hn : n < buf.bytes.length) :
    ({ buf with data := buf.data + n } : UstreamBuf).Ok fix where
  empty hle := by
    rw [length_bytes] at hn
    dsimp only at hle
    omega
  tail_le := h.tail_le
  len_pos := h.len_pos
  terminated := h.terminated

theorem ok_initBuf (mem : Mem) {len : ℕ} (hlen : 0 < len) : (ustreamInitBuf mem len).Ok fix where
  empty _ := ⟨rfl, rfl⟩
  tail_le := Nat.zero_le _
  len_pos := hlen
  terminated _ := by
    rw [Terminated]
    exact Function.update_self (0 : ℕ) (0 : UInt8) mem

theorem bytes_initBuf (mem : Mem) (len : ℕ) : (ustreamInitBuf mem len).bytes = [] :=
  bytes_eq_nil (Nat.le_refl _)

theorem terminated_fixupString (buf : UstreamBuf) : (ustreamFixupString buf).Terminated := by
  rw [Terminated]
  exact Function.update_self buf.tail (0 : UInt8) buf.mem

theorem bytes_fixupString (h : buf.data ≤ buf.tail) :
    (ustreamFixupString buf).bytes = buf.bytes := by
  refine Mem.slice_congr fun i hi => Function.update_of_ne ?_ _ _
  change i < buf.tail - buf.data at hi
  change buf.data + i ≠ buf.tail
  omega

/-! #### A buffer of which the bytes are moved to the start -/

theorem data_moveBuf (fix : Bool) (buf : UstreamBuf) : (moveBuf fix buf).data = 0 := by
  cases fix <;> rfl

theorem tail_moveBuf (fix : Bool) (buf : UstreamBuf) :
    (moveBuf fix buf).tail = buf.tail - buf.data := by
  cases fix <;> rfl

theorem len_moveBuf (fix : Bool) (buf : UstreamBuf) : (moveBuf fix buf).len = buf.len := by
  cases fix <;> rfl

/-- The move keeps the bytes, although the two places may overlap. -/
theorem bytes_moveBuf (fix : Bool) (buf : UstreamBuf) : (moveBuf fix buf).bytes = buf.bytes := by
  have hmoved : (moveBuf false buf).bytes = buf.bytes := Mem.slice_write _ _ _ _ _
  cases fix with
  | false => exact hmoved
  | true =>
    rw [← hmoved]
    exact bytes_fixupString (Nat.zero_le _)

theorem Ok.moveBuf (h : buf.Ok fix) : (moveBuf fix buf).Ok fix where
  empty hle := by
    rw [data_moveBuf, tail_moveBuf] at *
    exact ⟨rfl, Nat.le_zero.mp hle⟩
  tail_le := by
    have := h.tail_le
    rw [tail_moveBuf, len_moveBuf]
    omega
  len_pos := by
    rw [len_moveBuf]
    exact h.len_pos
  terminated hfix := by
    subst hfix
    exact terminated_fixupString _

/-! #### A buffer that is filled -/

/-- The bytes of `src` are written behind those of the buffer, with a zero behind them in a chain of
strings. -/
def put (fix : Bool) (buf : UstreamBuf) (src : List UInt8) : UstreamBuf :=
  let buf := { buf with
    mem := buf.mem.write buf.tail (Mem.ofList src) 0 src.length, tail := buf.tail + src.length }
  if fix then ustreamFixupString buf else buf

theorem data_put (fix : Bool) (buf : UstreamBuf) (src : List UInt8) :
    (buf.put fix src).data = buf.data := by
  cases fix <;> rfl

theorem tail_put (fix : Bool) (buf : UstreamBuf) (src : List UInt8) :
    (buf.put fix src).tail = buf.tail + src.length := by
  cases fix <;> rfl

theorem len_put (fix : Bool) (buf : UstreamBuf) (src : List UInt8) :
    (buf.put fix src).len = buf.len := by
  cases fix <;> rfl

theorem bytes_put (fix : Bool) (h : buf.data ≤ buf.tail) (src : List UInt8) :
    (buf.put fix src).bytes = buf.bytes ++ src := by
  have hput : (buf.put false src).bytes = buf.bytes ++ src := by
    have hlen : buf.tail + src.length - buf.data = buf.tail - buf.data + src.length := by omega
    change (buf.mem.write _ _ _ _).slice buf.data (buf.tail + src.length - buf.data) = _
    rw [hlen, Mem.slice_add, Mem.slice_write_of_le _ _ _ _ (by omega), Nat.add_sub_cancel' h,
      Mem.slice_write, Mem.slice_ofList]
    rfl
  cases fix with
  | false => exact hput
  | true =>
    rw [← hput]
    exact bytes_fixupString (h.trans (Nat.le_add_right _ _))

theorem Ok.put (h : buf.Ok fix) {fix' : Bool} (hfix : fix = true → fix' = true)
    {src : List UInt8} (hroom : src.length ≤ buf.len - buf.tail) : (buf.put fix' src).Ok fix where
  empty hle := by
    have hdata := h.le
    rw [data_put, tail_put] at *
    have := h.empty (by omega)
    omega
  tail_le := by
    have := h.tail_le
    rw [tail_put, len_put]
    omega
  len_pos := by
    rw [len_put]
    exact h.len_pos
  terminated htrue := by
    rw [hfix htrue]
    exact terminated_fixupString _

end UstreamBuf

/-! ### Chains -/

namespace UstreamBufList

variable {l : UstreamBufList} {buf : UstreamBuf} {next : List UstreamBuf} {fix : Bool}

/-- The invariant of a chain: its buffers have blocks of `buffer_len` bytes, those before
`data_tail` are full to the end of their block and those behind it are empty. -/
structure Ok (fix : Bool) (l : UstreamBufList) : Prop where
  ok : ∀ buf ∈ l.chain, buf.Ok fix ∧ buf.len = l.bufferLen
  filled : ∀ buf ∈ l.filled, buf.tail = buf.len
  spare : ∀ buf ∈ l.rest.tail, buf.tail = 0
  null : l.rest = [] → l.filled = []
  buffers : l.buffers = l.chain.length
  bound : 0 < l.maxBuffers → l.buffers ≤ l.maxBuffers
  len_pos : 0 < l.bufferLen

theorem bytes_eq (l : UstreamBufList) :
    l.bytes = l.filled.flatMap UstreamBuf.bytes ++ l.rest.flatMap UstreamBuf.bytes :=
  List.flatMap_append

theorem flatMap_bytes_of_empty {bufs : List UstreamBuf} (h : ∀ buf ∈ bufs, buf.tail = 0) :
    bufs.flatMap UstreamBuf.bytes = [] :=
  List.flatMap_eq_nil_iff.mpr fun buf hbuf =>
    UstreamBuf.bytes_eq_nil ((h buf hbuf).le.trans (Nat.zero_le _))

/-- Where the first buffer stands. -/
theorem cases_head (h : l.chain = buf :: next) :
    (l.filled = [] ∧ l.rest = buf :: next) ∨
      ∃ bufs, l.filled = buf :: bufs ∧ next = bufs ++ l.rest := by
  cases hf : l.filled with
  | nil => exact .inl ⟨rfl, by rwa [chain, hf, List.nil_append] at h⟩
  | cons b bufs =>
    rw [chain, hf, List.cons_append] at h
    obtain ⟨rfl, rfl⟩ := List.cons.inj h
    exact .inr ⟨bufs, rfl, rfl⟩

theorem chain_dropHead (h : l.chain = buf :: next) : l.dropHead.chain = next := by
  rw [dropHead, chain]
  rcases cases_head h with ⟨hf, hr⟩ | ⟨bufs, hf, rfl⟩
  · rw [hf, hr]
    rfl
  · rw [hf]
    rfl

theorem chain_setHead (h : l.chain = buf :: next) (buf' : UstreamBuf) :
    (l.setHead buf').chain = buf' :: next := by
  rw [setHead, chain]
  rcases cases_head h with ⟨hf, hr⟩ | ⟨bufs, hf, rfl⟩
  · rw [hf, hr]
    rfl
  · rw [hf]
    rfl

theorem chain_addBuf (l : UstreamBufList) (buf : UstreamBuf) :
    (ustreamAddBuf l buf).chain = l.chain ++ [buf] := by
  rw [ustreamAddBuf, chain, chain]
  cases hr : l.rest with
  | nil => rw [List.append_nil]; rfl
  | cons b bufs => rw [List.append_assoc]; rfl

theorem mem_chain (h : l.rest = buf :: next) : buf ∈ l.chain :=
  List.mem_append_right _ (h ▸ List.mem_cons_self)

/-- The bytes of a chain lie before the end of the buffer at `data_tail`. -/
theorem Ok.bytes_eq (h : l.Ok fix) (hr : l.rest = buf :: next) :
    l.bytes = l.filled.flatMap UstreamBuf.bytes ++ buf.bytes := by
  have hspare := h.spare
  rw [hr, List.tail_cons] at hspare
  rw [UstreamBufList.bytes_eq, hr, List.flatMap_cons, flatMap_bytes_of_empty hspare,
    List.append_nil]

/-- The account of a chain does not matter for its buffers. -/
theorem Ok.setDataBytes (h : l.Ok fix) (n : ℤ) :
    ({ l with dataBytes := n } : UstreamBufList).Ok fix :=
  ⟨h.ok, h.filled, h.spare, h.null, h.buffers, h.bound, h.len_pos⟩

/-! #### The first buffer -/

/-- The first buffer of a chain is replaced by one with the same block and the same end. -/
theorem Ok.setHead (h : l.Ok fix) (hc : l.chain = buf :: next) {buf' : UstreamBuf}
    (hok : buf'.Ok fix) (hlen : buf'.len = buf.len) (htail : buf'.tail = buf.tail) :
    (l.setHead buf').Ok fix := by
  have hchain := chain_setHead hc buf'
  have hbuf := h.ok buf (hc ▸ List.mem_cons_self)
  have hmem : ∀ b ∈ (l.setHead buf').chain, b.Ok fix ∧ b.len = l.bufferLen := by
    rw [hchain]
    refine List.forall_mem_cons.mpr ⟨⟨hok, hlen.trans hbuf.2⟩, fun b hb => h.ok b ?_⟩
    exact hc ▸ List.mem_cons_of_mem _ hb
  refine ⟨hmem, ?_, ?_, ?_, ?_, h.bound, h.len_pos⟩
  · rcases cases_head hc with ⟨hf, -⟩ | ⟨bufs, hf, -⟩
    · rw [UstreamBufList.setHead, hf]
      exact nofun
    · have hfilled := h.filled
      rw [hf] at hfilled
      obtain ⟨hfirst, hrest⟩ := List.forall_mem_cons.mp hfilled
      rw [UstreamBufList.setHead, hf]
      exact List.forall_mem_cons.mpr ⟨by rw [htail, hlen, hfirst], hrest⟩
  · rcases cases_head hc with ⟨hf, -⟩ | ⟨bufs, hf, -⟩
    · rw [UstreamBufList.setHead, hf]
      exact h.spare
    · rw [UstreamBufList.setHead, hf]
      exact h.spare
  · rcases cases_head hc with ⟨hf, -⟩ | ⟨bufs, hf, -⟩
    · rw [UstreamBufList.setHead, hf]
      exact fun _ => rfl
    · rw [UstreamBufList.setHead, hf]
      intro hnil
      exact absurd (h.null hnil) (by rw [hf]; exact List.cons_ne_nil _ _)
  · rw [hchain, List.length_cons, ← List.length_cons (a := buf), ← hc, ← h.buffers]
    rfl

/-- The first buffer of a chain is taken out. -/
theorem Ok.dropHead (h : l.Ok fix) (hc : l.chain = buf :: next) :
    ({ l.dropHead with buffers := l.buffers - 1 } : UstreamBufList).Ok fix := by
  have hchain := chain_dropHead hc
  have hmem : ∀ b ∈ l.dropHead.chain, b.Ok fix ∧ b.len = l.bufferLen := by
    rw [hchain]
    exact fun b hb => h.ok b (hc ▸ List.mem_cons_of_mem _ hb)
  refine ⟨hmem, fun b hb => h.filled b (List.mem_of_mem_tail hb), ?_, ?_, ?_, ?_, h.len_pos⟩
  · dsimp only
    rw [UstreamBufList.dropHead]
    split
    · exact fun b hb => h.spare b (List.mem_of_mem_tail hb)
    · exact h.spare
  · intro hnil
    dsimp only at hnil ⊢
    rcases cases_head hc with ⟨hf, -⟩ | ⟨bufs, hf, -⟩
    · rw [UstreamBufList.dropHead, hf]
      rfl
    · rw [UstreamBufList.dropHead, hf] at hnil
      exact absurd (h.null hnil) (by rw [hf]; exact List.cons_ne_nil _ _)
  · change l.buffers - 1 = (l.dropHead.chain.length : ℤ)
    rw [hchain, h.buffers, hc, List.length_cons]
    omega
  · intro hmax
    have := h.bound hmax
    change l.buffers - 1 ≤ l.maxBuffers
    omega

/-- An empty buffer is appended to a chain. -/
theorem Ok.addBuf (h : l.Ok fix) (hok : buf.Ok fix) (hlen : buf.len = l.bufferLen)
    (htail : buf.tail = 0) (hbound : 0 < l.maxBuffers → l.buffers + 1 ≤ l.maxBuffers) :
    (ustreamAddBuf l buf).Ok fix := by
  have hchain := chain_addBuf l buf
  have hmem : ∀ b ∈ (ustreamAddBuf l buf).chain, b.Ok fix ∧ b.len = l.bufferLen := by
    rw [hchain]
    exact List.forall_mem_append.mpr ⟨h.ok, List.forall_mem_singleton.mpr ⟨hok, hlen⟩⟩
  refine ⟨hmem, ?_, ?_, ?_, ?_, hbound, h.len_pos⟩
  · rw [ustreamAddBuf]
    split
    · exact nofun
    · exact h.filled
  · cases hr : l.rest with
    | nil =>
      rw [ustreamAddBuf, hr, h.null hr]
      exact nofun
    | cons b bufs =>
      have hspare := h.spare
      rw [hr] at hspare
      rw [ustreamAddBuf, hr]
      exact List.forall_mem_append.mpr ⟨hspare, List.forall_mem_singleton.mpr htail⟩
  · intro hnil
    rw [ustreamAddBuf] at hnil
    split at hnil
    · exact absurd hnil (List.append_ne_nil_of_right_ne_nil _ (List.cons_ne_nil _ _))
    · exact absurd hnil (List.append_ne_nil_of_right_ne_nil _ (List.cons_ne_nil _ _))
  · rw [hchain, List.length_append, List.length_singleton]
    change l.buffers + 1 = _
    rw [h.buffers]
    omega

/-- **The first buffer is freed**, or appended again: the others keep their places and bytes. -/
theorem Ok.freeBuf (h : l.Ok fix) (hc : l.chain = buf :: next) :
    (ustreamFreeBuf l buf).Ok fix ∧
      ∃ more, (ustreamFreeBuf l buf).chain = next ++ more ∧
        more.flatMap UstreamBuf.bytes = [] := by
  have hdrop := h.dropHead hc
  have hchain := chain_dropHead hc
  have hbuf := h.ok buf (hc ▸ List.mem_cons_self)
  rw [ustreamFreeBuf]
  dsimp only
  split
  · exact ⟨hdrop, [], by rw [List.append_nil]; exact hchain, rfl⟩
  · have hbound (hmax : 0 < l.maxBuffers) : l.buffers - 1 + 1 ≤ l.maxBuffers := by
      have := h.bound hmax
      omega
    have hadd := hdrop.addBuf (UstreamBuf.ok_initBuf buf.mem hbuf.1.len_pos) hbuf.2 rfl hbound
    refine ⟨hadd, _, (chain_addBuf _ _).trans (congrArg (· ++ _) hchain), ?_⟩
    rw [List.flatMap_singleton, UstreamBuf.bytes_initBuf]

/-! #### The buffer at `data_tail` -/

/-- The buffer at `data_tail` is replaced. -/
theorem Ok.setDataTail (h : l.Ok fix) (hr : l.rest = buf :: next) {buf' : UstreamBuf}
    (hok : buf'.Ok fix) (hlen : buf'.len = buf.len) : (l.setDataTail buf').Ok fix := by
  have hbuf := h.ok buf (mem_chain hr)
  have hok' := h.ok
  have hspare := h.spare
  have hcount := h.buffers
  rw [chain, hr] at hok' hcount
  rw [hr] at hspare
  obtain ⟨hbefore, hbehind⟩ := List.forall_mem_append.mp hok'
  rw [UstreamBufList.setDataTail, hr]
  refine ⟨?_, h.filled, hspare, nofun, ?_, h.bound, h.len_pos⟩
  · exact List.forall_mem_append.mpr ⟨hbefore, List.forall_mem_cons.mpr
      ⟨⟨hok, hlen.trans hbuf.2⟩, (List.forall_mem_cons.mp hbehind).2⟩⟩
  · rw [chain, hcount, List.length_append, List.length_append]
    rfl

/-- The bytes of a chain, when those of the buffer at `data_tail` change. -/
theorem Ok.bytes_setDataTail (h : l.Ok fix) (hr : l.rest = buf :: next) (buf' : UstreamBuf) :
    (l.setDataTail buf').bytes = l.filled.flatMap UstreamBuf.bytes ++ buf'.bytes := by
  have hspare := h.spare
  rw [hr, List.tail_cons] at hspare
  rw [UstreamBufList.bytes_eq, UstreamBufList.setDataTail, hr, List.tail_cons, List.flatMap_cons,
    flatMap_bytes_of_empty hspare, List.append_nil]

/-- **Bytes that are put behind those of the buffer at `data_tail`** and accounted for are behind
all others. -/
theorem Ok.fill (h : l.Ok fix) (hcount : l.dataBytes = l.bytes.length) (hr : l.rest = buf :: next)
    {fix' : Bool} (hfix : fix = true → fix' = true) {src : List UInt8} {n : ℕ}
    (hn : src.length = n) (hroom : n ≤ buf.len - buf.tail) {l' : UstreamBufList}
    (hl' : { l.setDataTail (buf.put fix' src) with dataBytes := l.dataBytes + n } = l') :
    l'.Ok fix ∧ l'.bytes = l.bytes ++ src ∧ l'.dataBytes = l'.bytes.length := by
  have hok := (h.ok buf (mem_chain hr)).1
  have hset := h.setDataTail hr (hok.put hfix (hn.le.trans hroom)) (UstreamBuf.len_put _ _ _)
  have hbytes : l'.bytes = l.bytes ++ src := by
    rw [← hl']
    change (l.setDataTail _).bytes = _
    rw [h.bytes_setDataTail hr, h.bytes_eq hr, UstreamBuf.bytes_put _ hok.le, List.append_assoc]
  refine ⟨?_, hbytes, ?_⟩
  · rw [← hl']
    exact hset.setDataBytes _
  · rw [hbytes, List.length_append, hn, ← hl']
    dsimp only
    rw [hcount]
    omega

/-! #### Looking for room -/

/-- The chains have the same bounds and the same account of bytes. -/
structure SameBounds (l l' : UstreamBufList) : Prop where
  dataBytes : l'.dataBytes = l.dataBytes
  minBuffers : l'.minBuffers = l.minBuffers
  maxBuffers : l'.maxBuffers = l.maxBuffers
  bufferLen : l'.bufferLen = l.bufferLen

/-- There is room in the buffer at `data_tail`. -/
def HasRoom (l : UstreamBufList) : Prop := ∃ buf next, l.rest = buf :: next ∧ buf.tail < buf.len

/-- The chain is full to the end, and no buffer can be added to it. -/
structure IsFull (malloc : Option Mem) (l : UstreamBufList) : Prop where
  tail : ∀ buf ∈ l.rest, buf.tail = buf.len
  last : l.rest.length ≤ 1
  alloc : ustreamAllocDefault malloc l = none

/-- What looking for room leaves behind. -/
structure Prepared (fix : Bool) (malloc : Option Mem) (l : UstreamBufList)
    (res : Bool × UstreamBufList) : Prop where
  ok : res.2.Ok fix
  bytes : res.2.bytes = l.bytes
  bounds : SameBounds l res.2
  room : res.1 = true → res.2.HasRoom
  full : res.1 = false → res.2.IsFull malloc

/-- A new buffer behind a chain that is full to the end. -/
theorem Ok.allocDataTail (h : l.Ok fix) (htail : ∀ buf ∈ l.rest, buf.tail = buf.len)
    (hlast : l.rest.length ≤ 1) (malloc : Option Mem) :
    Prepared fix malloc l (allocDataTail malloc l) := by
  rw [Libubox.allocDataTail]
  cases halloc : ustreamAllocDefault malloc l with
  | none => exact ⟨h, rfl, ⟨rfl, rfl, rfl, rfl⟩, nofun, fun _ => ⟨htail, hlast, halloc⟩⟩
  | some l' =>
    rw [ustreamAllocDefault] at halloc
    split at halloc
    case isFalse => exact absurd halloc nofun
    case isTrue hcan =>
      obtain ⟨mem, -, rfl⟩ := Option.map_eq_some_iff.mp halloc
      have hbuf : (ustreamInitBuf mem l.bufferLen).Ok fix := UstreamBuf.ok_initBuf mem h.len_pos
      have hchain := chain_addBuf l (ustreamInitBuf mem l.bufferLen)
      have hbound (hmax : 0 < l.maxBuffers) : l.buffers + 1 ≤ l.maxBuffers := by
        have hcan := Bool.or_eq_true_iff.mp hcan
        rw [decide_eq_true_iff, decide_eq_true_iff] at hcan
        omega
      have hadd := h.addBuf hbuf rfl rfl hbound
      have hfilled : ∀ b ∈ l.chain, b.tail = b.len :=
        List.forall_mem_append.mpr ⟨h.filled, htail⟩
      dsimp only
      rw [hchain, List.dropLast_concat, List.getLast?_concat]
      have hok := hadd.ok
      have hcount := hadd.buffers
      rw [hchain] at hok hcount
      refine ⟨⟨hok, hfilled, nofun, nofun, hcount, hbound, h.len_pos⟩, ?_, ⟨rfl, rfl, rfl, rfl⟩,
        fun _ => ⟨_, [], rfl, h.len_pos⟩, nofun⟩
      rw [UstreamBufList.bytes_eq, Option.toList_some, List.flatMap_singleton,
        UstreamBuf.bytes_initBuf, List.append_nil]
      rfl

/-- **Looking for room** moves no bytes in the chain; it fails only when the chain is full to the
end and cannot grow. -/
theorem Ok.prepareBuf (h : l.Ok fix) (malloc : Option Mem) (len : ℕ) :
    Prepared fix malloc l (ustreamPrepareBuf fix malloc l len) := by
  rw [ustreamPrepareBuf]
  cases hr : l.rest with
  | nil => exact h.allocDataTail (by rw [hr]; exact nofun) (by rw [hr]; exact Nat.zero_le 1) malloc
  | cons buf next =>
    dsimp only
    generalize hmoved : (if ustreamShouldMove l buf next.isEmpty len = true then moveBuf fix buf
      else buf) = buf'
    have hok := (h.ok buf (mem_chain hr)).1
    have hbuf : buf'.Ok fix ∧ buf'.len = buf.len ∧ buf'.bytes = buf.bytes := by
      rw [← hmoved]
      split
      · exact ⟨hok.moveBuf, UstreamBuf.len_moveBuf _ _, UstreamBuf.bytes_moveBuf _ _⟩
      · exact ⟨hok, rfl, rfl⟩
    have hset := h.setDataTail hr hbuf.1 hbuf.2.1
    have hbytes : (l.setDataTail buf').bytes = l.bytes := by
      rw [h.bytes_setDataTail hr, hbuf.2.2, h.bytes_eq hr]
    have hrest : (l.setDataTail buf').rest = buf' :: next := by
      rw [UstreamBufList.setDataTail, hr, List.tail_cons]
    have hle := hbuf.1.tail_le
    split_ifs with htail hnext
    · exact ⟨hset, hbytes, ⟨rfl, rfl, rfl, rfl⟩, fun _ => ⟨buf', next, hrest, by omega⟩, nofun⟩
    · -- the next buffer is empty
      obtain ⟨b, bs, rfl⟩ := List.exists_cons_of_ne_nil hnext
      have hok' := hset.ok
      have hspare := hset.spare
      have hcount := hset.buffers
      rw [chain, hrest, List.append_cons] at hok' hcount
      rw [hrest, List.tail_cons] at hspare
      have hchain : (l.setDataTail buf').chain = (l.filled ++ [buf']) ++ b :: bs := by
        rw [chain, hrest, List.append_cons]
        rfl
      have hb := hok' b (List.mem_append_right _ List.mem_cons_self)
      have hzero := hspare b List.mem_cons_self
      refine ⟨⟨hok', ?_, fun c hc => hspare c (List.mem_cons_of_mem _ hc), nofun, hcount,
        h.bound, h.len_pos⟩, ?_, ⟨rfl, rfl, rfl, rfl⟩, fun _ => ⟨b, bs, rfl, ?_⟩, nofun⟩
      · exact List.forall_mem_append.mpr
          ⟨h.filled, List.forall_mem_singleton.mpr (not_not.mp htail)⟩
      · rw [← hbytes, UstreamBufList.bytes, UstreamBufList.bytes, hchain]
        rfl
      · have hpos := hb.1.len_pos
        omega
    · rw [not_not.mp hnext] at hrest
      have halloc := hset.allocDataTail
        (by rw [hrest]; exact List.forall_mem_singleton.mpr (not_not.mp htail))
        (by rw [hrest]; exact Nat.le_refl 1) malloc
      obtain ⟨hok', hbytes', hbounds, hroom, hfull⟩ := halloc
      exact ⟨hok', hbytes'.trans hbytes, ⟨hbounds.dataBytes, hbounds.minBuffers,
        hbounds.maxBuffers, hbounds.bufferLen⟩, hroom, hfull⟩

/-- Looking for room, with memory for a new buffer, fails only if no byte of the last block is lost
before its data. -/
theorem data_eq_zero_of_prepareBuf {mem : Mem} {len : ℕ} (hlen : 0 < len)
    (h : (ustreamPrepareBuf fix (some mem) l len).1 = false) :
    ∀ buf ∈ (ustreamPrepareBuf fix (some mem) l len).2.rest, buf.data = 0 := by
  have halloc (l' : UstreamBufList) (h : (allocDataTail (some mem) l').1 = false) :
      ustreamCanAlloc l' = false ∧ allocDataTail (some mem) l' = (false, l') := by
    rw [allocDataTail, ustreamAllocDefault] at *
    split_ifs at h ⊢ with hcan
    · exact absurd h nofun
    · exact ⟨Bool.eq_false_of_not_eq_true hcan, rfl⟩
  rw [ustreamPrepareBuf] at *
  cases hr : l.rest with
  | nil =>
    rw [hr] at h
    dsimp only at h ⊢
    rw [(halloc l h).2, hr]
    exact nofun
  | cons buf next =>
    rw [hr] at h
    dsimp only at h ⊢
    generalize hmoved : (if ustreamShouldMove l buf next.isEmpty len = true then moveBuf fix buf
      else buf) = buf' at h ⊢
    split_ifs at h ⊢ with htail hnext
    obtain ⟨hcan, hfail⟩ := halloc _ h
    have hcan : ustreamCanAlloc l = false := hcan
    rw [hfail, setDataTail, hr, List.tail_cons, not_not.mp hnext]
    refine List.forall_mem_singleton.mpr ?_
    rw [← hmoved]
    split
    · exact UstreamBuf.data_moveBuf _ _
    · rename_i hstay
      -- a last buffer that is full to its end is moved, unless it starts at its block
      rw [if_neg hstay] at hmoved
      rw [hmoved, not_not.mp hnext, ustreamShouldMove, hcan, not_not.mp htail,
        Nat.sub_self] at hstay
      by_contra hne
      rw [hmoved] at hne
      rw [if_neg hne] at hstay
      split_ifs at hstay with _ _ hlast
      · exact hstay rfl
      · exact hstay rfl
      · exact Bool.false_ne_true hlast
      · exact hstay (decide_eq_true hlen)

/-- A chain of one buffer is empty or has just the buffer at `data_tail`. -/
theorem Ok.cases_one (h : l.Ok fix) (hmax : l.maxBuffers = 1) :
    l.chain = [] ∨ ∃ buf, l.rest = [buf] ∧ l.chain = [buf] := by
  have hcount := h.buffers
  have hbound := h.bound (by omega)
  rw [chain] at *
  cases hr : l.rest with
  | nil =>
    rw [h.null hr]
    exact .inl rfl
  | cons buf next =>
    rw [hr, List.length_append, List.length_cons] at hcount
    have hf : l.filled = [] := List.eq_nil_of_length_eq_zero (by omega)
    have hnext : next = [] := List.eq_nil_of_length_eq_zero (by omega)
    rw [hf, hnext]
    exact .inr ⟨buf, rfl, rfl⟩

/-- A chain of one buffer holds a block of bytes at most. -/
theorem Ok.length_bytes_le (h : l.Ok fix) (hmax : l.maxBuffers = 1) :
    l.bytes.length ≤ l.bufferLen := by
  rcases h.cases_one hmax with hc | ⟨buf, -, hc⟩
  · rw [bytes, hc]
    exact Nat.zero_le _
  · have hbuf := h.ok buf (hc ▸ List.mem_cons_self)
    rw [bytes, hc, List.flatMap_singleton, UstreamBuf.length_bytes, ← hbuf.2]
    exact (Nat.sub_le _ _).trans hbuf.1.tail_le

/-- A chain of one buffer that is full holds a block of bytes. -/
theorem Ok.length_bytes_of_isFull (h : l.Ok fix) (hmax : l.maxBuffers = 1) {mem : Mem}
    (hfull : l.IsFull (some mem)) (hdata : ∀ buf ∈ l.rest, buf.data = 0) :
    l.bytes.length = l.bufferLen := by
  rcases h.cases_one hmax with hc | ⟨buf, hr, hc⟩
  · have halloc := hfull.alloc
    rw [ustreamAllocDefault, ustreamCanAlloc, hmax, h.buffers, hc] at halloc
    exact absurd halloc nofun
  · have hbuf := h.ok buf (hc ▸ List.mem_cons_self)
    have hmem : buf ∈ l.rest := hr ▸ List.mem_cons_self
    rw [bytes, hc, List.flatMap_singleton, UstreamBuf.length_bytes, hfull.tail buf hmem,
      hdata buf hmem, hbuf.2, Nat.sub_zero]

/-- The first buffer has bytes when the chain has. -/
theorem Ok.head_ne_nil (h : l.Ok fix) (hc : l.chain = buf :: next) (hne : l.bytes ≠ []) :
    buf.bytes ≠ [] := by
  have hok := (h.ok buf (hc ▸ List.mem_cons_self)).1
  have hpos : 0 < buf.tail → buf.bytes ≠ [] := by
    intro htail hnil
    have hlen := UstreamBuf.length_bytes buf
    rw [hnil, List.length_nil] at hlen
    have := (hok.empty (by omega)).2
    omega
  rcases cases_head hc with ⟨hf, hr⟩ | ⟨bufs, hf, -⟩
  · intro hnil
    refine hne ?_
    rw [h.bytes_eq hr, hf, hnil]
    rfl
  · refine hpos ?_
    rw [h.filled buf (by rw [hf]; exact List.mem_cons_self)]
    exact hok.len_pos

theorem bytes_of_chain (hc : l.chain = buf :: next) :
    l.bytes = buf.bytes ++ next.flatMap UstreamBuf.bytes := by
  rw [bytes, hc, List.flatMap_cons]

theorem sameBounds_freeBuf (l : UstreamBufList) (buf : UstreamBuf) :
    SameBounds l (ustreamFreeBuf l buf) := by
  rw [ustreamFreeBuf]
  dsimp only
  split <;> exact ⟨rfl, rfl, rfl, rfl⟩

theorem SameBounds.trans {l₁ l₂ l₃ : UstreamBufList} (h₁ : SameBounds l₁ l₂)
    (h₂ : SameBounds l₂ l₃) : SameBounds l₁ l₃ where
  dataBytes := h₂.dataBytes.trans h₁.dataBytes
  minBuffers := h₂.minBuffers.trans h₁.minBuffers
  maxBuffers := h₂.maxBuffers.trans h₁.maxBuffers
  bufferLen := h₂.bufferLen.trans h₁.bufferLen

end UstreamBufList

end M57Card.Libubox
