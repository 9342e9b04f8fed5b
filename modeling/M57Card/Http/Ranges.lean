import M57Card.Http.Lookup
import M57Card.Lib.Numerals

/-!
# The part of a file that a request asks for

A request may ask for a part of a file, provided it also names the state of the file in which it
takes the part (`If-Range` or `If-Match` with the tag that the server sends). `uh_prase_range`
(`file.c`, lines 351–399) reads `first-last`, `first-` and `-count`; only the first of several parts
is looked at.

## Main definitions

* `RangeResult`, `uhPraseRange`, `fileEtag`, `uhFileIfRange`.
* `FileReply`, `uhFileRequest` : how a request for a file is answered.

## Main results

* `uhPraseRange_printed` : the parts that the three forms name.
* `body_of_uhFileRequest` : a part that is sent lies in the file, and is announced.
-/

namespace M57Card.Http

open Rest (Text Kvlist kvlistGet)
open Numerals

/-- What `uh_prase_range` leaves in `cl->range` and returns. -/
inductive RangeResult where
  /-- the result is not set, or the text is read in front of its first character -/
  | undefined
  | refused
  | range (offset length : ℕ)
  deriving DecidableEq

/-- `uh_prase_range`, with the overflow of the numbers of 64 bits. -/
def uhPraseRange (bytes : Text) (st : Stat) : RangeResult :=
  let text := bytes.takeWhile (· ≠ ',')
  if text.head? = some '-' then
    let length := ((strtoul text.tail).1 + 1) % 2 ^ 64
    if st.size < length then .refused else .range (st.size - length) length
  else if text = [] then .undefined
  else if text.getLast? = some '-' then
    let offset := (strtoul text).1
    if st.size ≤ offset then .refused else .range offset (st.size - offset)
  else
    let offset := (strtoul text).1
    match Fields.after '-' text with
    | none => .undefined
    | some p =>
      let last := (strtoul p).1
      if st.size ≤ last ∨ last < offset then .refused else .range offset (last - offset + 1)

/-- `file_Etag`. -/
def fileEtag (st : Stat) : Text :=
  Nat.toDigits 16 (st.mtime % 2 ^ 64).toNat ++ '-' :: Nat.toDigits 10 st.size

/-- `uh_file_if_range`. -/
def uhFileIfRange (header : Kvlist) (st : Stat) : RangeResult :=
  match kvlistGet header "range".toList with
  | none => .range 0 st.size
  | some range =>
    if kvlistGet header "if-range".toList = some (fileEtag st) ∨
        kvlistGet header "if-match".toList = some (fileEtag st) then
      match Fields.after '=' range with
      | none => .refused
      | some bytes => uhPraseRange bytes st
    else .range 0 st.size

/-- `uh_file_if_modified_since`; the date is read by `strptime` and `timegm`. -/
def uhFileIfModifiedSince (timegm : Text → Option ℤ) (header : Kvlist) (st : Stat) : Bool :=
  match kvlistGet header "if-modified-since".toList with
  | none => true
  | some date => decide ((timegm date).getD 0 < st.mtime)

/-- `S_IROTH`. -/
def Stat.isReadable (s : Stat) : Bool := s.mode &&& 0o4 != 0

/-- How a request for a file is answered: the status, the announced length, and the part of the
file that is sent. -/
inductive FileReply where
  | undefined
  /-- an error page with the status 403 -/
  | forbidden
  /-- an answer without a body -/
  | head (status contentLength : ℕ)
  | body (status contentLength offset length : ℕ)
  deriving DecidableEq

/-- `uh_file_data`. -/
def uhFileData (timegm : Text → Option ℤ) (header : Kvlist) (isHead : Bool) (st : Stat) :
    FileReply :=
  if ¬ uhFileIfModifiedSince timegm header st then .head 304 0
  else
    match uhFileIfRange header st with
    | .undefined => .undefined
    | .refused => .head 416 st.size
    | .range offset length =>
      let status := if length = st.size then 200 else 206
      let contentLength := if length = st.size then st.size else length
      if isHead then .head status contentLength else .body status contentLength offset length

/-- `uh_file_request`; the file may not be opened. -/
def uhFileRequest (opens : Bool) (timegm : Text → Option ℤ) (header : Kvlist) (isHead : Bool)
    (st : Stat) : FileReply :=
  if st.isReadable ∧ st.isReg ∧ opens then uhFileData timegm header isHead st else .forbidden

/-! ### The three forms -/

theorem notMem_toDigits {c : Char} (hc : c.isDigit = false) (n : ℕ) : c ∉ Nat.toDigits 10 n := by
  intro hmem
  have hdigit := Nat.isDigit_of_mem_toDigits (by decide) (by decide) hmem
  exact Bool.false_ne_true (hc.symm.trans hdigit)

theorem head?_toDigits_append_ne {c : Char} (hc : c.isDigit = false) (n : ℕ) (s : Text) :
    (Nat.toDigits 10 n ++ s).head? ≠ some c := by
  obtain ⟨d, r, hcons⟩ := List.exists_cons_of_ne_nil (@Nat.toDigits_ne_nil n 10)
  have hmem := notMem_toDigits hc n
  rw [hcons] at hmem ⊢
  intro heq
  exact hmem (Option.some.inj heq ▸ List.mem_cons_self)

theorem strtoul_toDigits {n : ℕ} (hn : n < 2 ^ 64) : strtoul (Nat.toDigits 10 n) = (n, []) := by
  have h := @strtoul_toDigits_append n hn [] (by simp)
  rwa [List.append_nil] at h

theorem strtoul_toDigits_dash {n : ℕ} (hn : n < 2 ^ 64) (s : Text) :
    strtoul (Nat.toDigits 10 n ++ '-' :: s) = (n, '-' :: s) := by
  refine strtoul_toDigits_append hn fun c hc => ?_
  obtain rfl := Option.some.inj hc
  decide

/-- The part in front of the first comma. -/
theorem takeWhile_comma_append {text more : Text} (htext : ',' ∉ text)
    (hmore : more.head? = none ∨ more.head? = some ',') :
    (text ++ more).takeWhile (· ≠ ',') = text := by
  rw [Fields.takeWhile_of_not_mem htext]
  cases more with
  | nil => rw [List.takeWhile_nil, List.append_nil]
  | cons c more =>
    obtain rfl : c = ',' := by simpa using hmore
    rw [List.takeWhile_cons_of_neg (by simp), List.append_nil]

variable {first last : ℕ} {st : Stat} {more : Text}

/-- `first-last` names the bytes from one to the other, `first-` those from there to the end, and
`-count` one byte more than `count` at the end; the parts behind a comma are not looked at. A part
that does not lie in the file is refused. The numbers are below `2 ^ 64 - 1`: with `-count` for this
number the length wraps to zero, and the empty part at the end of the file is accepted. -/
theorem uhPraseRange_printed (hfirst : first < 2 ^ 64 - 1) (hlast : last < 2 ^ 64 - 1)
    (hmore : more.head? = none ∨ more.head? = some ',') :
    uhPraseRange (Nat.toDigits 10 first ++ '-' :: Nat.toDigits 10 last ++ more) st =
        (if first ≤ last ∧ last < st.size then .range first (last - first + 1) else .refused) ∧
      uhPraseRange (Nat.toDigits 10 first ++ ['-'] ++ more) st =
        (if first < st.size then .range first (st.size - first) else .refused) ∧
      uhPraseRange ('-' :: Nat.toDigits 10 last ++ more) st =
        (if last < st.size then .range (st.size - (last + 1)) (last + 1) else .refused) := by
  have hcomma : ∀ n, ',' ∉ Nat.toDigits 10 n := notMem_toDigits rfl
  have hdash : ∀ n, '-' ∉ Nat.toDigits 10 n := notMem_toDigits rfl
  have hne : ∀ (n : ℕ) (s : Text), Nat.toDigits 10 n ++ s ≠ [] := fun n s =>
    List.append_ne_nil_of_left_ne_nil Nat.toDigits_ne_nil s
  refine ⟨?_, ?_, ?_⟩
  · have htext : ',' ∉ Nat.toDigits 10 first ++ '-' :: Nat.toDigits 10 last := by
      simp [hcomma first, hcomma last]
    have hlastChar :
        (Nat.toDigits 10 first ++ '-' :: Nat.toDigits 10 last).getLast? ≠ some '-' := by
      rw [List.getLast?_append_cons, List.getLast?_cons_of_ne_nil Nat.toDigits_ne_nil]
      exact fun h => hdash last (List.mem_of_getLast? h)
    rw [uhPraseRange, takeWhile_comma_append htext hmore,
      if_neg (head?_toDigits_append_ne rfl first _), if_neg (hne first _), if_neg hlastChar,
      Fields.after_append_cons (hdash first), strtoul_toDigits_dash (by omega)]
    dsimp only
    rw [strtoul_toDigits (by omega)]
    split_ifs
    all_goals first | rfl | omega
  · have htext : ',' ∉ Nat.toDigits 10 first ++ ['-'] := by simp [hcomma first]
    have hlastChar : (Nat.toDigits 10 first ++ ['-']).getLast? = some '-' := List.getLast?_concat
    rw [uhPraseRange, takeWhile_comma_append htext hmore,
      if_neg (head?_toDigits_append_ne rfl first _), if_neg (hne first _), if_pos hlastChar,
      strtoul_toDigits_dash (by omega)]
    dsimp only
    split_ifs
    all_goals first | rfl | omega
  · have htext : ',' ∉ '-' :: Nat.toDigits 10 last := by simp [hcomma last]
    have hmod : (last + 1) % 2 ^ 64 = last + 1 := Nat.mod_eq_of_lt (by omega)
    rw [uhPraseRange, takeWhile_comma_append htext hmore, List.head?_cons, if_pos rfl,
      List.tail_cons, strtoul_toDigits (by omega)]
    dsimp only
    rw [hmod]
    split_ifs
    all_goals first | rfl | omega

theorem uhPraseRange_printed_hundred :
    uhPraseRange "0-99,200-".toList ⟨0o100644, 1000, 0⟩ = .range 0 100 :=
  (@uhPraseRange_printed 0 99 ⟨0o100644, 1000, 0⟩ ",200-".toList (by decide) (by decide)
    (by decide)).1

/-! ### What is sent -/

theorem le_size_of_uhPraseRange {bytes : Text} {offset length : ℕ}
    (h : uhPraseRange bytes st = .range offset length) : offset + length ≤ st.size := by
  rw [uhPraseRange] at h
  dsimp only at h
  split_ifs at h with hdash hsize hnil hend hsize
  · obtain ⟨rfl, rfl⟩ := RangeResult.range.inj h
    omega
  · obtain ⟨rfl, rfl⟩ := RangeResult.range.inj h
    omega
  · split at h
    · exact RangeResult.noConfusion h
    · split_ifs at h with hlast
      obtain ⟨rfl, rfl⟩ := RangeResult.range.inj h
      omega

/-- A part of the file is asked for by its tag. -/
def NamesTag (header : Kvlist) (st : Stat) : Prop :=
  kvlistGet header "if-range".toList = some (fileEtag st) ∨
    kvlistGet header "if-match".toList = some (fileEtag st)

theorem range_of_uhFileIfRange {header : Kvlist} {offset length : ℕ}
    (h : uhFileIfRange header st = .range offset length) :
    offset + length ≤ st.size ∧ (length = st.size ∨ NamesTag header st) := by
  have hwhole : RangeResult.range 0 st.size = .range offset length →
      offset + length ≤ st.size ∧ (length = st.size ∨ NamesTag header st) := by
    intro heq
    obtain ⟨rfl, rfl⟩ := RangeResult.range.inj heq
    exact ⟨(Nat.zero_add _).le, Or.inl rfl⟩
  rw [uhFileIfRange] at h
  split at h
  · exact hwhole h
  · split_ifs at h with htag
    · split at h
      · exact RangeResult.noConfusion h
      · exact ⟨le_size_of_uhPraseRange h, Or.inr htag⟩
    · exact hwhole h

/-- The part that is sent lies in the file and is announced; the status is 200 where it is the whole
file, and a part is sent only where the request names the tag of the file. -/
theorem body_of_uhFileRequest {opens isHead : Bool} {timegm : Text → Option ℤ} {header : Kvlist}
    {status contentLength offset length : ℕ}
    (h : uhFileRequest opens timegm header isHead st = .body status contentLength offset length) :
    offset + length ≤ st.size ∧ contentLength = length ∧ isHead = false ∧
      (status = 200 ∧ length = st.size ∨ status = 206 ∧ NamesTag header st) := by
  rw [uhFileRequest, uhFileData] at h
  split_ifs at h with hreg hsince hhead
  · split at h
    all_goals exact FileReply.noConfusion h
  · split at h
    · exact FileReply.noConfusion h
    · exact FileReply.noConfusion h
    · next o l hrange =>
      obtain ⟨hle, htag⟩ := range_of_uhFileIfRange hrange
      obtain ⟨hstatus, hlength, rfl, rfl⟩ := FileReply.body.inj h
      refine ⟨hle, ?_, Bool.eq_false_of_not_eq_true hhead, ?_⟩
      · rw [← hlength]
        split_ifs with hsize
        · exact hsize.symm
        · rfl
      · split_ifs at hstatus with hsize
        · exact Or.inl ⟨hstatus.symm, hsize⟩
        · exact Or.inr ⟨hstatus.symm, htag.resolve_left hsize⟩

end M57Card.Http
