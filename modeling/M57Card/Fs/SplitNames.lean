import Mathlib.Algebra.Ring.Nat
import Mathlib.Data.List.Basic
import Mathlib.Data.List.TakeWhile

/-!
# The names of the split files

A recording is split into files; `_fs_split_file_rename` (`fs.c`, lines 396–429) makes the name of
the next file from the name of the last one. A name `CHx_D_F_B_R_TIQ.wav` gets a number behind it,
and in a name `CHx_D_F_B_R_Nnnnn_TIQ.wav` the number is replaced.

## Main definitions

* `scanFields`, `fsSplitFileRename` : the model.
* `RecordName` : the names of the two forms.
* `RecordName.name` : the name of the first file, and those of the split files.

## Main results

* `RecordName.rename_name` : the next name.
* `RecordName.name_ne` : when a name differs from the names before it.
-/

namespace M57Card.Fs

/-! ### The model -/

/-- A conversion `%[^_]`: the characters in front of the next `_`, not empty and no more than the
buffer holds. -/
def scanField (s : List Char) : Option (List Char) :=
  let p := s.takeWhile (· ≠ '_')
  if p = [] ∨ 64 ≤ p.length then none else some p

/-- `sscanf` with `n + 1` conversions `%[^_]` and `_` between them. -/
def scanFields : ℕ → List Char → Option (List (List Char))
  | 0, s => (scanField s).map fun p => [p]
  | n + 1, s => (scanField s).bind fun p =>
      (scanFields n ((s.dropWhile (· ≠ '_')).drop 1)).map (p :: ·)

/-- `strstr` for `_SPLIT_FILE_TAG_STR`. -/
def hasTag : List Char → Bool
  | [] => false
  | c :: s => (c == '_' && s.head? == some 'N') || hasTag s

/-- `%04d`. -/
def pad4 (n : ℕ) : List Char := (Nat.toDigits 10 n).leftpad 4 '0'

/-- Fields with `_` between them. -/
def joined (parts : List (List Char)) : List Char := List.intercalate ['_'] parts

/-- `TIQ.wav`. -/
def tiqWav : List Char := ['T', 'I', 'Q', '.', 'w', 'a', 'v']

/-- `FILE_NAME_LEN`. -/
def FILE_NAME_LEN : ℕ := 256

/-- `_fs_split_file_rename`; without the fields of a name there is no next one. -/
def fsSplitFileRename (filename : List Char) (splitNum : ℕ) : Option (List Char) :=
  if hasTag filename then
    (scanFields 6 filename).map fun parts =>
      (joined (parts.take 5) ++ '_' :: 'N' :: (pad4 (splitNum + 1) ++ '_' :: parts.getD 6 [])).take
        (FILE_NAME_LEN - 1)
  else
    (scanFields 5 filename).map fun parts =>
      (joined (parts.take 5) ++ '_' :: (tiqWav ++ '.' :: Nat.toDigits 10 splitNum)).take
        (FILE_NAME_LEN - 1)

/-! ### Names of recordings -/

/-- A name `CHx_D_F_B_R_TIQ.wav` or `CHx_D_F_B_R_Nnnnn_TIQ.wav` that the buffers hold: what stands
behind the letters, and the number. -/
structure RecordName where
  ch : List Char
  d : List Char
  f : List Char
  b : List Char
  r : List Char
  num : Option ℕ
  notMem : '_' ∉ ch ++ d ++ f ++ b ++ r
  ch_le : ch.length ≤ 61
  d_le : d.length ≤ 62
  f_le : f.length ≤ 62
  b_le : b.length ≤ 62
  r_le : r.length ≤ 62
  num_lt : ∀ m ∈ num, m < 10000
  length_le : (ch ++ d ++ f ++ b ++ r).length ≤ 220

namespace RecordName

variable (w : RecordName)

/-- The fields in front of the number. -/
def parts : List (List Char) := ['C' :: 'H' :: w.ch, 'D' :: w.d, 'F' :: w.f, 'B' :: w.b, 'R' :: w.r]

/-- What stands behind these fields in the name of the file with the number `k`. -/
def tail (k : ℕ) : List Char :=
  match w.num with
  | none => if k = 0 then '_' :: tiqWav else '_' :: (tiqWav ++ '.' :: Nat.toDigits 10 k)
  | some m => '_' :: 'N' :: (pad4 (if k = 0 then m else k + 1) ++ '_' :: tiqWav)

/-- The name of the first file and of the split files. -/
def name (k : ℕ) : List Char := joined w.parts ++ w.tail k

end RecordName

/-! ### Scanning names -/

theorem takeWhile_field {p : List Char} (hp : '_' ∉ p) (rest : List Char) :
    (p ++ '_' :: rest).takeWhile (· ≠ '_') = p ∧
      (p ++ '_' :: rest).dropWhile (· ≠ '_') = '_' :: rest := by
  induction p with
  | nil => simp
  | cons c p ih =>
    obtain ⟨hc, hp⟩ := not_or.mp (List.mem_cons.not.mp hp)
    obtain ⟨htake, hdrop⟩ := ih hp
    have hne : c ≠ '_' := fun heq => hc heq.symm
    simp only [List.cons_append, List.takeWhile_cons, List.dropWhile_cons, hne, ne_eq,
      not_false_eq_true, decide_true, if_true]
    exact ⟨congrArg _ htake, hdrop⟩

/-- A field that fits its buffer. -/
structure IsField (p : List Char) : Prop where
  ne_nil : p ≠ []
  lt : p.length < 64
  notMem : '_' ∉ p

theorem IsField.cons {c : Char} {p : List Char} (hc : '_' ≠ c) (hp : '_' ∉ p)
    (hlen : p.length ≤ 62) :
    IsField (c :: p) :=
  ⟨List.cons_ne_nil c p, Nat.lt_succ_of_le (Nat.succ_le_succ hlen),
    List.mem_cons.not.mpr (not_or.mpr ⟨hc, hp⟩)⟩

theorem scanField_append {p : List Char} (hp : IsField p) (rest : List Char) :
    scanField (p ++ '_' :: rest) = some p := by
  have hfits : ¬ (p = [] ∨ 64 ≤ p.length) := not_or.mpr ⟨hp.ne_nil, not_le.mpr hp.lt⟩
  rw [scanField, (takeWhile_field hp.notMem rest).1, if_neg hfits]

theorem scanFields_cons {p : List Char} (hp : IsField p) (n : ℕ) (rest : List Char) :
    scanFields (n + 1) (p ++ '_' :: rest) = (scanFields n rest).map (p :: ·) := by
  rw [scanFields, scanField_append hp, (takeWhile_field hp.notMem rest).2]
  rfl

theorem scanFields_last {p : List Char} (hp : IsField p) : scanFields 0 p = some [p] := by
  have htake : p.takeWhile (· ≠ '_') = p :=
    List.takeWhile_eq_self_iff.mpr fun c hc => decide_eq_true fun heq => hp.notMem (heq ▸ hc)
  have hfits : ¬ (p = [] ∨ 64 ≤ p.length) := not_or.mpr ⟨hp.ne_nil, not_le.mpr hp.lt⟩
  rw [scanFields, scanField, htake, if_neg hfits]
  rfl

theorem hasTag_append {p : List Char} (hp : '_' ∉ p) (s : List Char) :
    hasTag (p ++ s) = hasTag s := by
  induction p with
  | nil => rfl
  | cons c p ih =>
    obtain ⟨hc, hp⟩ := not_or.mp (List.mem_cons.not.mp hp)
    have hne : (c == '_') = false := beq_eq_false_iff_ne.mpr fun heq => hc heq.symm
    rw [List.cons_append, hasTag, hne, Bool.false_and, Bool.false_or, ih hp]

theorem hasTag_cons {c : Char} (hc : c ≠ 'N') (s : List Char) :
    hasTag ('_' :: c :: s) = hasTag (c :: s) := by
  have hne : (c == 'N') = false := beq_eq_false_iff_ne.mpr hc
  rw [hasTag, List.head?_cons, Option.some_beq_some, hne, Bool.and_false, Bool.false_or]

/-! ### Numbers -/

/-- The value of a padded number. -/
theorem ofDigitChars_pad4 (n : ℕ) : Nat.ofDigitChars 10 (pad4 n) 0 = n := by
  rw [pad4, List.leftpad, Nat.ofDigitChars_append, Nat.ofDigitChars_replicate_zero, Nat.mul_zero,
    Nat.ofDigitChars_ten_toDigits]

theorem pad4_injective : Function.Injective pad4 := by
  intro a b h
  rw [← ofDigitChars_pad4 a, h, ofDigitChars_pad4]

theorem toDigits_injective : Function.Injective (Nat.toDigits 10) := by
  intro a b h
  rw [← Nat.ofDigitChars_ten_toDigits (n := a), h, Nat.ofDigitChars_ten_toDigits]

/-- An `int` has at most ten digits. -/
theorem length_toDigits_le {n : ℕ} (hn : n < 2 ^ 31) : (Nat.toDigits 10 n).length ≤ 10 :=
  (Nat.length_toDigits_le_iff (by decide) (by decide)).mpr (hn.trans (by decide))

theorem length_pad4_le {n : ℕ} (hn : n < 2 ^ 31) : (pad4 n).length ≤ 10 := by
  have hlen := length_toDigits_le hn
  rw [pad4, List.length_leftpad]
  omega

theorem underscore_notMem_pad4 (n : ℕ) : '_' ∉ pad4 n := by
  rw [pad4, List.leftpad, List.mem_append, not_or]
  refine ⟨fun hmem => ?_, Nat.underscore_not_in_toDigits⟩
  exact absurd (List.eq_of_mem_replicate hmem) (by decide)

/-! ### The next name -/

namespace RecordName

variable (w : RecordName)

/-- The fields of a name, and what stands behind them. -/
theorem name_eq (k : ℕ) : w.name k = ('C' :: 'H' :: w.ch) ++ '_' :: (('D' :: w.d) ++ '_' ::
    (('F' :: w.f) ++ '_' :: (('B' :: w.b) ++ '_' :: (('R' :: w.r) ++ w.tail k)))) := by
  simp [name, joined, parts, List.intercalate]

theorem isField_parts : IsField ('C' :: 'H' :: w.ch) ∧ IsField ('D' :: w.d) ∧
    IsField ('F' :: w.f) ∧ IsField ('B' :: w.b) ∧ IsField ('R' :: w.r) := by
  have hnot := w.notMem
  simp only [List.mem_append, not_or] at hnot
  obtain ⟨⟨⟨⟨hch, hd⟩, hf⟩, hb⟩, hr⟩ := hnot
  have hh : '_' ∉ 'H' :: w.ch := by
    rw [List.mem_cons, not_or]
    exact ⟨by decide, hch⟩
  exact ⟨.cons (by decide) hh (Nat.succ_le_succ w.ch_le), .cons (by decide) hd w.d_le,
    .cons (by decide) hf w.f_le, .cons (by decide) hb w.b_le, .cons (by decide) hr w.r_le⟩

/-- The tag is that of the number. -/
theorem hasTag_name (k : ℕ) : hasTag (w.name k) = w.num.isSome := by
  obtain ⟨hch, hd, hf, hb, hr⟩ := w.isField_parts
  have hfields : hasTag (w.name k) = hasTag (w.tail k) := by
    rw [name_eq, hasTag_append hch.notMem, List.cons_append, hasTag_cons (by decide),
      ← List.cons_append, hasTag_append hd.notMem, List.cons_append, hasTag_cons (by decide),
      ← List.cons_append, hasTag_append hf.notMem, List.cons_append, hasTag_cons (by decide),
      ← List.cons_append, hasTag_append hb.notMem, List.cons_append, hasTag_cons (by decide),
      ← List.cons_append, hasTag_append hr.notMem]
  rw [hfields, tail]
  cases w.num with
  | some m => rfl
  | none =>
    have hdigits : hasTag (Nat.toDigits 10 k) = false := by
      rw [← List.append_nil (Nat.toDigits 10 k),
        hasTag_append Nat.underscore_not_in_toDigits]
      rfl
    split_ifs
    · rfl
    · exact hdigits

theorem isField_tiqWav : IsField tiqWav := ⟨by decide, by decide, by decide⟩

/-- The last field of a name without a number. -/
theorem isField_numbered {k : ℕ} (hk : k < 2 ^ 31) :
    IsField (tiqWav ++ '.' :: Nat.toDigits 10 k) := by
  have hlen := length_toDigits_le hk
  refine ⟨List.append_ne_nil_of_left_ne_nil (by decide) _, ?_, ?_⟩
  · rw [List.length_append, List.length_cons]
    have htiq : tiqWav.length = 7 := rfl
    omega
  · rw [List.mem_append, List.mem_cons, not_or, not_or]
    exact ⟨by decide, by decide, Nat.underscore_not_in_toDigits⟩

theorem isField_pad4 {n : ℕ} (hn : n < 2 ^ 31) : IsField ('N' :: pad4 n) :=
  .cons (by decide) (underscore_notMem_pad4 n) ((length_pad4_le hn).trans (by decide))

/-- The fields in front are read one after the other. -/
theorem scanFields_name (n k : ℕ) {rest : List Char} (h : w.tail k = '_' :: rest) :
    scanFields (n + 5) (w.name k) = (scanFields n rest).map (w.parts ++ ·) := by
  obtain ⟨hch, hd, hf, hb, hr⟩ := w.isField_parts
  rw [name_eq, h, scanFields_cons hch, scanFields_cons hd, scanFields_cons hf, scanFields_cons hb,
    scanFields_cons hr]
  cases scanFields n rest with
  | none => rfl
  | some ps => rfl

theorem length_joined_parts : (joined w.parts).length ≤ 230 := by
  have hlen := w.length_le
  simp only [List.length_append] at hlen
  simp [joined, parts, List.intercalate]
  omega

/-- A name with a short tail is not cut. -/
theorem take_joined {t : List Char} (ht : t.length ≤ 20) :
    (joined w.parts ++ t).take (FILE_NAME_LEN - 1) = joined w.parts ++ t := by
  have hlen := w.length_joined_parts
  refine List.take_of_length_le ?_
  rw [List.length_append, FILE_NAME_LEN]
  omega

/-- The name of the next file. -/
theorem rename_name {k : ℕ} (hk : k + 2 < 2 ^ 31) :
    fsSplitFileRename (w.name k) (k + 1) = some (w.name (k + 1)) := by
  have htiq : tiqWav.length = 7 := rfl
  rw [fsSplitFileRename, hasTag_name]
  cases hnum : w.num with
  | none =>
    have hdigits := length_toDigits_le (n := k + 1) (by omega)
    have hnext : w.name (k + 1) =
        joined w.parts ++ '_' :: (tiqWav ++ '.' :: Nat.toDigits 10 (k + 1)) := by
      simp only [name, tail, hnum, Nat.succ_ne_zero, if_false]
    obtain ⟨rest, hrest, hfield⟩ : ∃ rest, w.tail k = '_' :: rest ∧ IsField rest := by
      rw [tail, hnum]
      dsimp only
      split_ifs
      · exact ⟨_, rfl, isField_tiqWav⟩
      · exact ⟨_, rfl, isField_numbered (by omega)⟩
    have hscan : scanFields 5 (w.name k) = some (w.parts ++ [rest]) := by
      rw [w.scanFields_name 0 k hrest, scanFields_last hfield]
      rfl
    have htake : (w.parts ++ [rest]).take 5 = w.parts := rfl
    rw [Option.isSome_none, if_neg Bool.false_ne_true, hscan, Option.map_some, htake, hnext,
      take_joined]
    simp only [List.length_cons, List.length_append]
    omega
  | some m =>
    have hm : m < 10000 := w.num_lt m hnum
    have hpad := length_pad4_le (n := k + 1 + 1) (by omega)
    have hnext : w.name (k + 1) =
        joined w.parts ++ '_' :: 'N' :: (pad4 (k + 1 + 1) ++ '_' :: tiqWav) := by
      simp only [name, tail, hnum, Nat.succ_ne_zero, if_false]
    have hscan : scanFields 6 (w.name k) =
        some (w.parts ++ ['N' :: pad4 (if k = 0 then m else k + 1), tiqWav]) := by
      have htail :
          w.tail k = '_' :: 'N' :: (pad4 (if k = 0 then m else k + 1) ++ '_' :: tiqWav) := by
        rw [tail, hnum]
      have hfield : IsField ('N' :: pad4 (if k = 0 then m else k + 1)) :=
        isField_pad4 (by split_ifs <;> omega)
      rw [w.scanFields_name 1 k htail, ← List.cons_append, scanFields_cons hfield,
        scanFields_last isField_tiqWav]
      rfl
    have htake : (w.parts ++ ['N' :: pad4 (if k = 0 then m else k + 1), tiqWav]).take 5 = w.parts :=
      rfl
    have hlast :
        (w.parts ++ ['N' :: pad4 (if k = 0 then m else k + 1), tiqWav]).getD 6 [] = tiqWav :=
      rfl
    rw [Option.isSome_some, if_pos rfl, hscan, Option.map_some, htake, hlast, hnext, take_joined]
    simp only [List.length_cons, List.length_append]
    omega

/-- A name differs from the names before it, unless it has the number of the first one. -/
theorem name_ne {i j : ℕ} (hij : i < j) (h : w.num ≠ some (j + 1)) : w.name i ≠ w.name j := by
  intro heq
  have htail := List.append_cancel_left heq
  have hj : j ≠ 0 := by omega
  rw [tail, tail] at htail
  cases hnum : w.num with
  | none =>
    simp only [hnum, hj, if_false] at htail
    split_ifs at htail with hi
    · exact absurd (congrArg List.length htail) (by simp)
    · have hdigits := (List.cons.inj (List.append_cancel_left (List.cons.inj htail).2)).2
      exact absurd (toDigits_injective hdigits) (by omega)
  | some m =>
    simp only [hnum, hj, if_false] at htail
    have hpad := pad4_injective
      (List.append_cancel_right (List.cons.inj (List.cons.inj htail).2).2)
    split_ifs at hpad with hi
    · exact h (hnum.trans (congrArg some hpad))
    · omega

end RecordName

end M57Card.Fs
