import M57Card.Lib.Numerals
import M57Card.Rest.Routing

/-!
# Percent encoding

`uh_urlencode` and `uh_urldecode` (`utils.c`, lines 99–160). A text is a C string, a character for
each byte.

## Main definitions

* `uhUrlencode`, `uhUrldecode`.
* `encoded` : the encoded text, without a buffer.

## Main results

* `uhUrlencode_eq` : encoding succeeds exactly where the text fits the buffer.
* `uhUrldecode_encoded_append` : an encoded text at the front is decoded.
* `uhUrldecode_uhUrlencode` : the round trip.
-/

namespace M57Card.Http

open Rest (Text)
open Numerals (digitVal)

/-! ### The model -/

/-- A character of a C string. -/
def IsByte (c : Char) : Prop := c.toNat < 256

instance : DecidablePred IsByte := fun c => inferInstanceAs (Decidable (c.toNat < 256))

/-- `isalnum`, `-`, `_`, `.` and `~`. -/
def isPlain (c : Char) : Bool :=
  c.isAlphanum || c == '-' || c == '_' || c == '.' || c == '~'

/-- The table of `uh_urlencode`. -/
def hexDigit (n : ℕ) : Char := Nat.digitChar n

/-- What a character is encoded as. -/
def encodeChar (c : Char) : Text :=
  if isPlain c then [c]
  else ['%', hexDigit (c.toNat / 16 % 16), hexDigit (c.toNat % 16)]

/-- The loop of `uh_urlencode`, with what is left of the buffer and the text so far, its last
character in front. -/
def urlencodeLoop : Text → ℕ → Text → Option Text
  | [], _, buf => some buf.reverse
  | _ :: _, 0, _ => none
  | c :: src, room + 1, buf =>
    if isPlain c then urlencodeLoop src room (c :: buf)
    else if 3 ≤ room + 1 then urlencodeLoop src (room + 1 - 3) ((encodeChar c).reverse ++ buf)
    else none

/-- `uh_urlencode`; nothing for -1. -/
def uhUrlencode (blen : ℕ) (src : Text) : Option Text := urlencodeLoop src blen []

/-- The results of `uh_urldecode`. -/
inductive Decoded where
  /-- -1 -/
  | overflow
  /-- -2 -/
  | malformed
  | text (buf : Text)
  deriving DecidableEq

/-- `isxdigit`. -/
def isXdigit (c : Char) : Bool := digitVal c < 16

/-- The loop of `uh_urldecode`. -/
def urldecodeLoop : Text → ℕ → Text → Decoded
  | [], _, buf => .text buf.reverse
  | _ :: _, 0, _ => .overflow
  | c :: src, room + 1, buf =>
    if c ≠ '%' then urldecodeLoop src room (c :: buf)
    else
      match src with
      | a :: b :: src =>
        if isXdigit a && isXdigit b then
          urldecodeLoop src room (Char.ofNat (16 * digitVal a + digitVal b) :: buf)
        else .malformed
      | _ => .malformed

/-- `uh_urldecode`. -/
def uhUrldecode (blen : ℕ) (src : Text) : Decoded := urldecodeLoop src blen []

/-! ### Encoding -/

/-- The encoded text. -/
def encoded (src : Text) : Text := src.flatMap encodeChar

theorem encoded_cons (c : Char) (src : Text) : encoded (c :: src) = encodeChar c ++ encoded src :=
  rfl

theorem length_encodeChar (c : Char) : (encodeChar c).length = if isPlain c then 1 else 3 := by
  rw [encodeChar]
  split_ifs
  · rfl
  · rfl

theorem urlencodeLoop_eq (src : Text) (room : ℕ) (buf : Text) :
    urlencodeLoop src room buf =
      if (encoded src).length ≤ room then some (buf.reverse ++ encoded src) else none := by
  induction src generalizing room buf with
  | nil => simp [urlencodeLoop, encoded]
  | cons c src ih =>
    have hlen := length_encodeChar c
    cases room with
    | zero =>
      rw [urlencodeLoop, encoded_cons, List.length_append, hlen, if_neg]
      split_ifs <;> omega
    | succ room =>
      rw [urlencodeLoop, encoded_cons, List.length_append, hlen]
      by_cases hplain : isPlain c = true
      · have hchar : encodeChar c = [c] := if_pos hplain
        rw [if_pos hplain, if_pos hplain, ih, hchar]
        exact if_congr (by omega) (by simp) rfl
      · rw [if_neg hplain, if_neg hplain, ih]
        by_cases hroom : 3 ≤ room + 1
        · rw [if_pos hroom]
          exact if_congr (by omega) (by simp) rfl
        · rw [if_neg hroom, if_neg (by omega)]

/-- Encoding succeeds where the text fits the buffer. -/
theorem uhUrlencode_eq (blen : ℕ) (src : Text) :
    uhUrlencode blen src = if (encoded src).length ≤ blen then some (encoded src) else none := by
  rw [uhUrlencode, urlencodeLoop_eq]
  rfl

/-! ### Decoding -/

/-- The digits of a table are read back. -/
theorem digitVal_hexDigit {n : ℕ} (hn : n < 16) : digitVal (hexDigit n) = n := by
  have hall : ∀ m < 16, digitVal (hexDigit m) = m := by decide
  exact hall n hn

theorem isPlain_percent : isPlain '%' = false := rfl

theorem urldecodeLoop_of_ne {c : Char} (hc : c ≠ '%') (src : Text) (room : ℕ) (buf : Text) :
    urldecodeLoop (c :: src) (room + 1) buf = urldecodeLoop src room (c :: buf) := by
  rw [urldecodeLoop.eq_def]
  dsimp only
  rw [if_pos hc]

/-- A character that is encoded takes one place of the buffer when it is decoded. -/
theorem urldecodeLoop_encodeChar {c : Char} (hc : IsByte c) (rest : Text) (room : ℕ) (buf : Text) :
    urldecodeLoop (encodeChar c ++ rest) (room + 1) buf = urldecodeLoop rest room (c :: buf) := by
  by_cases hplain : isPlain c = true
  · have hchar : encodeChar c = [c] := if_pos hplain
    have hne : c ≠ '%' := fun heq => by
      rw [heq, isPlain_percent] at hplain
      exact Bool.false_ne_true hplain
    rw [hchar, List.singleton_append, urldecodeLoop_of_ne hne]
  · have hchar : encodeChar c = ['%', hexDigit (c.toNat / 16 % 16), hexDigit (c.toNat % 16)] :=
      if_neg hplain
    have hhigh := digitVal_hexDigit (Nat.mod_lt (c.toNat / 16) (by decide : 0 < 16))
    have hlow := digitVal_hexDigit (Nat.mod_lt c.toNat (by decide : 0 < 16))
    have hx : (isXdigit (hexDigit (c.toNat / 16 % 16)) && isXdigit (hexDigit (c.toNat % 16))) =
        true := by
      rw [isXdigit, isXdigit, hhigh, hlow, Bool.and_eq_true, decide_eq_true_eq, decide_eq_true_eq]
      omega
    have hval : 16 * (c.toNat / 16 % 16) + c.toNat % 16 = c.toNat := by
      have hlt : c.toNat < 256 := hc
      omega
    rw [hchar]
    simp only [List.cons_append, List.nil_append, urldecodeLoop, ne_eq, not_true_eq_false, if_false,
      hx, if_true, hhigh, hlow, hval, Char.ofNat_toNat]

/-- An encoded text at the front is decoded. -/
theorem urldecodeLoop_encoded_append {src : Text} (hsrc : ∀ c ∈ src, IsByte c) (rest : Text)
    (room : ℕ) (buf : Text) :
    urldecodeLoop (encoded src ++ rest) (src.length + room) buf =
      urldecodeLoop rest room (src.reverse ++ buf) := by
  induction src generalizing buf with
  | nil => rw [List.length_nil, Nat.zero_add]; rfl
  | cons c src ih =>
    rw [List.forall_mem_cons] at hsrc
    rw [encoded_cons, List.append_assoc, List.length_cons, Nat.add_right_comm,
      urldecodeLoop_encodeChar hsrc.1, ih hsrc.2, List.reverse_cons, List.append_assoc]
    rfl

/-- A text is decoded into every buffer that holds it, and refused by the others. -/
theorem uhUrldecode_encoded {src : Text} (hsrc : ∀ c ∈ src, IsByte c) (blen : ℕ) :
    uhUrldecode blen (encoded src) = if src.length ≤ blen then .text src else .overflow := by
  rw [uhUrldecode]
  split_ifs with hlen
  · obtain ⟨room, rfl⟩ := Nat.exists_eq_add_of_le hlen
    have h := urldecodeLoop_encoded_append hsrc [] room []
    rw [List.append_nil, List.append_nil] at h
    rw [h, urldecodeLoop, List.reverse_reverse]
  · -- the buffer is full in front of the character behind the first `blen`
    have hsplit : encoded src = encoded (src.take blen) ++ encoded (src.drop blen) := by
      rw [encoded, encoded, encoded, ← List.flatMap_append, List.take_append_drop]
    have htake : (src.take blen).length = blen := by
      rw [List.length_take]
      omega
    have hbytes : ∀ c ∈ src.take blen, IsByte c := fun c hc => hsrc c (List.mem_of_mem_take hc)
    have h := urldecodeLoop_encoded_append hbytes (encoded (src.drop blen)) 0 []
    rw [htake, Nat.add_zero] at h
    rw [hsplit, h]
    obtain ⟨c, rest, hdrop⟩ := List.exists_cons_of_ne_nil
      (mt List.drop_eq_nil_iff.mp hlen : src.drop blen ≠ [])
    rw [hdrop, encoded_cons]
    obtain ⟨d, code, hcode⟩ := List.exists_cons_of_ne_nil
      (List.ne_nil_of_length_pos (by rw [length_encodeChar]; split_ifs <;> decide) :
        encodeChar c ≠ [])
    rw [hcode, List.cons_append, urldecodeLoop]

/-- What has been encoded into a buffer is decoded into every buffer that holds the text, and
refused by the others. Encoding fails where the encoded text does not fit. -/
theorem uhUrldecode_uhUrlencode {src : Text} (hsrc : ∀ c ∈ src, IsByte c) (blen blen' : ℕ) :
    (uhUrlencode blen src).map (uhUrldecode blen') =
      if blen < (encoded src).length then none
      else if src.length ≤ blen' then some (.text src) else some .overflow := by
  rw [uhUrlencode_eq]
  by_cases hfits : (encoded src).length ≤ blen
  · rw [if_pos hfits, if_neg (Nat.not_lt.mpr hfits), Option.map_some, uhUrldecode_encoded hsrc]
    split_ifs
    · rfl
    · rfl
  · rw [if_neg hfits, if_pos (Nat.lt_of_not_le hfits)]
    rfl

theorem uhUrldecode_uhUrlencode_name :
    (uhUrlencode 20 "a b/%.xml".toList).map (uhUrldecode 4095) = some (.text "a b/%.xml".toList) :=
  uhUrldecode_uhUrlencode (by simp [IsByte]) 20 4095

end M57Card.Http
