import M57Card.Lib.Calendar
import M57Card.Lib.Rounding
import M57Card.Lib.Decimal
import M57Card.Lib.Fields
import Mathlib.Tactic.IntervalCases

/-!
# The date word of the FPGA

The FPGA takes the date as one word: six bits of seconds, six of minutes, five of hours, nine for
the day of the year and six for the year since 2000. There are two encoders. One takes the time from
the last RMC sentence, in UTC, and adds eight hours to the hour alone; the other takes what `date`
prints, in the zone of the system, and keeps the low six bits of the whole year.

An RMC time is a `float`: the number written `hhmmss.sss` is rounded to a `double` by `atof` and to
24 digits when it is stored. The two roundings reach at most the next whole second.

## Main definitions

* `gpsFormatDaysToFpga`, `formatDate` : what the encoders share.
* `gpsGetFormatDate`, `syscallGetFormatDate`.
* `decode`, `fpgaDate` : the fields of a word, and those of an instant.
* `rmcTime`, `dateText` : what an instant leaves in `g_gps_info`, and what `date` prints of it.

## Main results

* `gpsFormatDaysToFpga_date` : the loop over the months counts the days of the year.
* `decode_gpsGetFormatDate`, `decode_syscallGetFormatDate` : the fields of both words.
* `date_words` : the words differ at every instant of the years, that of `date` has the wrong year,
  and that of the RMC time is right when its UTC hour leaves room for eight more.
-/

namespace M57Card.Device

open Calendar Rounding Decimal Fields

/-! ### The encoders -/

/-- The `switch` of `gps_format_days_to_fpga`. -/
def monthDays (isLeapYear : Bool) : ℕ → ℕ
  | 1 => 31
  | 3 => 31
  | 5 => 31
  | 7 => 31
  | 8 => 31
  | 10 => 31
  | 12 => 31
  | 2 => if isLeapYear then 29 else 28
  | 4 => 30
  | 6 => 30
  | 9 => 30
  | 11 => 30
  | _ => 0

/-- The loop of `gps_format_days_to_fpga` from a list of months on; `days` is a `uint16_t`. -/
def formatDaysFrom (isLeapYear : Bool) (month day : ℕ) : List ℕ → ℕ → ℕ
  | [], days => days
  | i :: is, days =>
    if i < month then
      formatDaysFrom isLeapYear month day is ((days + monthDays isLeapYear i) % 2 ^ 16)
    else (days + day) % 2 ^ 16

/-- `gps_format_days_to_fpga`. -/
def gpsFormatDaysToFpga (year month day : ℕ) : ℕ :=
  let isLeapYear := (year % 4 == 0 && year % 100 != 0) || year % 400 == 0
  formatDaysFrom isLeapYear month day (List.range' 1 12) 0

/-- `date_to_fpga`, which both encoders put together the same way. -/
def formatDate (s m h days y : ℕ) : ℕ :=
  (s &&& 0x3f) ||| (m &&& 0x3f) <<< 6 ||| (h &&& 0x1f) <<< 12 ||| (days &&& 0x1ff) <<< 17 |||
    (y &&& 0x3f) <<< 26

/-- The time and date of `struct gps_info`; a finite `float` is a rational number. -/
structure GpsTime where
  utcHms : ℚ
  utcYmd : ℤ

/-- `gps_get_format_date`; `h`, `m`, `s`, `d`, `M` and `y` are `uint8_t`. -/
def gpsGetFormatDate (g : GpsTime) : ℕ :=
  let iHms := ⌊g.utcHms⌋₊ % 2 ^ 32
  let iYmd := (g.utcYmd % 2 ^ 32).toNat
  let h := (iHms / 10000 % 10000 + 8) % 2 ^ 8
  let m := iHms / 100 % 100 % 2 ^ 8
  let s := iHms % 100 % 2 ^ 8
  let d := iYmd / 10000 % 10000 % 2 ^ 8
  let M := iYmd / 100 % 100 % 2 ^ 8
  let y := iYmd % 100 % 2 ^ 8
  formatDate s m h (gpsFormatDaysToFpga (y + 2000) M d) y

/-- An `int` as it is masked or passed on in `w` bits. -/
def lowBits (w : ℕ) (x : ℤ) : ℕ := (x % 2 ^ w).toNat

/-- `syscall_get_format_date` on the line that `date` prints; `none` is a null pointer followed.
`strstr` for a single character and one further is `after`. -/
def syscallGetFormatDate (stream : Option (List Char)) : Option ℕ :=
  match stream with
  | none => some 0
  | some buf => do
    let y := atoi buf
    let buf ← after '-' buf
    let M := atoi buf
    let buf ← after '-' buf
    let d := atoi buf
    let buf ← after '-' buf
    let h := atoi buf
    let buf ← after ':' buf
    let m := atoi buf
    let buf ← after ':' buf
    let s := atoi buf
    let days := gpsFormatDaysToFpga (lowBits 32 y) (lowBits 8 M) (lowBits 8 d)
    some (formatDate (lowBits 32 s) (lowBits 32 m) (lowBits 32 h) days (lowBits 32 y))

/-! ### The fields of a word -/

/-- The fields of the word. -/
structure FpgaDate where
  second : ℕ
  minute : ℕ
  hour : ℕ
  dayOfYear : ℕ
  year : ℕ
deriving DecidableEq

/-- What a word says. -/
def decode (w : ℕ) : FpgaDate where
  second := w % 2 ^ 6
  minute := w / 2 ^ 6 % 2 ^ 6
  hour := w / 2 ^ 12 % 2 ^ 5
  dayOfYear := w / 2 ^ 17 % 2 ^ 9
  year := w / 2 ^ 26 % 2 ^ 6

/-- What the word of an instant says when it is right. -/
def fpgaDate (t : Instant) : FpgaDate where
  second := t.second
  minute := t.minute
  hour := t.hour
  dayOfYear := t.date.dayOfYear
  year := t.date.year - 2000

/-- A field put above the others is added to them. -/
theorem or_shiftLeft {a i : ℕ} (ha : a < 2 ^ i) (b : ℕ) : a ||| b <<< i = a + b * 2 ^ i := by
  rw [Nat.shiftLeft_eq, Nat.or_comm, Nat.mul_comm, ← Nat.two_pow_add_eq_or_of_lt ha, Nat.add_comm]

theorem formatDate_eq (s m h days y : ℕ) :
    formatDate s m h days y = s % 2 ^ 6 + m % 2 ^ 6 * 2 ^ 6 + h % 2 ^ 5 * 2 ^ 12 +
      days % 2 ^ 9 * 2 ^ 17 + y % 2 ^ 6 * 2 ^ 26 := by
  have hsix (x : ℕ) : x &&& 0x3f = x % 2 ^ 6 := Nat.and_two_pow_sub_one_eq_mod x 6
  have hfive (x : ℕ) : x &&& 0x1f = x % 2 ^ 5 := Nat.and_two_pow_sub_one_eq_mod x 5
  have hnine (x : ℕ) : x &&& 0x1ff = x % 2 ^ 9 := Nat.and_two_pow_sub_one_eq_mod x 9
  rw [formatDate, hsix, hsix, hsix, hfive, hnine]
  rw [or_shiftLeft (i := 6) (by omega), or_shiftLeft (i := 12) (by omega),
    or_shiftLeft (i := 17) (by omega), or_shiftLeft (i := 26) (by omega)]

/-- The fields of a word that was put together. -/
theorem decode_formatDate (s m h days y : ℕ) :
    decode (formatDate s m h days y) =
      ⟨s % 2 ^ 6, m % 2 ^ 6, h % 2 ^ 5, days % 2 ^ 9, y % 2 ^ 6⟩ := by
  rw [formatDate_eq, decode, FpgaDate.mk.injEq]
  omega

/-! ### The day of the year -/

theorem monthDays_eq (y : ℕ) {i : ℕ} (hi : 1 ≤ i) (hi' : i ≤ 12) :
    monthDays (decide (IsLeap y)) i = daysInMonth y i := by
  by_cases hleap : IsLeap y
  · interval_cases i <;> simp [monthDays, daysInMonth, hleap]
  · interval_cases i <;> simp [monthDays, daysInMonth, hleap]

/-- The loop at month `i` has the days in front of it, and at the month of the date adds the day. -/
theorem formatDaysFrom_range' (d : Date) (k : ℕ) :
    ∀ i, 1 ≤ i → i ≤ d.month → i + k = 13 →
      formatDaysFrom (decide (IsLeap d.year)) d.month d.day (List.range' i k)
        (daysBefore (daysInMonth d.year) 1 i) = d.dayOfYear := by
  have hlt : d.dayOfYear < 2 ^ 16 := d.dayOfYear_lt.trans (by decide)
  induction k with
  | zero =>
    intro i _ hi hk
    have hmonth := d.month_le
    omega
  | succ k ih =>
    intro i hone hi hk
    rw [List.range'_succ, formatDaysFrom]
    split_ifs with hmonth
    · have hle : daysBefore (daysInMonth d.year) 1 (i + 1) ≤ _ :=
        daysBefore_mono (daysInMonth d.year) 1 hmonth
      have hofYear : d.dayOfYear = daysBefore (daysInMonth d.year) 1 d.month + d.day := rfl
      rw [monthDays_eq d.year hone (by omega), ← daysBefore_succ _ hone,
        Nat.mod_eq_of_lt (by omega)]
      exact ih (i + 1) (by omega) hmonth (by omega)
    · obtain rfl : i = d.month := by omega
      exact Nat.mod_eq_of_lt hlt

/-- The loop counts the days of the year. -/
theorem gpsFormatDaysToFpga_date (d : Date) :
    gpsFormatDaysToFpga d.year d.month d.day = d.dayOfYear := by
  have hleap : ((d.year % 4 == 0 && d.year % 100 != 0) || d.year % 400 == 0) =
      decide (IsLeap d.year) := by
    rw [Bool.eq_iff_iff, decide_eq_true_iff, Bool.or_eq_true, Bool.and_eq_true, beq_iff_eq,
      bne_iff_ne, beq_iff_eq]
    exact Iff.rfl
  rw [gpsFormatDaysToFpga, hleap]
  exact formatDaysFrom_range' d 12 1 le_rfl d.one_le_month rfl

/-! ### The RMC time -/

/-- The time of day as `hhmmss`. -/
def hms (t : Instant) : ℕ := t.hour * 10000 + t.minute * 100 + t.second

/-- What the RMC sentence of an instant, `frac` of a second into it, leaves in `g_gps_info`. -/
def rmcTime (t : Instant) (frac : ℚ) : GpsTime where
  utcHms := roundTo 24 (roundTo 53 (hms t + frac))
  utcYmd := t.date.day * 10000 + t.date.month * 100 + t.date.year % 100

theorem hms_lt (t : Instant) : hms t < 240000 := by
  have hhour := t.hour_lt
  have hminute := t.minute_lt
  have hsecond := t.second_lt
  unfold hms
  omega

/-- A time within a second stays within it, or reaches its end. -/
theorem roundTo_within {p n : ℕ} {x : ℚ} (hp : 18 ≤ p) (hn : n < 240000) (hx : n ≤ x)
    (hx' : x ≤ n + 1) : (n : ℚ) ≤ roundTo p x ∧ roundTo p x ≤ n + 1 := by
  have hbound : |x| < 2 ^ p := by
    have hcast : (n : ℚ) + 1 < 2 ^ 18 := by
      have hcast : (n : ℚ) < 240000 := by exact_mod_cast hn
      linarith
    rw [abs_of_nonneg (n.cast_nonneg.trans hx)]
    exact (hx'.trans_lt hcast).trans_le (pow_le_pow_right₀ (by norm_num) hp)
  have hlo := le_roundTo (n := (n : ℤ)) (by omega) hbound (by exact_mod_cast hx)
  have hhi := roundTo_le (n := (n : ℤ) + 1) (by omega) hbound (by exact_mod_cast hx')
  exact ⟨by exact_mod_cast hlo, by exact_mod_cast hhi⟩

theorem rmcTime_within (t : Instant) {frac : ℚ} (hfrac : 0 ≤ frac) (hfrac' : frac < 1) :
    (hms t : ℚ) ≤ (rmcTime t frac).utcHms ∧ (rmcTime t frac).utcHms ≤ hms t + 1 := by
  obtain ⟨hlo, hhi⟩ := roundTo_within (p := 53) (by decide) (hms_lt t)
    (le_add_of_nonneg_right hfrac) (add_le_add_right hfrac'.le _)
  exact roundTo_within (by decide) (hms_lt t) hlo hhi

/-- A whole second is stored as it is. -/
theorem rmcTime_zero (t : Instant) : (rmcTime t 0).utcHms = hms t := by
  have hround {p : ℕ} (hp : 18 ≤ p) : roundTo p (hms t) = hms t := by
    refine roundTo_intCast (n := (hms t : ℤ)) (by omega) ?_
    rw [Int.cast_natCast, Nat.abs_cast]
    exact_mod_cast (hms_lt t).trans (lt_of_lt_of_le (by decide)
      (Nat.pow_le_pow_right (by decide) hp : 2 ^ 18 ≤ 2 ^ p))
  simp only [rmcTime, add_zero]
  rw [hround (by decide), hround (by decide)]

/-- The whole part of the stored time is the second of the instant, or the next number. -/
theorem floor_rmcTime (t : Instant) {frac : ℚ} (hfrac : 0 ≤ frac) (hfrac' : frac < 1) :
    ⌊(rmcTime t frac).utcHms⌋₊ =
      if (rmcTime t frac).utcHms < hms t + 1 then hms t else hms t + 1 := by
  obtain ⟨hlo, hhi⟩ := rmcTime_within t hfrac hfrac'
  have hnonneg := (hms t).cast_nonneg.trans hlo
  split_ifs with hnext
  · exact (Nat.floor_eq_iff hnonneg).mpr ⟨hlo, hnext⟩
  · have heq : (rmcTime t frac).utcHms = ((hms t + 1 : ℕ) : ℚ) := by
      push_cast
      exact le_antisymm hhi (not_lt.mp hnext)
    rw [heq, Nat.floor_natCast]

theorem hundreds {a b c n : ℕ} (ha : a < 100) (hb : b < 100) (hc : c < 100)
    (hn : n = a * 10000 + b * 100 + c) :
    n / 10000 % 10000 = a ∧ n / 100 % 100 = b ∧ n % 100 = c := by
  omega

/-- The encoder on a time `hhmmss` and a date `ddmmyy`. -/
theorem gpsGetFormatDate_eq (g : GpsTime) {h m s d M y : ℕ} (hh : h < 100) (hm : m < 100)
    (hs : s < 100) (hd : d < 100) (hM : M < 100) (hy : y < 100)
    (hhms : ⌊g.utcHms⌋₊ = h * 10000 + m * 100 + s)
    (hymd : g.utcYmd = d * 10000 + M * 100 + y) :
    gpsGetFormatDate g = formatDate s m (h + 8) (gpsFormatDaysToFpga (y + 2000) M d) y := by
  have htime : ⌊g.utcHms⌋₊ % 2 ^ 32 = h * 10000 + m * 100 + s := by
    rw [hhms, Nat.mod_eq_of_lt (by omega)]
  have hdate : (g.utcYmd % 2 ^ 32).toNat = d * 10000 + M * 100 + y := by
    rw [hymd]
    omega
  obtain ⟨hh', hm', hs'⟩ := hundreds hh hm hs htime
  obtain ⟨hd', hM', hy'⟩ := hundreds hd hM hy hdate
  simp only [gpsGetFormatDate, hh', hm', hs', hd', hM', hy']
  rw [Nat.mod_eq_of_lt (by omega), Nat.mod_eq_of_lt (by omega), Nat.mod_eq_of_lt (by omega),
    Nat.mod_eq_of_lt (by omega), Nat.mod_eq_of_lt (by omega), Nat.mod_eq_of_lt (by omega)]

/-- The fields of the word of an RMC time: the hour is eight more, and is not carried. -/
theorem decode_gpsGetFormatDate (t : Instant) (hlo : 2000 ≤ t.date.year) (hhi : t.date.year ≤ 2063)
    {frac : ℚ} (hfrac : 0 ≤ frac) (hfrac' : frac < 1) :
    decode (gpsGetFormatDate (rmcTime t frac)) =
      ⟨if (rmcTime t frac).utcHms < hms t + 1 then t.second else t.second + 1, t.minute,
        t.hour + 8, t.date.dayOfYear, t.date.year - 2000⟩ := by
  have hhour := t.hour_lt
  have hminute := t.minute_lt
  have hsecond := t.second_lt
  have hday := t.date.day_le.trans (daysInMonth_le _ _)
  have hmonth := t.date.month_le
  have hdays : t.date.dayOfYear < 2 ^ 9 := t.date.dayOfYear_lt.trans (by decide)
  have hfloor : ⌊(rmcTime t frac).utcHms⌋₊ = t.hour * 10000 + t.minute * 100 +
      if (rmcTime t frac).utcHms < hms t + 1 then t.second else t.second + 1 := by
    rw [floor_rmcTime t hfrac hfrac']
    split_ifs
    · rw [hms]
    · rw [hms, Nat.add_assoc]
  have hyear : t.date.year % 100 + 2000 = t.date.year := by omega
  have hymd : (rmcTime t frac).utcYmd =
      (t.date.day : ℤ) * 10000 + t.date.month * 100 + (t.date.year % 100 : ℕ) := by
    simp only [rmcTime]
    omega
  rw [gpsGetFormatDate_eq _ (by omega) (by omega) (by split_ifs <;> omega) (by omega) (by omega)
    (by omega) hfloor hymd, hyear, gpsFormatDaysToFpga_date, decode_formatDate, FpgaDate.mk.injEq]
  refine ⟨Nat.mod_eq_of_lt (by split_ifs <;> omega), Nat.mod_eq_of_lt (by omega),
    Nat.mod_eq_of_lt (by omega), Nat.mod_eq_of_lt hdays, by omega⟩

/-! ### What `date` prints -/

/-- `date '+%Y-%m-%d-%H:%M:%S'`. -/
def dateText (t : Instant) : List Char :=
  padded 4 t.date.year ++ '-' :: (padded 2 t.date.month ++ '-' :: (padded 2 t.date.day ++
    '-' :: (padded 2 t.hour ++ ':' :: (padded 2 t.minute ++ ':' :: (padded 2 t.second ++ ['\n'])))))

theorem after_padded {c : Char} (hc : c.isDigit = false) (width n : ℕ) (rest : List Char) :
    after c (padded width n ++ c :: rest) = some rest := by
  refine after_append_cons (fun hmem => ?_) rest
  rw [isDigit_of_mem_padded hmem] at hc
  exact absurd hc (by decide)

/-- The fields that `date` printed are read back. -/
theorem syscallGetFormatDate_dateText (t : Instant) (hyear : t.date.year < 2 ^ 31) :
    syscallGetFormatDate (some (dateText t)) =
      some (formatDate t.second t.minute t.hour t.date.dayOfYear t.date.year) := by
  have hhour := t.hour_lt
  have hminute := t.minute_lt
  have hsecond := t.second_lt
  have hday := t.date.day_le.trans (daysInMonth_le _ _)
  have hmonth := t.date.month_le
  have hread (width : ℕ) {n : ℕ} (hn : n < 2 ^ 31) {c : Char} (hc : c.isDigit = false)
      (rest : List Char) : atoi (padded width n ++ c :: rest) = n := by
    refine atoi_padded_append width hn fun d hd => ?_
    rw [← Option.some.inj hd]
    exact hc
  have hbits {w n : ℕ} (hn : n < 2 ^ w) : lowBits w n = n := by
    rw [lowBits]
    exact_mod_cast Nat.mod_eq_of_lt hn
  rw [← gpsFormatDaysToFpga_date]
  simp only [syscallGetFormatDate, dateText, after_padded (c := '-') rfl,
    after_padded (c := ':') rfl, Option.bind_eq_bind, Option.bind_some]
  rw [hread _ hyear rfl, hread _ (by omega) rfl, hread _ (by omega) rfl, hread _ (by omega) rfl,
    hread _ (by omega) rfl, hread _ (by omega) rfl, hbits (by omega), hbits (by omega),
    hbits (by omega), hbits (by omega), hbits (by omega), hbits (by omega)]

/-! ### The two words -/

/-- A shift of eight hours ends on the same day, or on the next one. -/
theorem eight_hours {t u : Instant} (hu : u.seconds = t.seconds + 8 * 3600) :
    (u.minute = t.minute ∧ u.second = t.second) ∧
      (t.hour < 16 ∧ u.date = t.date ∧ u.hour = t.hour + 8 ∨
        16 ≤ t.hour ∧ u.date = t.date.next ∧ u.hour = t.hour - 16) := by
  have ht := t.hour_lt
  have ht' := t.minute_lt
  have ht'' := t.second_lt
  have hu' := u.hour_lt
  have hu'' := u.minute_lt
  have hu''' := u.second_lt
  have hnext := t.date.dayNumber_next
  unfold Instant.seconds at hu
  refine ⟨by omega, ?_⟩
  by_cases hhour : t.hour < 16
  · exact Or.inl ⟨hhour, Date.dayNumber_injective (by omega), by omega⟩
  · exact Or.inr ⟨not_lt.mp hhour, Date.dayNumber_injective (by omega), by omega⟩

/-- The year of the system date is sixteen off in the word. -/
theorem year_field_ne {y : ℕ} (hlo : 2000 ≤ y) (hhi : y ≤ 2064) : y % 2 ^ 6 ≠ y - 2000 := by
  omega

/-- The two words of an instant `t`, which `u` is in the zone eight hours ahead. They differ, and
the word of `date` never says what `u` is. The word of the RMC time does when its hour leaves room
for eight more and the stored time does not reach the next second. -/
theorem date_words (t u : Instant) (frac : ℚ) (hlo : 2000 ≤ t.date.year)
    (hhi : t.date.year ≤ 2063) (hfrac : 0 ≤ frac) (hfrac' : frac < 1)
    (hu : u.seconds = t.seconds + 8 * 3600) :
    ∃ w, syscallGetFormatDate (some (dateText u)) = some w ∧
      gpsGetFormatDate (rmcTime t frac) ≠ w ∧ decode w ≠ fpgaDate u ∧
      (decode (gpsGetFormatDate (rmcTime t frac)) = fpgaDate u ↔
        t.hour < 16 ∧ (rmcTime t frac).utcHms < hms t + 1) := by
  obtain ⟨⟨hminute, hsecond⟩, hday⟩ := eight_hours hu
  have hyear : u.date.year = t.date.year ∨ u.date.year = t.date.year + 1 := by
    rcases hday with ⟨-, hdate, -⟩ | ⟨-, hdate, -⟩
    · rw [hdate]
      exact Or.inl rfl
    · rw [hdate]
      exact t.date.year_next
  have hgps := decode_gpsGetFormatDate t hlo hhi hfrac hfrac'
  refine ⟨_, syscallGetFormatDate_dateText u (by omega), fun heq => ?_, fun heq => ?_, ?_⟩
  · rw [heq, decode_formatDate] at hgps
    have hfield := congrArg FpgaDate.year hgps
    dsimp only at hfield
    omega
  · rw [decode_formatDate] at heq
    exact year_field_ne (y := u.date.year) (by omega) (by omega) (congrArg FpgaDate.year heq)
  · rw [hgps, fpgaDate, FpgaDate.mk.injEq, hminute, hsecond]
    rcases hday with ⟨hhour, hdate, hshift⟩ | ⟨hhour, -, hshift⟩
    · rw [hdate, hshift]
      split_ifs with hnext
      · exact ⟨fun _ => ⟨hhour, hnext⟩, fun _ => ⟨rfl, rfl, rfl, rfl, rfl⟩⟩
      · exact ⟨fun hall => absurd hall.1 (by omega), fun hall => absurd hall.2 hnext⟩
    · exact ⟨fun hall => absurd hall.2.2.1 (by omega), fun hall => absurd hall.1 (by omega)⟩

/-- The last second of February in UTC, in a leap year. -/
def leapNight : Instant where
  date := ⟨2020, 2, 29, by decide, by decide, by decide, by decide⟩
  hour := 23
  minute := 59
  second := 59
  hour_lt := by decide
  minute_lt := by decide
  second_lt := by decide

theorem date_words_leapNight :
    ∃ w, syscallGetFormatDate (some (dateText (leapNight.later 8 (by decide)))) = some w ∧
      gpsGetFormatDate (rmcTime leapNight 0) ≠ w ∧
      decode w ≠ fpgaDate (leapNight.later 8 (by decide)) ∧
      (decode (gpsGetFormatDate (rmcTime leapNight 0)) =
          fpgaDate (leapNight.later 8 (by decide)) ↔
        leapNight.hour < 16 ∧ (rmcTime leapNight 0).utcHms < hms leapNight + 1) :=
  date_words leapNight (leapNight.later 8 (by decide)) 0 (by decide) (by decide) le_rfl
    zero_lt_one (leapNight.seconds_later 8 (by decide))

/-- It is 07:59:59 on 1 March in the zone; one word says the hour 31 of 29 February, the other the
year 36. -/
theorem words_differ_leapNight :
    fpgaDate (leapNight.later 8 (by decide)) = ⟨59, 59, 7, 61, 20⟩ ∧
      decode (gpsGetFormatDate (rmcTime leapNight 0)) = ⟨59, 59, 31, 60, 20⟩ ∧
      (syscallGetFormatDate (some (dateText (leapNight.later 8 (by decide))))).map decode =
        some ⟨59, 59, 7, 61, 36⟩ := by
  refine ⟨by decide, ?_, ?_⟩
  · rw [decode_gpsGetFormatDate leapNight (by decide) (by decide) le_rfl zero_lt_one,
      rmcTime_zero, if_pos (lt_add_one _)]
    decide
  · rw [syscallGetFormatDate_dateText _ (by decide), Option.map_some, decode_formatDate]
    decide

end M57Card.Device
