import Mathlib.Order.Monotone.Basic
import Mathlib.Order.Basic
import Osdev.Base

/-!
# Calendar time

`posix2tm` takes years and then months off the days since 1970, and `tm2posix` counts the leap days
with a formula. Both are compared with the proleptic Gregorian calendar: the year, the month, the
weekday and the time of day are right for every instant (`posix2tm_fields`); the day of the month,
the day of the year and the way back are right in January only (`posix2tm_days_iff`).
-/

namespace Osdev.Time

/-! ## The calendar -/

def isLeap (year : Nat) : Bool := year % 4 = 0 && (year % 100 ≠ 0 || year % 400 = 0)

def yearLen (year : Nat) : Nat := if isLeap year then 366 else 365

/-- The days of a month; January is month `0`. -/
def monthLen (year : Nat) : Nat → Nat
  | 1 => if isLeap year then 29 else 28
  | 3 | 5 | 8 | 10 => 30
  | _ => 31

/-- The days from 1 January of year `0` to 1 January of `year`. -/
def daysBeforeYear : Nat → Nat
  | 0 => 0
  | year + 1 => daysBeforeYear year + yearLen year

def daysBeforeMonth (year : Nat) : Nat → Nat
  | 0 => 0
  | month + 1 => daysBeforeMonth year month + monthLen year month

/-- `day` days after 1 January 1970 is day `d` of month `m` of year `y`. -/
structure IsDate (day y m d : Nat) : Prop where
  month : m < 12
  mday : 1 ≤ d ∧ d ≤ monthLen y m
  count : daysBeforeYear 1970 + day = daysBeforeYear y + (daysBeforeMonth y m + (d - 1))

/-- The weekday, from Sunday on; 1 January of year `0` is a Saturday. -/
def weekday (y m d : Nat) : Nat := (daysBeforeYear y + (daysBeforeMonth y m + (d - 1)) + 6) % 7

/-! ## The conversions -/

/-- `struct tm`. -/
structure Tm where
  tmSec : Int
  tmMin : Int
  tmHour : Int
  tmMday : Int
  tmMon : Int
  tmYear : Int
  tmWday : Int
  tmYday : Int
  tmIsdst : Int
  tmGmtoff : Int
  tmZone : String

/-- The result of arithmetic on `int`; an overflow has no result. -/
def int (x : Int) : Option Int := if -2 ^ 31 ≤ x ∧ x < 2 ^ 31 then some x else none

/-- `tm2posix`; `none` is an overflow of an `int`. -/
def tm2posix (tm : Tm) : Option Nat := do
  let years ← int (tm.tmYear - 70)
  let fours ← int (tm.tmYear - 69)
  let hundreds ← int (tm.tmYear - 1)
  let fourHundreds ← int (tm.tmYear + 299)
  -- the sums are on `uint64_t`
  some ((tm.tmSec + tm.tmMin * 60 + tm.tmHour * 3600 + tm.tmYday * 86400 + years * 31536000 +
    fours.tdiv 4 * 86400 - hundreds.tdiv 100 * 86400 + fourHundreds.tdiv 400 * 86400) % word).toNat

/-- The years that fit in `days`: the days left, and the year reached. -/
def yearLoop (days year : Nat) : Nat × Nat :=
  if 365 ≤ days then
    if isLeap year then
      if 366 ≤ days then yearLoop (days - 366) (year + 1) else (days, year)
    else yearLoop (days - 365) (year + 1)
  else (days, year)
termination_by days
decreasing_by all_goals omega

/-- The days that the loop over the months takes off for `month`. -/
def monthStep (year month : Nat) : Nat :=
  if month = 1 then if isLeap year then 29 else 28
  else if month = 3 ∨ month = 5 ∨ month = 8 ∨ month = 10 then 30
  else 31

theorem monthStep_ge (year month : Nat) : 28 ≤ monthStep year month := by
  unfold monthStep
  repeat' split
  all_goals decide

/-- The months that fit in `days`: the days left, the month reached, and `month_days`. -/
def monthLoop (year days month monthDays : Nat) : Nat × Nat × Nat :=
  if 28 ≤ days ∧ monthStep year month ≤ days then
    monthLoop year (days - monthStep year month) (month + 1) (monthDays + monthStep year month)
  else (days, month, monthDays)
termination_by days
decreasing_by
  have := monthStep_ge year month
  omega

/-- The conversion of a `uint64_t` to an `int`. -/
def toInt (x : Nat) : Int := Int.bmod x (2 ^ 32)

/-- `posix2tm`. -/
def posix2tm (epoch : Nat) : Tm :=
  let rem := epoch % 86400
  let y := yearLoop (epoch / 86400) 1970
  let m := monthLoop y.2 y.1 0 0
  { tmSec := toInt (rem % 60)
    tmMin := toInt (rem / 60 % 60)
    tmHour := toInt (rem / 3600 % 24)
    tmYday := toInt m.1
    tmYear := toInt (subWord y.2 1900)
    tmMon := toInt m.2.1
    tmMday := toInt (addWord (subWord m.1 m.2.2) 1)
    tmWday := toInt ((epoch / 86400 + 4) % 7)
    tmIsdst := 0
    tmGmtoff := 0
    tmZone := "UTC" }

/-! ## The loops -/

theorem daysBeforeYear_eq (year : Nat) :
    daysBeforeYear year + (year + 99) / 100 = 365 * year + (year + 3) / 4 + (year + 399) / 400 := by
  induction year with
  | zero => rfl
  | succ year ih =>
    simp only [daysBeforeYear, yearLen, isLeap, Bool.and_eq_true, Bool.or_eq_true,
      decide_eq_true_eq]
    split <;> omega

theorem yearLoop_spec (days year : Nat) :
    daysBeforeYear year + days =
        daysBeforeYear (yearLoop days year).2 + (yearLoop days year).1 ∧
      (yearLoop days year).1 < yearLen (yearLoop days year).2 ∧ year ≤ (yearLoop days year).2 := by
  fun_induction yearLoop days year with
  | case1 days year h hleap h' ih =>
    rw [daysBeforeYear, yearLen, if_pos hleap] at ih
    exact ⟨by omega, ih.2.1, by omega⟩
  | case2 days year h hleap h' => exact ⟨rfl, by rw [yearLen, if_pos hleap]; omega, le_rfl⟩
  | case3 days year h hleap ih =>
    rw [daysBeforeYear, yearLen, if_neg hleap] at ih
    exact ⟨by omega, ih.2.1, by omega⟩
  | case4 days year h =>
    refine ⟨rfl, ?_, le_rfl⟩
    unfold yearLen
    split <;> omega

theorem monthStep_eq (year month : Nat) : monthStep year month = monthLen year month := by
  unfold monthLen
  split
  · rfl
  · rfl
  · rfl
  · rfl
  · rfl
  next h1 h3 h5 h8 h10 =>
    rw [monthStep, if_neg h1, if_neg]
    rintro (h | h | h | h)
    exacts [h3 h, h5 h, h8 h, h10 h]

theorem monthLoop_spec (year days month monthDays : Nat) :
    ∃ m k, monthLoop year days month monthDays =
        (k, m, monthDays + (daysBeforeMonth year m - daysBeforeMonth year month)) ∧
      daysBeforeMonth year month + days = daysBeforeMonth year m + k ∧ k < monthLen year m ∧
      daysBeforeMonth year month ≤ daysBeforeMonth year m := by
  fun_induction monthLoop year days month monthDays with
  | case1 days month monthDays h ih =>
    obtain ⟨m, k, hrun, hsum, hk, hle⟩ := ih
    rw [daysBeforeMonth, ← monthStep_eq] at hrun hsum hle
    refine ⟨m, k, ?_, by omega, hk, by omega⟩
    rw [hrun]
    congr 2
    omega
  | case2 days month monthDays h =>
    refine ⟨month, days, by simp, rfl, ?_, le_rfl⟩
    have := monthStep_ge year month
    rw [← monthStep_eq]
    omega

theorem daysBeforeMonth_mono (year : Nat) : Monotone (daysBeforeMonth year) :=
  monotone_nat_of_le_succ fun _ => Nat.le_add_right _ _

theorem daysBeforeMonth_twelve (year : Nat) : daysBeforeMonth year 12 = yearLen year := by
  simp only [daysBeforeMonth, monthLen, yearLen]
  split <;> rfl

theorem daysBeforeYear_mono : Monotone daysBeforeYear :=
  monotone_nat_of_le_succ fun _ => Nat.le_add_right _ _

/-- A step of a monotone function that contains a number is the only one. -/
theorem eq_of_between {f : Nat → Nat} (hf : Monotone f) {i j x : Nat} (hi : f i ≤ x ∧ x < f (i + 1))
    (hj : f j ≤ x ∧ x < f (j + 1)) : i = j := by
  by_contra hne
  rcases Nat.lt_or_gt_of_ne hne with hlt | hlt
  · have hle : f (i + 1) ≤ f j := hf hlt
    omega
  · have hle : f (j + 1) ≤ f i := hf hlt
    omega

/-- A day has one date. -/
theorem IsDate.unique {day y m d y' m' d' : Nat} (h : IsDate day y m d) (h' : IsDate day y' m' d') :
    y' = y ∧ m' = m ∧ d' = d := by
  -- the day of the year lies in the year, and the day of the month in the month
  have hlast : ∀ {y m d}, IsDate day y m d → daysBeforeMonth y m + (d - 1) < yearLen y := by
    intro y m d h
    have hmono : daysBeforeMonth y (m + 1) ≤ _ := daysBeforeMonth_mono y h.month
    rw [daysBeforeMonth_twelve, daysBeforeMonth] at hmono
    have := h.mday
    omega
  have hc := h.count
  have hc' := h'.count
  have hl := hlast h
  have hl' := hlast h'
  obtain rfl : y' = y := eq_of_between daysBeforeYear_mono (x := daysBeforeYear 1970 + day)
    ⟨by omega, show _ < daysBeforeYear y' + yearLen y' by omega⟩
    ⟨by omega, show _ < daysBeforeYear y + yearLen y by omega⟩
  have hd := h.mday
  have hd' := h'.mday
  obtain rfl : m' = m := eq_of_between (daysBeforeMonth_mono y')
    (x := daysBeforeMonth y' m + (d - 1))
    ⟨by omega, show _ < daysBeforeMonth y' m' + monthLen y' m' by omega⟩
    ⟨by omega, show _ < daysBeforeMonth y' m + monthLen y' m by omega⟩
  exact ⟨rfl, rfl, by omega⟩

/-- The date that the loops reach. -/
theorem posix2tm_loops (epoch : Nat) : ∃ y m k, yearLoop (epoch / 86400) 1970 =
      (daysBeforeMonth y m + k, y) ∧
    monthLoop y (daysBeforeMonth y m + k) 0 0 = (k, m, daysBeforeMonth y m) ∧
    IsDate (epoch / 86400) y m (k + 1) ∧ 1970 ≤ y := by
  obtain ⟨hsum, hlt, hle⟩ := yearLoop_spec (epoch / 86400) 1970
  obtain ⟨⟨days, y⟩, hy⟩ : ∃ p, yearLoop (epoch / 86400) 1970 = p := ⟨_, rfl⟩
  rw [hy] at hsum hlt hle ⊢
  obtain ⟨m, k, hrun, hdays, hk, -⟩ := monthLoop_spec y days 0 0
  simp only [daysBeforeMonth, Nat.zero_add, Nat.sub_zero] at hrun hdays
  subst hdays
  refine ⟨y, m, k, rfl, hrun, ⟨?_, ⟨Nat.le_add_left 1 k, hk⟩, hsum⟩, hle⟩
  by_contra hm
  have := daysBeforeMonth_mono y (Nat.le_of_not_lt hm)
  rw [daysBeforeMonth_twelve] at this
  dsimp only at hlt
  omega

theorem toInt_of_lt {x : Nat} (h : x < 2 ^ 31) : toInt x = x := by
  unfold toInt
  rw [Int.bmod_def]
  omega

theorem daysBefore1970 : daysBeforeYear 1970 = 719528 := by
  have := daysBeforeYear_eq 1970
  omega

/-- **The year, the month, the weekday and the time of day are those of the instant.** -/
theorem posix2tm_fields (epoch : Nat) : ∃ y m d, IsDate (epoch / 86400) y m d ∧
    (∀ y' m' d', IsDate (epoch / 86400) y' m' d' → y' = y ∧ m' = m ∧ d' = d) ∧
    (y < 1900 + 2 ^ 31 →
      (posix2tm epoch).tmYear = y - 1900 ∧ (posix2tm epoch).tmMon = m ∧
      (posix2tm epoch).tmWday = weekday y m d ∧
      (posix2tm epoch).tmHour = (epoch / 3600 % 24 : Nat) ∧
      (posix2tm epoch).tmMin = (epoch / 60 % 60 : Nat) ∧
      (posix2tm epoch).tmSec = (epoch % 60 : Nat)) := by
  obtain ⟨y, m, k, hy, hm, hdate, hle⟩ := posix2tm_loops epoch
  refine ⟨y, m, k + 1, hdate, fun _ _ _ h => hdate.unique h, fun hfit => ?_⟩
  have hmonth := hdate.month
  have hcount := hdate.count
  simp only [posix2tm, hy, hm]
  refine ⟨?_, toInt_of_lt (by omega), ?_, ?_, ?_, ?_⟩
  · rw [subWord_of_le (by omega) (by unfold word; omega), toInt_of_lt (by omega)]
    omega
  · rw [toInt_of_lt (by omega), weekday, ← hcount, daysBefore1970]
    omega
  · rw [toInt_of_lt (by omega)]
    omega
  · rw [toInt_of_lt (by omega)]
    omega
  · rw [toInt_of_lt (by omega)]
    omega

/-- The formula of `tm2posix` counts the days before the year. -/
theorem tm2posix_eq {tm : Tm} {y : Nat} (hy : 1970 ≤ y) (hbound : y + 299 < 1900 + 2 ^ 31)
    (hyear : tm.tmYear = (y - 1900 : Nat)) :
    tm2posix tm = some ((tm.tmSec + tm.tmMin * 60 + tm.tmHour * 3600 +
      (tm.tmYday + daysBeforeYear y - 719528) * 86400) % word).toNat := by
  have hint : ∀ x : Int, 0 ≤ x → x < 2 ^ 31 → int x = some x := fun x h0 h1 => if_pos ⟨by omega, h1⟩
  have hclosed := daysBeforeYear_eq y
  unfold tm2posix
  rw [hint _ (by omega) (by omega), hint _ (by omega) (by omega),
    hint _ (by omega) (by omega), hint _ (by omega) (by omega)]
  simp only [Option.bind_eq_bind, Option.bind_some]
  rw [Int.tdiv_eq_ediv_of_nonneg (by omega), Int.tdiv_eq_ediv_of_nonneg (by omega),
    Int.tdiv_eq_ediv_of_nonneg (by omega)]
  congr 3
  omega

/-- **The day of the month and of the year are those of the instant, and `tm2posix` returns to it,
exactly in January**, as long as `tm_year + 299` does not overflow. -/
theorem posix2tm_days_iff (epoch : Nat) : ∃ y m d, IsDate (epoch / 86400) y m d ∧
    (∀ y' m' d', IsDate (epoch / 86400) y' m' d' → y' = y ∧ m' = m ∧ d' = d) ∧
    (y < 1900 + 2 ^ 31 →
      ((posix2tm epoch).tmMday = d ∧
          (posix2tm epoch).tmYday = (daysBeforeMonth y m + (d - 1) : Nat) ∧
          tm2posix (posix2tm epoch) = some epoch ↔
        m = 0 ∧ y + 299 < 1900 + 2 ^ 31)) := by
  obtain ⟨y, m, k, hy, hm, hdate, hle⟩ := posix2tm_loops epoch
  refine ⟨y, m, k + 1, hdate, fun _ _ _ h => hdate.unique h, fun hfit => ?_⟩
  have hcount := hdate.count
  have hk := hdate.mday.2
  have hyear : toInt (subWord y 1900) = (y - 1900 : Nat) := by
    rw [subWord_of_le (by omega) (by unfold word; omega), toInt_of_lt (by omega)]
  have hk31 : k < 31 := by
    have := monthStep_eq y m
    unfold monthStep at this
    split_ifs at this <;> omega
  constructor
  · rintro ⟨-, hyday, hback⟩
    simp only [posix2tm, hy, hm] at hyday hback
    rw [toInt_of_lt (by omega)] at hyday
    refine ⟨?_, ?_⟩
    · by_contra hm0
      have hjan : 31 ≤ daysBeforeMonth y m := daysBeforeMonth_mono y (show 1 ≤ m by omega)
      omega
    · by_contra hbig
      simp only [tm2posix, hyear] at hback
      have : int ((y - 1900 : Nat) + 299 : Int) = none := if_neg (by omega)
      simp only [this, Option.bind_eq_bind, Option.bind_none, Option.bind_fun_none,
        reduceCtorEq] at hback
  · rintro ⟨rfl, hbound⟩
    have h0 : daysBeforeMonth y 0 = 0 := rfl
    rw [h0] at hm
    have hclosed := daysBeforeYear_eq y
    rw [tm2posix_eq hle hbound (by simp only [posix2tm, hy, hyear])]
    simp only [posix2tm, hy, hm, h0]
    refine ⟨?_, ?_, ?_⟩
    · rw [subWord_of_le (Nat.zero_le k) (by unfold word; omega),
        addWord_of_lt (by unfold word; omega),
        toInt_of_lt (by omega)]
      rfl
    · rw [toInt_of_lt (by omega), Nat.zero_add]
      rfl
    · rw [toInt_of_lt (by omega), toInt_of_lt (by omega), toInt_of_lt (by omega),
        toInt_of_lt (by omega)]
      have htime : ∀ x < 86400, x % 60 + x / 60 % 60 * 60 + x / 3600 % 24 * 3600 = x := by omega
      have hrem := htime _ (Nat.mod_lt epoch (by decide))
      rw [daysBefore1970] at hcount
      refine congrArg some ?_
      unfold word
      omega

/-- 1 February 1970 becomes day `-30` of the month, and 1 January on the way back. -/
theorem february_first_lost : IsDate 31 1970 1 1 ∧
    (posix2tm (31 * 86400)).tmMday = -30 ∧ (posix2tm (31 * 86400)).tmYday = 0 ∧
    tm2posix (posix2tm (31 * 86400)) = some 0 := by
  refine ⟨⟨by decide, by decide, congrArg (daysBeforeYear 1970 + ·) (by decide)⟩, ?_⟩
  have hy : yearLoop (31 * 86400 / 86400) 1970 = (31, 1970) := by
    rw [yearLoop, if_neg (by decide)]
  have hm : monthLoop 1970 31 0 0 = (0, 1, 31) := by
    rw [monthLoop, monthLoop]
    rfl
  simp only [tm2posix, posix2tm, hy, hm]
  decide

end Osdev.Time
