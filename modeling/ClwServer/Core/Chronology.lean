import Mathlib.Data.String.Basic
import Mathlib.Order.Monotone.Basic
import ClwServer.Core.Calendar

/-!
# Dates in order

A later point of time has a later date, or the same date and a later time of day. Its digits have
fixed places up to the year 9999, so that the texts are ordered as the points of time are.
-/

namespace Posix

/-! ### Years, months and days -/

/-- The year of an era that the day `doe` is in. -/
def yearOfEra (doe : ℕ) : ℕ := (doe - doe / 1460 + doe / 36524 - doe / 146096) / 365

/-- The days of an era in front of the year `yoe`. -/
def daysBefore (yoe : ℕ) : ℕ := 365 * yoe + yoe / 4 - yoe / 100

lemma yearOfEra_daysBefore : ∀ yoe < 400, yearOfEra (daysBefore yoe) = yoe ∧
    yearOfEra (daysBefore (yoe + 1) - 1) = yoe := by
  decide +kernel

lemma daysBefore_mono : Monotone daysBefore := by
  refine monotone_nat_of_le_succ fun yoe => ?_
  simp only [daysBefore]
  omega

lemma yearOfEra_le_succ {doe : ℕ} (h : doe + 1 < 146097) : yearOfEra doe ≤ yearOfEra (doe + 1) := by
  apply Nat.div_le_div_right
  omega

lemma yearOfEra_mono {d e : ℕ} (h : d ≤ e) (he : e < 146097) : yearOfEra d ≤ yearOfEra e := by
  induction e, h using Nat.le_induction with
  | base => exact Nat.le_refl _
  | succ e _ ih => exact (ih (by omega)).trans (yearOfEra_le_succ he)

lemma yearOfEra_spec {doe : ℕ} (h : doe < 146097) : yearOfEra doe < 400 ∧
    daysBefore (yearOfEra doe) ≤ doe ∧
    (doe < daysBefore (yearOfEra doe + 1) ∨ yearOfEra doe = 399) := by
  have hlast : yearOfEra 146096 = 399 := by decide
  have hle : yearOfEra doe ≤ 399 := hlast ▸ yearOfEra_mono (by omega) (by omega)
  refine ⟨by omega, ?_, ?_⟩
  · by_contra hlt
    cases hy : yearOfEra doe with
    | zero => simp [hy, daysBefore] at hlt
    | succ y =>
      rw [hy] at hlt
      have hbefore := (yearOfEra_daysBefore y (by omega)).2
      have hmono := yearOfEra_mono (d := doe) (e := daysBefore (y + 1) - 1) (by omega) (by
        simp only [daysBefore]; omega)
      omega
  · by_contra hge
    have hnext := (yearOfEra_daysBefore (yearOfEra doe + 1) (by omega)).1
    have hmono := yearOfEra_mono (d := daysBefore (yearOfEra doe + 1)) (e := doe) (by omega) h
    omega

/-- The year, counted from March, and the day of it. -/
def marchYear (day : ℕ) : ℕ := day / 146097 * 400 + yearOfEra (day % 146097)

def dayOfYear (day : ℕ) : ℕ := day % 146097 - daysBefore (yearOfEra (day % 146097))

lemma dayOfYear_le (day : ℕ) : dayOfYear day ≤ 365 := by
  have hlt : day % 146097 < 146097 := Nat.mod_lt _ (by decide)
  obtain ⟨hyear, hle, hnext⟩ := yearOfEra_spec hlt
  rw [dayOfYear]
  rcases hnext with hnext | hlast
  · simp only [daysBefore] at *
    omega
  · simp only [hlast, daysBefore] at *
    omega

/-- The next day is the next one of its year, or the first one of the next year. -/
lemma succ_day (day : ℕ) : marchYear (day + 1) = marchYear day ∧ dayOfYear (day + 1) = dayOfYear day + 1 ∨
    marchYear (day + 1) = marchYear day + 1 ∧ dayOfYear (day + 1) = 0 := by
  have hlt : day % 146097 < 146097 := Nat.mod_lt _ (by decide)
  obtain ⟨hyear, hle, hnext⟩ := yearOfEra_spec hlt
  by_cases hera : day % 146097 + 1 = 146097
  · right
    have hdiv : (day + 1) / 146097 = day / 146097 + 1 := by omega
    have hmod : (day + 1) % 146097 = 0 := by omega
    have hlast : yearOfEra 146096 = 399 := by decide
    have hmod' : day % 146097 = 146096 := by omega
    have hfirst : yearOfEra 0 = 0 := by decide
    simp only [marchYear, dayOfYear, hdiv, hmod, hmod', hlast, hfirst]
    omega
  · have hdiv : (day + 1) / 146097 = day / 146097 := by omega
    have hmod : (day + 1) % 146097 = day % 146097 + 1 := by omega
    have hlt' : day % 146097 + 1 < 146097 := by omega
    obtain ⟨hyear', hle', hnext'⟩ := yearOfEra_spec hlt'
    have hmono : yearOfEra (day % 146097) ≤ yearOfEra (day % 146097 + 1) :=
      yearOfEra_le_succ (by omega)
    simp only [marchYear, dayOfYear, hdiv, hmod]
    rcases hmono.eq_or_lt with hsame | hlater
    · left
      rw [← hsame]
      omega
    · right
      -- then it is the first day of that year
      have hbefore : daysBefore (yearOfEra (day % 146097) + 1) ≤
          daysBefore (yearOfEra (day % 146097 + 1)) := daysBefore_mono hlater
      have hfirst := (yearOfEra_daysBefore (yearOfEra (day % 146097) + 1) (by omega)).1
      have heq : day % 146097 + 1 = daysBefore (yearOfEra (day % 146097) + 1) := by omega
      rw [heq, hfirst]
      omega

/-- The month of the year, counted from March. -/
def marchMonth (day : ℕ) : ℕ := (5 * dayOfYear day + 2) / 153

def dayOfMonth (day : ℕ) : ℕ := dayOfYear day - (153 * marchMonth day + 2) / 5

/-- The months since the first March. -/
def months (day : ℕ) : ℕ := 12 * marchYear day + marchMonth day

lemma marchMonth_le (day : ℕ) : marchMonth day ≤ 11 := by
  have hle := dayOfYear_le day
  simp only [marchMonth]
  omega

lemma dayOfMonth_le (day : ℕ) : dayOfMonth day ≤ 30 := by
  simp only [dayOfMonth, marchMonth]
  omega

/-- The next day is the next one of its month, or in a later month. -/
lemma succ_months (day : ℕ) :
    months (day + 1) = months day ∧ dayOfMonth (day + 1) = dayOfMonth day + 1 ∨
      months day < months (day + 1) := by
  have hmonth := marchMonth_le day
  rcases succ_day day with ⟨hyear, hday⟩ | ⟨hyear, -⟩
  · have hstart : (153 * marchMonth day + 2) / 5 ≤ dayOfYear day := by
      simp only [marchMonth]
      omega
    have hmono : marchMonth day ≤ marchMonth (day + 1) := by
      simp only [marchMonth, hday]
      omega
    simp only [months, dayOfMonth, hyear, hday]
    rcases hmono.eq_or_lt with hsame | hlater
    · rw [← hsame]
      omega
    · omega
  · right
    simp only [months, hyear]
    omega

/-! ### Dates and times of day as numbers -/

def Tm.date (tm : Tm) : ℕ := (tm.year * 100 + tm.mon) * 100 + tm.mday

def Tm.clock (tm : Tm) : ℕ := (tm.hour * 100 + tm.min) * 100 + tm.sec

/-- The date of a day that is counted from the first of March of the year 0. -/
def dateOfDay (day : ℕ) : ℕ :=
  (months day + 3 + 88 * ((months day + 2) / 12)) * 100 + (dayOfMonth day + 1)

lemma date_gmtime (t : Time) : (gmtime t).date = dateOfDay (t / 86400 + 719468) := by
  have hmonth := marchMonth_le (t / 86400 + 719468)
  have hyear : (gmtime t).year = marchYear (t / 86400 + 719468) +
      if marchMonth (t / 86400 + 719468) < 10 then 0 else 1 := rfl
  have hmon : (gmtime t).mon = if marchMonth (t / 86400 + 719468) < 10 then
      marchMonth (t / 86400 + 719468) + 3 else marchMonth (t / 86400 + 719468) - 9 := rfl
  have hmday : (gmtime t).mday = dayOfMonth (t / 86400 + 719468) + 1 := rfl
  rw [Tm.date, hyear, hmon, hmday, dateOfDay, months]
  split_ifs <;> omega

lemma dateOfDay_lt_succ (day : ℕ) : dateOfDay day < dateOfDay (day + 1) := by
  have hle := dayOfMonth_le day
  simp only [dateOfDay]
  rcases succ_months day with ⟨hmonths, hday⟩ | hlater
  · rw [hmonths, hday]
    omega
  · omega

lemma dateOfDay_strictMono : StrictMono dateOfDay := strictMono_nat_of_lt_succ dateOfDay_lt_succ

/-- Of two points of time the earlier one has the earlier date, or the same date and the earlier
time of day. -/
lemma gmtime_lt {t u : ℕ} (h : t < u) : (gmtime t).date < (gmtime u).date ∨
    (gmtime t).date = (gmtime u).date ∧ (gmtime t).clock < (gmtime u).clock := by
  have hclock (t : Time) : (gmtime t).clock =
      t % 86400 + 40 * (t % 86400 / 60) + 4000 * (t % 86400 / 3600) := by
    simp only [Tm.clock, gmtime]
    omega
  rcases Nat.lt_or_ge (t / 86400) (u / 86400) with hday | hday
  · left
    rw [date_gmtime, date_gmtime]
    exact dateOfDay_strictMono (by omega)
  · right
    have hsame : t / 86400 = u / 86400 := by omega
    rw [date_gmtime, date_gmtime, hsame, hclock, hclock]
    omega

/-! ### Numerals of fixed width -/

/-- The last `w` digits. -/
def digits : ℕ → ℕ → List Char
  | 0, _ => []
  | w + 1, n => digits w (n / 10) ++ [(n % 10).digitChar]

lemma length_digits (w n : ℕ) : (digits w n).length = w := by
  induction w generalizing n with
  | zero => rfl
  | succ w ih => rw [digits, List.length_append, ih, List.length_singleton]

lemma digits_append (v w n : ℕ) : digits (v + w) n = digits v (n / 10 ^ w) ++ digits w n := by
  induction w generalizing n with
  | zero => simp [digits]
  | succ w ih =>
    rw [← Nat.add_assoc, digits, ih, digits, Nat.div_div_eq_div_mul, Nat.pow_succ', List.append_assoc]

/-- The digits of a number that has as many. -/
lemma toDigits_eq_digits {w n : ℕ} (hlow : 10 ^ w ≤ n) (hhigh : n < 10 ^ (w + 1)) :
    Nat.toDigits 10 n = digits (w + 1) n := by
  induction w generalizing n with
  | zero =>
    have hlt : n < 10 := hhigh
    rw [Nat.toDigits_of_lt_base hlt, digits, Nat.mod_eq_of_lt hlt]
    rfl
  | succ w ih =>
    rw [Nat.pow_succ] at hlow hhigh
    have hpos : 0 < 10 ^ w := Nat.pow_pos (by decide)
    rw [Nat.toDigits_of_base_le (by decide) (by omega), ih (by omega) (by omega)]
    rfl

lemma toList_twoDigits {n : ℕ} (h : n < 100) : (twoDigits n).toList = digits 2 n := by
  rw [twoDigits]
  split_ifs with hlt
  · rw [String.toList_append, Nat.toString_eq_repr, Nat.toList_repr, Nat.toDigits_of_lt_base hlt]
    simp [digits, Nat.mod_eq_of_lt hlt, Nat.div_eq_of_lt hlt]
  · rw [Nat.toString_eq_repr, Nat.toList_repr]
    exact toDigits_eq_digits (w := 1) (by omega) h

lemma append_lt_append {α : Type*} [LT α] {xs ys : List α} (as bs : List α) (h : xs < ys)
    (hlen : xs.length = ys.length) : xs ++ as < ys ++ bs := by
  induction xs generalizing ys with
  | nil =>
    obtain rfl := List.eq_nil_of_length_eq_zero hlen.symm
    exact absurd h (List.not_lt_nil [])
  | cons x xs ih =>
    cases ys with
    | nil => cases hlen
    | cons y ys =>
      rw [List.cons_append, List.cons_append, List.cons_lt_cons_iff]
      rcases List.cons_lt_cons_iff.mp h with hlt | ⟨rfl, hlt⟩
      · exact .inl hlt
      · exact .inr ⟨rfl, ih hlt (Nat.succ.inj hlen)⟩

lemma digitChar_lt {d e : ℕ} (h : d < e) (he : e < 10) : d.digitChar < e.digitChar := by
  have hall : ∀ e : Fin 10, ∀ d : Fin 10, d < e → (d : ℕ).digitChar < (e : ℕ).digitChar := by
    decide
  exact hall ⟨e, he⟩ ⟨d, h.trans he⟩ h

/-- Numerals of the same width are ordered as the numbers are. -/
lemma digits_lt {w n m : ℕ} (h : n < m) (hm : m < 10 ^ w) : digits w n < digits w m := by
  induction w generalizing n m with
  | zero => omega
  | succ w ih =>
    rw [digits, digits]
    rcases Nat.lt_or_ge (n / 10) (m / 10) with hlt | hge
    · refine append_lt_append _ _ (ih hlt ?_) ?_
      · rw [Nat.pow_succ] at hm
        omega
      · rw [length_digits, length_digits]
    · have hsame : n / 10 = m / 10 := by omega
      rw [hsame]
      refine List.append_left_lt (List.cons_lt_cons_iff.mpr (.inl (digitChar_lt ?_ ?_)))
      · omega
      · exact Nat.mod_lt m (by decide)

/-! ### The text of a point of time -/

/-- All but the year have two digits at most. -/
structure Tm.Valid (tm : Tm) : Prop where
  mon : tm.mon < 100
  mday : tm.mday < 100
  hour : tm.hour < 100
  min : tm.min < 100
  sec : tm.sec < 100

lemma valid_gmtime (t : ℕ) : (gmtime t).Valid := by
  have hmonth := marchMonth_le (t / 86400 + 719468)
  have hday := dayOfMonth_le (t / 86400 + 719468)
  have hmon : (gmtime t).mon = if marchMonth (t / 86400 + 719468) < 10 then
      marchMonth (t / 86400 + 719468) + 3 else marchMonth (t / 86400 + 719468) - 9 := rfl
  have hmday : (gmtime t).mday = dayOfMonth (t / 86400 + 719468) + 1 := rfl
  refine ⟨?_, ?_, ?_, ?_, ?_⟩
  · rw [hmon]
    split_ifs <;> omega
  · omega
  · simp only [gmtime]
    omega
  · simp only [gmtime]
    omega
  · simp only [gmtime]
    omega

lemma digits_two (a b : ℕ) : digits 2 (a * 100 + b) = digits 2 b := by
  have htens : (a * 100 + b) / 10 % 10 = b / 10 % 10 := by omega
  have hunits : (a * 100 + b) % 10 = b % 10 := by omega
  simp only [digits, htens, hunits]

lemma digits_fields (w : ℕ) {a b c : ℕ} (hb : b < 100) (hc : c < 100) :
    digits (w + 2 + 2) ((a * 100 + b) * 100 + c) = digits w a ++ digits 2 b ++ digits 2 c := by
  have hab : ((a * 100 + b) * 100 + c) / 10 ^ 2 = a * 100 + b := by omega
  have ha : (a * 100 + b) / 10 ^ 2 = a := by omega
  rw [digits_append, hab, digits_append, ha, digits_two, digits_two]

lemma toList_strftime {tm : Tm} (h : tm.Valid) (hlow : 1000 ≤ tm.year) (hhigh : tm.year < 10000) :
    (strftime tm).toList = digits 8 tm.date ++ ('-' :: (digits 6 tm.clock ++ ['_'])) := by
  have hyear : Nat.toDigits 10 tm.year = digits 4 tm.year :=
    toDigits_eq_digits (w := 3) hlow hhigh
  have hdate : digits 8 tm.date = digits 4 tm.year ++ digits 2 tm.mon ++ digits 2 tm.mday :=
    digits_fields 4 h.mon h.mday
  have hclock : digits 6 tm.clock = digits 2 tm.hour ++ digits 2 tm.min ++ digits 2 tm.sec :=
    digits_fields 2 h.min h.sec
  rw [hdate, hclock, strftime]
  simp [hyear, toList_twoDigits, h.mon, h.mday, h.hour, h.min, h.sec]

/-- The first second of the year 10000. -/
def year10000 : ℕ := 253402300800

lemma date_le {t u : ℕ} (h : t ≤ u) : (gmtime t).date ≤ (gmtime u).date := by
  rcases h.eq_or_lt with rfl | hlt
  · exact Nat.le_refl _
  · rcases gmtime_lt hlt with hdate | ⟨hdate, -⟩
    · exact hdate.le
    · exact hdate.le

lemma year_bounds {t : ℕ} (h : t < year10000) :
    1000 ≤ (gmtime t).year ∧ (gmtime t).year < 10000 := by
  have hfirst : (gmtime 0).date = 19700101 := by decide
  have hlast : (gmtime 253402300799).date = 99991231 := by decide
  have hlow := date_le (Nat.zero_le t)
  have hhigh : (gmtime t).date ≤ (gmtime 253402300799).date := by
    apply date_le
    rw [year10000] at h
    omega
  have hmon := (valid_gmtime t).mon
  have hmday := (valid_gmtime t).mday
  rw [hfirst, Tm.date] at hlow
  rw [hlast, Tm.date] at hhigh
  omega

/-- Up to the year 9999 an earlier point of time has a smaller text, whatever follows. -/
lemma strftime_lt {t u : ℕ} (h : t < u) (hu : u < year10000) (as bs : List Char) :
    (strftime (gmtime t)).toList ++ as < (strftime (gmtime u)).toList ++ bs := by
  obtain ⟨htlow, hthigh⟩ := year_bounds (h.trans hu)
  obtain ⟨hulow, huhigh⟩ := year_bounds hu
  have hvalid := valid_gmtime u
  rw [toList_strftime (valid_gmtime t) htlow hthigh, toList_strftime hvalid hulow huhigh,
    List.append_assoc, List.append_assoc]
  rcases gmtime_lt h with hdate | ⟨hdate, hclock⟩
  · refine append_lt_append _ _ (digits_lt hdate ?_) ?_
    · have hmon := hvalid.mon
      have hmday := hvalid.mday
      rw [Tm.date]
      omega
    · rw [length_digits, length_digits]
  · rw [hdate, List.cons_append, List.cons_append]
    refine List.append_left_lt (List.cons_lt_cons_iff.mpr (.inr ⟨rfl, ?_⟩))
    rw [List.append_assoc, List.append_assoc]
    refine append_lt_append _ _ (digits_lt hclock ?_) ?_
    · have hhour := hvalid.hour
      have hmin := hvalid.min
      have hsec := hvalid.sec
      rw [Tm.clock]
      omega
    · rw [length_digits, length_digits]

end Posix
