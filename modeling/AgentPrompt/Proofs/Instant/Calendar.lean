import AgentPrompt.Instant
import Mathlib.Tactic.IntervalCases

/-! Dates computed by divisions from day numbers are those of the Gregorian calendar, also below
zero. -/
namespace AgentPrompt.Instant.Date

def isLeapYear (year : Int) : Bool :=
  year % 4 = 0 && (year % 100 ≠ 0 || year % 400 = 0)

def monthLength (year : Int) (month : Nat) : Nat :=
  if month = 2 then (if isLeapYear year then 29 else 28)
  else if month ∈ [4, 6, 9, 11] then 30
  else 31

def next (d : Date) : Date :=
  if d.day < monthLength d.year d.month then { d with day := d.day + 1 }
  else if d.month < 12 then { d with month := d.month + 1, day := 1 }
  else { year := d.year + 1, month := 1, day := 1 }

structure Valid (d : Date) : Prop where
  month_pos : 1 ≤ d.month
  month_le : d.month ≤ 12
  day_pos : 1 ≤ d.day
  day_le : d.day ≤ monthLength d.year d.month

theorem monthLength_le (year : Int) (month : Nat) : monthLength year month ≤ 31 := by
  unfold monthLength
  split_ifs <;> omega

theorem monthLength_pos (year : Int) (month : Nat) : 0 < monthLength year month := by
  unfold monthLength
  split_ifs <;> omega

/-! ## Months from March -/

/-- The date that lies `day` days after 1 March of a year. -/
def ofMarch (year : Int) (day : Nat) : Date :=
  let marchMonth := (5 * day + 2) / 153
  let month := if marchMonth < 10 then marchMonth + 3 else marchMonth - 9
  { year := year + if month ≤ 2 then 1 else 0
    month, day := day - (153 * marchMonth + 2) / 5 + 1 }

/-- The days from 1 March of a year to the next. The last of them may be a leap day. -/
def marchLength (year : Int) : Nat :=
  if isLeapYear (year + 1) then 366 else 365

/-- The days from 1 March to the start of a month, where March is month zero. -/
def monthStart (m : Nat) : Nat :=
  (153 * m + 2) / 5

/-- January and February, months ten and eleven, belong to the next year of the calendar. -/
def yearOf (year : Int) (m : Nat) : Int :=
  if m < 10 then year else year + 1

def monthOf (m : Nat) : Nat :=
  if m < 10 then m + 3 else m - 9

theorem le_marchLength (year : Int) : 365 ≤ marchLength year := by
  unfold marchLength
  split_ifs <;> omega

theorem marchLength_pos (year : Int) : 0 < marchLength year :=
  Nat.lt_of_lt_of_le (Nat.zero_lt_succ 364) (le_marchLength year)

theorem marchLength_le (year : Int) : marchLength year ≤ 366 := by
  unfold marchLength
  split_ifs <;> omega

section
variable {year : Int} {day m d : Nat}

/-- Each month ends where the next begins, and the last where the year ends. -/
theorem monthStart_add_length (year : Int) (hm : m < 12) :
    monthStart m + monthLength (yearOf year m) (monthOf m) =
      if m = 11 then marchLength year else monthStart (m + 1) := by
  interval_cases m <;> simp [monthStart, monthLength, yearOf, monthOf, marchLength]
  split_ifs <;> rfl

theorem monthStart_add_div (hm : m < 12) (hd : d < monthLength (yearOf year m) (monthOf m)) :
    (5 * (monthStart m + d) + 2) / 153 = m := by
  have hlength := monthLength_le (yearOf year m) (monthOf m)
  have hnext := monthStart_add_length year hm
  have hlast := marchLength_le year
  unfold monthStart at *
  split_ifs at hnext <;> omega

theorem ofMarch_eq (hm : m < 12) (hd : d < monthLength (yearOf year m) (monthOf m)) :
    ofMarch year (monthStart m + d) = ⟨yearOf year m, monthOf m, d + 1⟩ := by
  have hmonth := monthStart_add_div hm hd
  unfold ofMarch
  simp only [hmonth]
  unfold monthStart yearOf monthOf
  split_ifs <;> simp <;> omega

theorem exists_month (h : day < marchLength year) :
    ∃ m d, m < 12 ∧ d < monthLength (yearOf year m) (monthOf m) ∧ day = monthStart m + d := by
  have hyear := marchLength_le year
  have hm : (5 * day + 2) / 153 < 12 := by omega
  have hstart : monthStart ((5 * day + 2) / 153) ≤ day := by
    unfold monthStart
    omega
  have hend : day < monthStart ((5 * day + 2) / 153 + 1) := by
    unfold monthStart
    omega
  have hlength := monthStart_add_length year hm
  refine ⟨(5 * day + 2) / 153, day - monthStart ((5 * day + 2) / 153), hm, ?_, by omega⟩
  split_ifs at hlength <;> omega

theorem valid_ofMarch (h : day < marchLength year) : (ofMarch year day).Valid := by
  obtain ⟨m, d, hm, hd, rfl⟩ := exists_month h
  rw [ofMarch_eq hm hd]
  constructor
  · simp only [monthOf]
    split_ifs <;> omega
  · simp only [monthOf]
    split_ifs <;> omega
  · exact Nat.le_add_left 1 d
  · exact hd

/-- The first day of a month comes after the last day of the month before. -/
theorem next_month (hm : m < 11) (hlast : d + 1 = monthLength (yearOf year m) (monthOf m)) :
    next ⟨yearOf year m, monthOf m, d + 1⟩ = ⟨yearOf year (m + 1), monthOf (m + 1), 1⟩ := by
  simp only [next, hlast, lt_self_iff_false, if_false]
  unfold yearOf monthOf
  rcases lt_trichotomy m 9 with h | rfl | h
  · have hm₁ : m + 3 < 12 := by omega
    have hm₂ : m < 10 := by omega
    have hm₃ : m + 1 < 10 := by omega
    simp [hm₁, hm₂, hm₃, Nat.add_right_comm]
  · rfl
  · obtain rfl : m = 10 := by omega
    rfl

/-- Within a year from March the next day has the next date. -/
theorem next_ofMarch (h : day + 1 < marchLength year) :
    (ofMarch year day).next = ofMarch year (day + 1) := by
  obtain ⟨m, d, hm, hd, rfl⟩ := exists_month (Nat.lt_of_succ_lt h)
  rcases Nat.lt_or_eq_of_le (Nat.succ_le_of_lt hd) with hlast | hlast
  · rw [Nat.add_assoc, ofMarch_eq hm hd, ofMarch_eq hm hlast]
    exact if_pos hlast
  · -- The month ends, but not the year.
    have hlength := monthStart_add_length year hm
    have hm' : m < 11 := by
      split_ifs at hlength <;> omega
    have hstart : monthStart m + d + 1 = monthStart (m + 1) + 0 := by
      rw [if_neg hm'.ne] at hlength
      omega
    have hpos : 0 < monthLength (yearOf year (m + 1)) (monthOf (m + 1)) := monthLength_pos _ _
    rw [hstart, ofMarch_eq hm hd, ofMarch_eq (by omega) hpos]
    exact next_month hm' hlast

/-- After the last day of February comes 1 March. -/
theorem next_ofMarch_last (h : day + 1 = marchLength year) :
    (ofMarch year day).next = ofMarch (year + 1) 0 := by
  obtain ⟨m, d, hm, hd, rfl⟩ := exists_month (Nat.lt_of_lt_of_eq (Nat.lt_succ_self day) h)
  have hlength := monthStart_add_length year hm
  have hm' : m = 11 := by
    have hstart : monthStart (m + 1) ≤ 337 ∨ m = 11 := by
      unfold monthStart
      omega
    have hyear := le_marchLength year
    split_ifs at hlength <;> omega
  subst hm'
  rw [if_pos rfl] at hlength
  have hlast : d + 1 = monthLength (yearOf year 11) (monthOf 11) := by omega
  have hfirst : ofMarch (year + 1) 0 = ⟨year + 1, 3, 1⟩ :=
    ofMarch_eq (Nat.zero_lt_succ 11) (monthLength_pos _ _)
  rw [hfirst, ofMarch_eq hm hd]
  simp only [next, hlast, lt_self_iff_false, if_false]
  rfl

end

/-! ## Years of an era -/

/-- The days from the start of an era to 1 March of one of its years. -/
def marchStart (y : Nat) : Nat :=
  365 * y + y / 4 - y / 100 + y / 400

section
variable {era n : Int} {y d : Nat}

theorem isLeapYear_iff {year : Int} :
    isLeapYear year = true ↔ (4 : Int) ∣ year ∧ ((100 : Int) ∣ year → (400 : Int) ∣ year) := by
  simp only [isLeapYear, Bool.and_eq_true, Bool.or_eq_true, decide_eq_true_eq,
    Int.dvd_iff_emod_eq_zero, imp_iff_not_or, ne_eq]

/-- Each year ends where the next begins. -/
theorem marchStart_add_length (era : Int) (y : Nat) :
    marchStart y + marchLength (era * 400 + y) = marchStart (y + 1) := by
  have h4 : (4 : Int) ∣ era * 400 + y + 1 ↔ 4 ∣ y + 1 := by omega
  have h100 : (100 : Int) ∣ era * 400 + y + 1 ↔ 100 ∣ y + 1 := by omega
  have h400 : (400 : Int) ∣ era * 400 + y + 1 ↔ 400 ∣ y + 1 := by omega
  have hcentury : y / 100 ≤ y := Nat.div_le_self y 100
  simp only [marchStart, marchLength, isLeapYear_iff, h4, h100, h400, Nat.succ_div]
  by_cases d4 : 4 ∣ y + 1
  · by_cases d100 : 100 ∣ y + 1
    · by_cases d400 : 400 ∣ y + 1
      · simp only [d4, d100, d400, if_true, true_and, imp_true_iff]
        omega
      · simp only [d4, d100, d400, if_true, if_false, true_and, true_imp_iff]
        omega
    · have d400 : ¬ 400 ∣ y + 1 := by omega
      simp only [d4, d100, d400, if_true, if_false, true_and, false_imp_iff]
      omega
  · have d100 : ¬ 100 ∣ y + 1 := by omega
    have d400 : ¬ 400 ∣ y + 1 := by omega
    simp only [d4, d100, d400, if_false, false_and]
    omega

theorem exists_year (era : Int) {e : Nat} (h : e < 146097) :
    ∃ y d : Nat, y < 400 ∧ d < marchLength (era * 400 + y) ∧ e = marchStart y + d := by
  induction e with
  | zero => exact ⟨0, 0, Nat.zero_lt_succ 399, marchLength_pos _, rfl⟩
  | succ e ih =>
    obtain ⟨y, d, hy, hd, rfl⟩ := ih (Nat.lt_of_succ_lt h)
    rcases Nat.lt_or_eq_of_le (Nat.succ_le_of_lt hd) with hlast | hlast
    · exact ⟨y, d + 1, hy, hlast, rfl⟩
    · have hnext := marchStart_add_length era y
      have hy' : y ≠ 399 := by
        rintro rfl
        have hera : marchStart (399 + 1) = 146097 := rfl
        omega
      exact ⟨y + 1, 0, by omega, marchLength_pos _, by omega⟩

/-- A day of an era lies in the year that the divisions give. -/
theorem yearOfEra_eq (hy : y < 400) (hd : d < marchLength (era * 400 + y)) :
    (marchStart y + d - (marchStart y + d) / 1460 + (marchStart y + d) / 36524 -
      (marchStart y + d) / 146096) / 365 = y := by
  obtain ⟨c, q, k, hc, hq, hk, rfl⟩ : ∃ c q k, c ≤ 3 ∧ q ≤ 24 ∧ k ≤ 3 ∧ y = 100 * c + 4 * q + k :=
    ⟨y / 100, y % 100 / 4, y % 4, by omega⟩
  have hstart : marchStart (100 * c + 4 * q + k) = 36524 * c + 1461 * q + 365 * k := by
    unfold marchStart
    omega
  have hlength : d < 365 ∨ d = 365 ∧ k = 3 ∧ (q < 24 ∨ c = 3) := by
    unfold marchLength isLeapYear at hd
    simp only [Bool.and_eq_true, Bool.or_eq_true, decide_eq_true_eq] at hd
    split_ifs at hd <;> omega
  rw [hstart]
  generalize he : 36524 * c + 1461 * q + 365 * k + d = e
  -- Only the last day of an era makes a difference to the last two quotients.
  by_cases hlast : e = 146096
  · omega
  · have hera : e / 146096 = 0 := by omega
    have hcentury : e / 36524 = c := by omega
    have hfour : e / 1460 = 25 * c + q ∨ e / 1460 = 25 * c + q + 1 := by omega
    omega

theorem ofDays_eq (hy : y < 400) (hd : d < marchLength (era * 400 + y))
    (hn : n + 719468 = 146097 * era + (marchStart y + d : Nat)) :
    ofDays n = ofMarch (era * 400 + y) d := by
  have hlt : marchStart y + d < 146097 := by
    have hnext := marchStart_add_length era y
    have hmono : marchStart (y + 1) ≤ 146097 := by
      unfold marchStart
      omega
    omega
  have hera : (n + 719468) / 146097 = era := by omega
  have hday : ((n + 719468) % 146097).toNat = marchStart y + d := by omega
  have hyear := yearOfEra_eq hy hd
  have hrest : marchStart y + d - (365 * y + y / 4 - y / 100) = d := by
    unfold marchStart
    omega
  simp only [ofDays, hera, hday, hyear, hrest]
  rfl

theorem exists_ofDays (n : Int) :
    ∃ (era : Int) (y d : Nat), y < 400 ∧ d < marchLength (era * 400 + y) ∧
      n + 719468 = 146097 * era + (marchStart y + d : Nat) := by
  have he : ((n + 719468) % 146097).toNat < 146097 := by omega
  obtain ⟨y, d, hy, hd, hyear⟩ := exists_year ((n + 719468) / 146097) he
  exact ⟨(n + 719468) / 146097, y, d, hy, hd, by omega⟩

end

/-! ## Days -/

theorem valid_ofDays (n : Int) : (ofDays n).Valid := by
  obtain ⟨era, y, d, hy, hd, hn⟩ := exists_ofDays n
  rw [ofDays_eq hy hd hn]
  exact valid_ofMarch hd

/-- Each day has the date that follows that of the day before. -/
theorem ofDays_succ (n : Int) : ofDays (n + 1) = (ofDays n).next := by
  obtain ⟨era, y, d, hy, hd, hn⟩ := exists_ofDays n
  rw [ofDays_eq hy hd hn]
  rcases Nat.lt_or_eq_of_le (Nat.succ_le_of_lt hd) with hlast | hlast
  · rw [next_ofMarch hlast]
    exact ofDays_eq hy hlast (by omega)
  · have hnext := marchStart_add_length era y
    rw [next_ofMarch_last hlast]
    by_cases hend : y = 399
    · -- The era ends with the year.
      subst hend
      have hera : marchStart (399 + 1) = 146097 := rfl
      have hstart : marchStart 0 = 0 := rfl
      have hfirst : (era + 1) * 400 + (0 : Nat) = era * 400 + (399 : Nat) + 1 := by omega
      rw [← hfirst]
      exact ofDays_eq (Nat.zero_lt_succ 399) (marchLength_pos _) (by omega)
    · have hfirst : era * 400 + (y + 1 : Nat) = era * 400 + y + 1 := by omega
      rw [← hfirst]
      exact ofDays_eq (by omega) (marchLength_pos _) (by omega)

def Before (a b : Date) : Prop :=
  a.year < b.year ∨ a.year = b.year ∧ (a.month < b.month ∨ a.month = b.month ∧ a.day < b.day)

theorem Before.trans {a b c : Date} (hab : a.Before b) (hbc : b.Before c) : a.Before c := by
  unfold Before at *
  omega

theorem before_next (d : Date) : d.Before d.next := by
  unfold next
  split_ifs with hday hmonth
  · exact .inr ⟨rfl, .inr ⟨rfl, Nat.lt_succ_self _⟩⟩
  · exact .inr ⟨rfl, .inl (Nat.lt_succ_self _)⟩
  · exact .inl (Int.lt_succ _)

/-- A later day has a later date. -/
theorem before_ofDays {m n : Int} (h : m < n) : (ofDays m).Before (ofDays n) := by
  obtain ⟨k, rfl⟩ : ∃ k : Nat, n = m + k + 1 := ⟨(n - m - 1).toNat, by omega⟩
  induction k with
  | zero =>
    rw [Int.natCast_zero, Int.add_zero, ofDays_succ]
    exact before_next _
  | succ k ih =>
    have hstep : (ofDays (m + k + 1)).Before (ofDays (m + (k + 1 : Nat) + 1)) := by
      rw [ofDays_succ (m + (k + 1 : Nat)), Int.natCast_succ, ← Int.add_assoc]
      exact before_next _
    exact (ih (by omega)).trans hstep

end AgentPrompt.Instant.Date
