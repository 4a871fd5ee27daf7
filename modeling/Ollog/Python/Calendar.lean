import Ollog.Python.Datetime

/-!
# The calendar

Days are counted from January 1 of the year 1.  Each count is the count of one date and each date
has one count: `dayNumber_dateOfDay` is the way there and back, and `dayNumber_inj` says that there
is no other.
-/

set_option autoImplicit false

namespace Ollog

variable {y y' m m' d d' : Nat}

/-- A date of the calendar. -/
structure IsDate (y m d : Nat) : Prop where
  year : 1 ≤ y
  month : 1 ≤ m
  month_le : m ≤ 12
  day : 1 ≤ d
  day_le : d ≤ daysInMonth y m

instance : Decidable (IsDate y m d) :=
  decidable_of_iff (1 ≤ y ∧ 1 ≤ m ∧ m ≤ 12 ∧ 1 ≤ d ∧ d ≤ daysInMonth y m)
    ⟨fun ⟨h₁, h₂, h₃, h₄, h₅⟩ ↦ ⟨h₁, h₂, h₃, h₄, h₅⟩,
      fun ⟨h₁, h₂, h₃, h₄, h₅⟩ ↦ ⟨h₁, h₂, h₃, h₄, h₅⟩⟩

/-! ## Months -/

theorem daysInMonth_le : daysInMonth y m ≤ 31 := by
  unfold daysInMonth
  split
  · split <;> omega
  all_goals omega

theorem le_daysInMonth : 28 ≤ daysInMonth y m := by
  unfold daysInMonth
  split
  · split <;> omega
  all_goals omega

theorem daysBeforeMonth_succ (hm : 1 ≤ m) :
    daysBeforeMonth y (m + 1) = daysBeforeMonth y m + daysInMonth y m := by
  obtain ⟨k, rfl⟩ := Nat.exists_eq_add_of_le' hm
  rfl

/-- The length of a year. -/
theorem daysBeforeMonth_thirteen :
    daysBeforeMonth y 13 = if isLeap y = true then 366 else 365 := by
  simp only [daysBeforeMonth, daysInMonth]
  split <;> rfl

theorem daysBeforeMonth_mono (hm : 1 ≤ m) (h : m ≤ m') :
    daysBeforeMonth y m ≤ daysBeforeMonth y m' := by
  induction h with
  | refl => exact Nat.le_refl _
  | step h ih =>
    rw [daysBeforeMonth_succ (hm.trans h)]
    exact ih.trans (Nat.le_add_right _ _)

/-- A later month begins after the days of an earlier one. -/
theorem daysBeforeMonth_add_le (hm : 1 ≤ m) (h : m < m') :
    daysBeforeMonth y m + daysInMonth y m ≤ daysBeforeMonth y m' := by
  rw [← daysBeforeMonth_succ hm]
  exact daysBeforeMonth_mono (Nat.le_add_left 1 m) h

/-! ## Years -/

/-- The multiples of a number up to the next one. -/
theorem succ_div_eq (k n : Nat) : (k + 1) / n = k / n + if (k + 1) % n = 0 then 1 else 0 := by
  rw [Nat.succ_div]
  simp only [Nat.dvd_iff_mod_eq_zero]

theorem daysBeforeYear_succ (hy : 1 ≤ y) :
    daysBeforeYear (y + 1) = daysBeforeYear y + daysBeforeMonth y 13 := by
  obtain ⟨k, rfl⟩ := Nat.exists_eq_add_of_le' hy
  have h100 : (k + 1) % 100 = 0 → (k + 1) % 4 = 0 := by omega
  have h400 : (k + 1) % 400 = 0 → (k + 1) % 100 = 0 := by omega
  have hcenturies : k / 100 ≤ k / 4 := by omega
  rw [daysBeforeMonth_thirteen, daysBeforeYear, daysBeforeYear, Nat.add_sub_cancel,
    Nat.add_sub_cancel, succ_div_eq k 4, succ_div_eq k 100, succ_div_eq k 400]
  simp only [isLeap, Bool.and_eq_true, Bool.or_eq_true, beq_iff_eq, bne_iff_ne]
  generalize (k + 1) % 4 = r₄ at *
  generalize (k + 1) % 100 = r₁₀₀ at *
  generalize (k + 1) % 400 = r₄₀₀ at *
  generalize k / 4 = q₄ at *
  generalize k / 100 = q₁₀₀ at *
  generalize k / 400 = q₄₀₀ at *
  split <;> split <;> split <;> split <;> omega

theorem daysBeforeYear_mono (hy : 1 ≤ y) (h : y ≤ y') : daysBeforeYear y ≤ daysBeforeYear y' := by
  induction h with
  | refl => exact Nat.le_refl _
  | step h ih =>
    rw [daysBeforeYear_succ (hy.trans h)]
    exact ih.trans (Nat.le_add_right _ _)

/-- The days of a year. -/
theorem dayOfYear_lt (h : IsDate y m d) :
    daysBeforeMonth y m + (d - 1) < daysBeforeMonth y 13 := by
  have hmonth := @daysBeforeMonth_add_le y _ 13 h.month (Nat.lt_succ_of_le h.month_le)
  have hday := h.day_le
  have := h.day
  omega

theorem dayNumber_lt (h : IsDate y m d) : dayNumber y m d < daysBeforeYear (y + 1) := by
  rw [daysBeforeYear_succ h.year, dayNumber]
  have := dayOfYear_lt h
  omega

/-! ## One count for each date -/

theorem year_le_of_dayNumber_le (h' : IsDate y' m' d')
    (hle : dayNumber y m d ≤ dayNumber y' m' d') : y ≤ y' := by
  by_contra hlt
  have hmono := @daysBeforeYear_mono (y' + 1) y (by omega) (by omega)
  have := dayNumber_lt h'
  have hyear : daysBeforeYear y ≤ dayNumber y m d := by
    rw [dayNumber]
    omega
  omega

theorem month_le_of_dayNumber_le (h' : IsDate y m' d')
    (hle : dayNumber y m d ≤ dayNumber y m' d') : m ≤ m' := by
  by_contra hlt
  have hmonth := daysBeforeMonth_add_le (y := y) h'.month (Nat.lt_of_not_le hlt)
  have := h'.day_le
  have := h'.day
  rw [dayNumber, dayNumber] at hle
  omega

/-- **No two dates have the same count.** -/
theorem dayNumber_inj (h : IsDate y m d) (h' : IsDate y' m' d')
    (heq : dayNumber y m d = dayNumber y' m' d') : y = y' ∧ m = m' ∧ d = d' := by
  obtain rfl := Nat.le_antisymm (year_le_of_dayNumber_le h' heq.le)
    (year_le_of_dayNumber_le h heq.ge)
  obtain rfl := Nat.le_antisymm (month_le_of_dayNumber_le h' heq.le)
    (month_le_of_dayNumber_le h heq.ge)
  refine ⟨rfl, rfl, ?_⟩
  have := h.day
  have := h'.day
  rw [dayNumber, dayNumber] at heq
  omega

/-! ## One date for each count -/

/-- Cutting the months off a day of a year. -/
theorem monthOfDay_spec {fuel n : Nat} (hm : 1 ≤ m) (hfuel : m + fuel = 12)
    (hn : daysBeforeMonth y m + n < daysBeforeMonth y 13) :
    1 ≤ (monthOfDay y fuel m n).1 ∧ (monthOfDay y fuel m n).1 ≤ 12 ∧
      1 ≤ (monthOfDay y fuel m n).2 ∧
      (monthOfDay y fuel m n).2 ≤ daysInMonth y (monthOfDay y fuel m n).1 ∧
      daysBeforeMonth y (monthOfDay y fuel m n).1 + ((monthOfDay y fuel m n).2 - 1) =
        daysBeforeMonth y m + n := by
  induction fuel generalizing m n with
  | zero =>
    obtain rfl : m = 12 := hfuel
    rw [daysBeforeMonth_succ (by decide : 1 ≤ 12)] at hn
    simp only [monthOfDay]
    omega
  | succ fuel ih =>
    rw [monthOfDay]
    split
    · dsimp only
      omega
    · have hsucc := daysBeforeMonth_succ (y := y) hm
      have := ih (m := m + 1) (n := n - daysInMonth y m) (by omega) (by omega) (by omega)
      omega

/-- The days before a year, by centuries and leap years. -/
theorem daysBeforeYear_eq {a b c e : Nat} (hb : b ≤ 3) (hc : c ≤ 24) (he : e ≤ 3) :
    daysBeforeYear (a * 400 + 1 + b * 100 + c * 4 + e) =
      a * 146097 + b * 36524 + c * 1461 + e * 365 := by
  have h4 : (a * 400 + b * 100 + c * 4 + e) / 4 = a * 100 + b * 25 + c := by omega
  have h100 : (a * 400 + b * 100 + c * 4 + e) / 100 = a * 4 + b := by omega
  have h400 : (a * 400 + b * 100 + c * 4 + e) / 400 = a := by omega
  have hsub : a * 400 + 1 + b * 100 + c * 4 + e - 1 = a * 400 + b * 100 + c * 4 + e := by omega
  rw [daysBeforeYear, hsub, h4, h100, h400]
  omega

/-- **There and back**: the date of a count has that count. -/
theorem dayNumber_dateOfDay (n : Nat) :
    IsDate (dateOfDay n).1 (dateOfDay n).2.1 (dateOfDay n).2.2 ∧
      dayNumber (dateOfDay n).1 (dateOfDay n).2.1 (dateOfDay n).2.2 = n := by
  unfold dateOfDay
  dsimp only
  set a := n / 146097 with ha
  set b := n % 146097 / 36524 with hb
  set c := n % 146097 % 36524 / 1461 with hc
  set e := n % 146097 % 36524 % 1461 / 365 with he
  set r := n % 146097 % 36524 % 1461 % 365 with hr
  split
  · rename_i hlast
    have hleap : isLeap (a * 400 + 1 + b * 100 + c * 4 + e - 1) = true := by
      simp only [isLeap, Bool.and_eq_true, Bool.or_eq_true, beq_iff_eq, bne_iff_ne]
      omega
    have hdays : daysBeforeMonth (a * 400 + 1 + b * 100 + c * 4 + e - 1) 12 = 335 := by
      simp only [daysBeforeMonth, daysInMonth, hleap, if_true]
    dsimp only
    refine ⟨⟨by omega, by decide, by decide, by decide, Nat.le_refl 31⟩, ?_⟩
    rw [dayNumber, hdays]
    obtain hb4 | ⟨hb3, hc23, he4⟩ : b = 4 ∨ b ≤ 3 ∧ c ≤ 23 ∧ e = 4 := by omega
    · have hy : a * 400 + 1 + b * 100 + c * 4 + e - 1 = a * 400 + 1 + 3 * 100 + 24 * 4 + 3 := by omega
      rw [hy, daysBeforeYear_eq (by decide) (by decide) (by decide)]
      omega
    · have hy : a * 400 + 1 + b * 100 + c * 4 + e - 1 = a * 400 + 1 + b * 100 + c * 4 + 3 := by omega
      rw [hy, daysBeforeYear_eq hb3 (by omega) (by decide)]
      omega
  · rename_i hlast
    have hyear := daysBeforeYear_eq (a := a) (b := b) (c := c) (e := e) (by omega) (by omega)
      (by omega)
    have hlength : daysBeforeMonth (a * 400 + 1 + b * 100 + c * 4 + e) 1 + r <
        daysBeforeMonth (a * 400 + 1 + b * 100 + c * 4 + e) 13 := by
      rw [daysBeforeMonth_thirteen, daysBeforeMonth]
      split <;> omega
    obtain ⟨hm, hm', hd, hd', hcount⟩ := @monthOfDay_spec _ _ 11 _ (Nat.le_refl 1) rfl hlength
    refine ⟨⟨by omega, hm, hm', hd, hd'⟩, ?_⟩
    rw [dayNumber, Nat.add_assoc, hcount, hyear, daysBeforeMonth]
    omega

/-- The date of a count is the one date that has it. -/
theorem dateOfDay_dayNumber (h : IsDate y m d) : dateOfDay (dayNumber y m d) = (y, m, d) := by
  obtain ⟨hdate, hcount⟩ := dayNumber_dateOfDay (dayNumber y m d)
  obtain ⟨hy, hm, hd⟩ := dayNumber_inj hdate h hcount
  exact Prod.ext hy (Prod.ext hm hd)

end Ollog
