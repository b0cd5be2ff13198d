import HeaterLink.Calendar
import Mathlib

/-!
# Weekdays

The number of a day grows by one from each date to the next: within a month, to
the first of the next month, and to the first of January, where the leap years
are counted. So the weekday goes round from Monday to Sunday through the whole
calendar, and one known Monday fixes it.
-/

set_option autoImplicit false

namespace HeaterLink.Date

variable {d : Date} {y : Int} {month : Nat}

def next (d : Date) : Date :=
  if d.day < daysInMonth d.year d.month then { d with day := d.day + 1 }
  else if d.month < 12 then ⟨d.year, d.month + 1, 1⟩
  else ⟨d.year + 1, 1, 1⟩

theorem valid_iff : d.valid ↔ firstYear ≤ d.year ∧ d.year ≤ lastYear ∧
    1 ≤ d.month ∧ d.month ≤ 12 ∧ 1 ≤ d.day ∧ d.day ≤ daysInMonth d.year d.month := by
  simp only [valid, Bool.and_eq_true, decide_eq_true_eq]
  tauto

theorem daysBefore_succ (h : 1 ≤ month) :
    daysBefore y (month + 1) = daysBefore y month + daysInMonth y month := by
  obtain ⟨m, rfl⟩ : ∃ m, month = m + 1 := ⟨month - 1, by omega⟩
  simp only [daysBefore, Nat.add_sub_cancel, List.range_succ, List.foldl_append, List.foldl_cons,
    List.foldl_nil]

/-- A year is as long as its months. -/
theorem daysBeforeYear_succ :
    daysBeforeYear (y + 1) = daysBeforeYear y + daysBefore y 12 + daysInMonth y 12 := by
  have hleap : isLeapYear y = true ↔ y % 4 = 0 ∧ y % 100 ≠ 0 ∨ y % 400 = 0 := by
    simp [isLeapYear]
  have hmonths : daysBefore y 12 = 306 + daysInMonth y 2 := by
    show 0 + 31 + daysInMonth y 2 + 31 + 30 + 31 + 30 + 31 + 31 + 30 + 31 + 30 = _
    omega
  rw [hmonths, daysBeforeYear, add_sub_cancel_right]
  show 365 * y + y / 4 - y / 100 + y / 400 =
    365 * (y - 1) + (y - 1) / 4 - (y - 1) / 100 + (y - 1) / 400 +
      ((306 + if isLeapYear y then 29 else 28 : Nat) : Int) + 31
  simp only [hleap]
  split <;> omega

theorem number_next (h : d.valid) : d.next.number = d.number + 1 := by
  obtain ⟨-, -, hfirst, hlast, -, hday⟩ := valid_iff.mp h
  unfold next
  split
  · simp only [number]
    omega
  · have hend : d.day = daysInMonth d.year d.month := by omega
    split
    · simp only [number, daysBefore_succ hfirst]
      omega
    · have hdecember : d.month = 12 := by omega
      rw [hdecember] at hend
      simp only [number, daysBeforeYear_succ, hdecember, hend]
      show _ + ((0 : Nat) : Int) + 1 = _
      omega

def prev (d : Date) : Date :=
  if 1 < d.day then { d with day := d.day - 1 }
  else if 1 < d.month then ⟨d.year, d.month - 1, daysInMonth d.year (d.month - 1)⟩
  else ⟨d.year - 1, 12, 31⟩

theorem daysInMonth_pos (y : Int) (month : Nat) : 1 ≤ daysInMonth y month := by
  unfold daysInMonth
  split <;> (try split) <;> omega

theorem daysInMonth_le (y : Int) (month : Nat) : daysInMonth y month ≤ 31 := by
  unfold daysInMonth
  split <;> (try split) <;> omega

theorem next_prev (h : d.valid) : d.prev.next = d := by
  obtain ⟨-, -, hfirst, hlast, hday, hlong⟩ := valid_iff.mp h
  obtain ⟨y, month, day⟩ := d
  simp only at hfirst hlast hday hlong
  by_cases inner : 1 < day
  · rw [prev, if_pos inner, next, if_pos (by simp only; omega)]
    simp only [mk.injEq, true_and]
    omega
  · obtain rfl : day = 1 := by omega
    by_cases later : 1 < month
    · rw [prev, if_neg inner, if_pos later, next, if_neg (by simp), if_pos (by simp only; omega)]
      simp only [mk.injEq, true_and, and_true]
      omega
    · obtain rfl : month = 1 := by omega
      rw [prev, if_neg inner, if_neg later, next, if_neg (by simp [daysInMonth]), if_neg (by simp)]
      simp

def late (d : Date) : Nat := (d.year - firstYear).toNat * 372 + d.month * 31 + d.day

theorem prev_valid (h : d.valid) (later : d ≠ ⟨firstYear, 1, 1⟩) :
    d.prev.valid ∧ d.prev.late < d.late := by
  obtain ⟨hleast, hmost, hfirst, hlast, hday, hlong⟩ := valid_iff.mp h
  obtain ⟨y, month, day⟩ := d
  simp only at hleast hmost hfirst hlast hday hlong
  rw [valid_iff]
  by_cases inner : 1 < day
  · rw [prev, if_pos inner]
    simp only [late]
    omega
  · obtain rfl : day = 1 := by omega
    by_cases hmonth : 1 < month
    · have hpos := daysInMonth_pos y (month - 1)
      have hle := daysInMonth_le y (month - 1)
      rw [prev, if_neg inner, if_pos hmonth]
      simp only [late]
      omega
    · obtain rfl : month = 1 := by omega
      have hyear : y ≠ firstYear := fun e => later (by rw [e])
      have hdecember : daysInMonth (y - 1) 12 = 31 := rfl
      rw [prev, if_neg inner, if_neg hmonth]
      simp only [late]
      omega

theorem weekday_bounds (d : Date) : 1 ≤ d.weekday ∧ d.weekday ≤ 7 := by
  unfold weekday
  omega

theorem weekday_next (h : d.valid) : d.next.weekday = d.weekday % 7 + 1 := by
  unfold weekday
  rw [number_next h]
  omega

/-- Whatever goes round from a Monday as the weekdays do is the weekday. -/
theorem weekday_unique {w : Date → Nat} (bounds : ∀ d : Date, d.valid → 1 ≤ w d ∧ w d ≤ 7)
    (goesRound : ∀ d : Date, d.valid → w d.next = w d % 7 + 1) {monday : Date}
    (known : monday.valid) (h : w monday = monday.weekday) (hd : d.valid) :
    w d = d.weekday := by
  -- a date agrees exactly if the day before it does, so all agree if the first one does
  have hfirst : ∀ n, ∀ d : Date, d.late = n → d.valid →
      (w d = d.weekday ↔ w ⟨firstYear, 1, 1⟩ = (⟨firstYear, 1, 1⟩ : Date).weekday) := by
    intro n
    induction n using Nat.strong_induction_on with
    | _ n ih =>
      rintro d rfl hd
      by_cases first : d = ⟨firstYear, 1, 1⟩
      · rw [first]
      · obtain ⟨hvalid, hearlier⟩ := prev_valid hd first
        rw [← ih _ hearlier d.prev rfl hvalid]
        have hw := goesRound d.prev hvalid
        have hweekday := weekday_next hvalid
        have hbounds := bounds d.prev hvalid
        have hbounds' := d.prev.weekday_bounds
        rw [next_prev hd] at hw hweekday
        omega
  exact (hfirst _ d rfl hd).mpr ((hfirst _ monday rfl known).mp h)

end HeaterLink.Date
