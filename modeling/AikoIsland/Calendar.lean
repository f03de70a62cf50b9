import Mathlib.Data.List.Basic
import Mathlib.Tactic

/-!
# The proleptic Gregorian calendar

Days are counted from 1 January of year 1. `civil` finds the date of a day: it takes
whole cycles of 400, 100, 4 and 1 years off, where the last year of a cycle may
have one day more, and then whole months. `toOrdinal` counts back.
-/
namespace AikoIsland.Calendar

def isLeap (y : ℕ) : Bool := y % 4 = 0 && (y % 100 ≠ 0 || y % 400 = 0)

def monthLengths (leap : Bool) : List ℕ :=
  [31, if leap then 29 else 28, 31, 30, 31, 30, 31, 31, 30, 31, 30, 31]

def daysInYear (y : ℕ) : ℕ := if isLeap y then 366 else 365

def daysBeforeYear (y : ℕ) : ℕ := 365 * (y - 1) + (y - 1) / 4 - (y - 1) / 100 + (y - 1) / 400

structure Date where
  year : ℕ
  month : ℕ
  day : ℕ
  deriving DecidableEq, Repr

/-- The month is one of twelve and has that day. -/
def Date.Valid (x : Date) : Prop :=
  1 ≤ x.year ∧ 1 ≤ x.month ∧ 1 ≤ x.day ∧
    ∃ length, (monthLengths (isLeap x.year))[x.month - 1]? = some length ∧ x.day ≤ length

/-- The days before a date, from the first day of year 1. -/
def Date.toOrdinal (x : Date) : ℕ :=
  daysBeforeYear x.year + ((monthLengths (isLeap x.year)).take (x.month - 1)).sum + (x.day - 1)

/-- The year of a day, and the days of the year before it. -/
def yearOf (n : ℕ) : ℕ × ℕ :=
  let n400 := n / 146097
  let r400 := n % 146097
  let n100 := min (r400 / 36524) 3
  let r100 := r400 - 36524 * n100
  let n4 := r100 / 1461
  let r4 := r100 % 1461
  let n1 := min (r4 / 365) 3
  (400 * n400 + 100 * n100 + 4 * n4 + n1 + 1, r4 - 365 * n1)

/-- The part that a number falls into, and how far. -/
def splitParts : List ℕ → ℕ → ℕ × ℕ
  | [], r => (0, r)
  | l :: ls, r =>
      if r < l then (0, r) else ((splitParts ls (r - l)).1 + 1, (splitParts ls (r - l)).2)

def civil (n : ℕ) : Date :=
  let (year, rest) := yearOf n
  let (month, day) := splitParts (monthLengths (isLeap year)) rest
  ⟨year, month + 1, day + 1⟩

theorem sum_monthLengths (y : ℕ) : (monthLengths (isLeap y)).sum = daysInYear y := by
  unfold daysInYear
  cases isLeap y <;> rfl

/-- The year is the one whose days hold the day. -/
theorem yearOf_spec (n : ℕ) :
    1 ≤ (yearOf n).1 ∧ daysBeforeYear (yearOf n).1 + (yearOf n).2 = n ∧
      (yearOf n).2 < daysInYear (yearOf n).1 := by
  unfold yearOf
  dsimp only
  generalize h400 : n / 146097 = a
  generalize hr400 : n % 146097 = r
  have hn : n = 146097 * a + r := by omega
  have hr : r < 146097 := by omega
  generalize h100 : min (r / 36524) 3 = b
  generalize hr100 : r - 36524 * b = s
  have hb : b ≤ 3 ∧ r = 36524 * b + s ∧ s ≤ 36524 ∧ (b < 3 → s < 36524) := by omega
  generalize h4 : s / 1461 = c
  generalize hr4 : s % 1461 = u
  have hc : c ≤ 24 ∧ s = 1461 * c + u ∧ u < 1461 := by omega
  generalize h1 : min (u / 365) 3 = d
  generalize hr1 : u - 365 * d = rest
  have hd : d ≤ 3 ∧ u = 365 * d + rest ∧ rest ≤ 365 ∧ (d < 3 → rest < 365) := by omega
  have hdays : daysBeforeYear (400 * a + 100 * b + 4 * c + d + 1) =
      146097 * a + 36524 * b + 1461 * c + 365 * d := by
    have hyears : 400 * a + 100 * b + 4 * c + d + 1 - 1 = 400 * a + 100 * b + 4 * c + d := by omega
    have hfour : (400 * a + 100 * b + 4 * c + d) / 4 = 100 * a + 25 * b + c := by omega
    have hcentury : (400 * a + 100 * b + 4 * c + d) / 100 = 4 * a + b := by omega
    have hcycle : (400 * a + 100 * b + 4 * c + d) / 400 = a := by omega
    rw [daysBeforeYear, hyears, hfour, hcentury, hcycle]
    omega
  constructor
  · omega
  constructor
  · rw [hdays]
    omega
  · unfold daysInYear
    -- A last day that the common years lack needs the last year of a cycle.
    by_cases hlast : rest = 365
    · have hleap : isLeap (400 * a + 100 * b + 4 * c + d + 1) = true := by
        unfold isLeap
        simp only [ne_eq, Bool.and_eq_true, Bool.or_eq_true, decide_eq_true_eq]
        omega
      rw [if_pos hleap]
      omega
    · split_ifs <;> omega

theorem splitParts_spec {ls : List ℕ} {r : ℕ} (h : r < ls.sum) :
    (∃ l, ls[(splitParts ls r).1]? = some l ∧ (splitParts ls r).2 < l) ∧
      (ls.take (splitParts ls r).1).sum + (splitParts ls r).2 = r := by
  induction ls generalizing r with
  | nil => simp at h
  | cons l ls ih =>
      unfold splitParts
      split_ifs with hfirst
      · exact ⟨⟨l, rfl, hfirst⟩, by simp⟩
      · rw [List.sum_cons] at h
        obtain ⟨hpart, hsum⟩ := ih (r := r - l) (by omega)
        constructor
        · rw [List.getElem?_cons_succ]
          exact hpart
        · rw [List.take_succ_cons, List.sum_cons]
          omega

/-- The date of a day is a date, and it is the date of that day. -/
theorem civil_spec (n : ℕ) : (civil n).Valid ∧ (civil n).toOrdinal = n := by
  obtain ⟨hyear, hsum, hrest⟩ := yearOf_spec n
  have hrest' : (yearOf n).2 < (monthLengths (isLeap (yearOf n).1)).sum := by
    rw [sum_monthLengths]
    exact hrest
  have hparts := splitParts_spec hrest'
  obtain ⟨⟨length, hlength, hday⟩, hmonths⟩ := hparts
  unfold civil Date.Valid Date.toOrdinal
  dsimp only
  constructor
  · refine ⟨hyear, by omega, by omega, length, ?_, by omega⟩
    rw [Nat.add_sub_cancel]
    exact hlength
  · rw [Nat.add_sub_cancel, Nat.add_sub_cancel, add_assoc, hmonths, hsum]

/-! ## The order of dates -/

/-- By the year, then the month, then the day. -/
def Date.Before (x y : Date) : Prop :=
  x.year < y.year ∨ x.year = y.year ∧ (x.month < y.month ∨ x.month = y.month ∧ x.day < y.day)

instance (x : Date) : Decidable x.Valid :=
  decidable_of_iff (1 ≤ x.year ∧ 1 ≤ x.month ∧ 1 ≤ x.day ∧
    x.day ≤ ((monthLengths (isLeap x.year))[x.month - 1]?).getD 0) (by
      unfold Date.Valid
      cases (monthLengths (isLeap x.year))[x.month - 1]? with
      | none => simp; omega
      | some l => simp)

theorem daysBeforeYear_succ {y : ℕ} (hy : 1 ≤ y) :
    daysBeforeYear (y + 1) = daysBeforeYear y + daysInYear y := by
  obtain ⟨n, rfl⟩ : ∃ n, y = n + 1 := ⟨y - 1, by omega⟩
  have hbound : n / 100 ≤ n / 4 := Nat.div_le_div_left (by decide) (by decide)
  have hcentury : 400 ∣ n + 1 → 100 ∣ n + 1 := Dvd.dvd.trans (by decide)
  have hfour : 100 ∣ n + 1 → 4 ∣ n + 1 := Dvd.dvd.trans (by decide)
  have hleap : isLeap (n + 1) = true ↔ 4 ∣ n + 1 ∧ (¬100 ∣ n + 1 ∨ 400 ∣ n + 1) := by
    simp [isLeap, Nat.dvd_iff_mod_eq_zero]
  rw [daysBeforeYear, daysBeforeYear, daysInYear, Nat.add_sub_cancel, Nat.add_sub_cancel,
    Nat.succ_div, Nat.succ_div, Nat.succ_div]
  simp only [hleap]
  by_cases h4 : 4 ∣ n + 1
  · by_cases h100 : 100 ∣ n + 1
    · by_cases h400 : 400 ∣ n + 1
      · simp only [h4, h100, h400, if_true, not_true, or_true, and_true]
        omega
      · simp only [h4, h100, h400, if_true, if_false, not_true, or_false, and_false]
        omega
    · simp only [h4, h100, mt hcentury h100, if_true, if_false, not_false_iff, true_or, and_true]
      omega
  · simp only [h4, mt hfour h4, mt hcentury (mt hfour h4), if_false, false_and]
    omega

theorem daysBeforeYear_mono {y y' : ℕ} (hy : 1 ≤ y) (hle : y ≤ y') :
    daysBeforeYear y ≤ daysBeforeYear y' := by
  induction y', hle using Nat.le_induction with
  | base => exact le_rfl
  | succ n hn ih =>
      rw [daysBeforeYear_succ (hy.trans hn)]
      omega

theorem sum_take_mono (ls : List ℕ) {i j : ℕ} (hij : i ≤ j) : (ls.take i).sum ≤ (ls.take j).sum := by
  have hsplit := List.take_append_drop i (ls.take j)
  rw [List.take_take, min_eq_left hij] at hsplit
  rw [← hsplit, List.sum_append]
  omega

namespace Date.Valid
variable {x y : Date}

/-- The day is one of its month. -/
theorem day_le (h : x.Valid) :
    ((monthLengths (isLeap x.year)).take (x.month - 1)).sum + (x.day - 1) <
      ((monthLengths (isLeap x.year)).take x.month).sum := by
  obtain ⟨_, hmonth, hday, length, hlength, hle⟩ := h
  obtain ⟨hin, hget⟩ := List.getElem?_eq_some_iff.mp hlength
  have htake := List.sum_take_succ (monthLengths (isLeap x.year)) (x.month - 1) hin
  rw [Nat.sub_add_cancel hmonth, hget] at htake
  omega

theorem toOrdinal_lt (h : x.Valid) : x.toOrdinal < daysBeforeYear (x.year + 1) := by
  have hday := h.day_le
  have hsum : ((monthLengths (isLeap x.year)).take x.month).sum ≤ daysInYear x.year := by
    rw [← sum_monthLengths]
    conv_rhs => rw [← List.take_append_drop x.month (monthLengths (isLeap x.year))]
    rw [List.sum_append]
    omega
  rw [daysBeforeYear_succ h.1, Date.toOrdinal]
  omega

theorem toOrdinal_lt_of_before (hx : x.Valid) (h : x.Before y) :
    x.toOrdinal < y.toOrdinal := by
  rcases h with hyear | ⟨hyear, hmonth | ⟨hmonth, hday⟩⟩
  · have hmono := daysBeforeYear_mono (Nat.le_add_left 1 x.year) hyear
    have hlow : daysBeforeYear y.year ≤ y.toOrdinal := by
      rw [Date.toOrdinal]
      omega
    exact hx.toOrdinal_lt.trans_le (hmono.trans hlow)
  · have hin := hx.day_le
    have hmonths := sum_take_mono (monthLengths (isLeap y.year)) (Nat.le_sub_one_of_lt hmonth)
    rw [Date.toOrdinal, Date.toOrdinal]
    rw [hyear] at hin ⊢
    omega
  · have hpos := hx.2.2.1
    rw [Date.toOrdinal, Date.toOrdinal, hyear, hmonth]
    omega

/-- Dates compare as their days do. -/
theorem toOrdinal_lt_iff (hx : x.Valid) (hy : y.Valid) : x.toOrdinal < y.toOrdinal ↔ x.Before y := by
  constructor
  · intro hlt
    by_contra hnot
    by_cases hback : y.Before x
    · exact absurd (toOrdinal_lt_of_before hy hback) (not_lt.mpr hlt.le)
    · have hsame : x = y := by
        unfold Date.Before at hnot hback
        obtain ⟨year, month, day⟩ := x
        obtain ⟨year', month', day'⟩ := y
        simp only at hnot hback
        simp only [Date.mk.injEq]
        omega
      rw [hsame] at hlt
      exact absurd hlt (lt_irrefl _)
  · exact toOrdinal_lt_of_before hx

end Date.Valid

theorem civil_year_le {n y : ℕ} (hn : n < daysBeforeYear (y + 1)) : (civil n).year ≤ y := by
  obtain ⟨hvalid, hordinal⟩ := civil_spec n
  by_contra hlt
  have hmono := daysBeforeYear_mono (Nat.le_add_left 1 y) (not_le.mp hlt)
  have hlow : daysBeforeYear (civil n).year ≤ (civil n).toOrdinal := by
    rw [Date.toOrdinal]
    omega
  omega

example : civil 719162 = ⟨1970, 1, 1⟩ := by decide

end AikoIsland.Calendar
