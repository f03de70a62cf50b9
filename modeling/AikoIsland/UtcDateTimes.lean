import AikoIsland.Calendar
import AikoIsland.FixedWidth
import Mathlib.Data.String.Basic
import Mathlib.Data.Char

/-!
# `UtcDateTime` columns

A bound value must be aware: its wall clock is moved to UTC and stored without the
zone, as a text of fixed width. So texts compare as the instants do, and the value
that is loaded is the same instant with the zone UTC.

A wall clock has a year from 1 to 9999, and what leaves this range raises. Instants
count microseconds from the beginning of year 1.
-/
namespace AikoIsland.UtcDateTimes
open Calendar FixedWidth

/-! ## Datetimes -/

/-- A `datetime` without its zone. -/
structure WallClock where
  date : Date
  hour : ℕ
  minute : ℕ
  second : ℕ
  microsecond : ℕ
  valid : date.Valid
  year_le : date.year ≤ 9999
  hour_lt : hour < 24
  minute_lt : minute < 60
  second_lt : second < 60
  microsecond_lt : microsecond < 1000000
  deriving DecidableEq

/-- An offset lies strictly between minus one day and one day. -/
structure UtcOffset where
  micros : ℤ
  above : -86400000000 < micros
  below : micros < 86400000000
  deriving DecidableEq

def utc : UtcOffset := ⟨0, by decide, by decide⟩

/-- `tzinfo`, by what its `utcoffset` gives for the value. -/
inductive Zone where
  | absent
  | offsetless
  | offset (o : UtcOffset)
  deriving DecidableEq

structure Datetime where
  wall : WallClock
  zone : Zone
  deriving DecidableEq

namespace WallClock

def timeOfDay (w : WallClock) : ℕ :=
  ((w.hour * 60 + w.minute) * 60 + w.second) * 1000000 + w.microsecond

def micros (w : WallClock) : ℕ := w.date.toOrdinal * 86400000000 + w.timeOfDay

end WallClock

def maxMicros : ℕ := daysBeforeYear 10000 * 86400000000

def WallClock.ofMicros (n : ℕ) (h : n < maxMicros) : WallClock where
  date := civil (n / 86400000000)
  hour := n % 86400000000 / 3600000000
  minute := n % 3600000000 / 60000000
  second := n % 60000000 / 1000000
  microsecond := n % 1000000
  valid := (civil_spec _).1
  year_le := civil_year_le ((Nat.div_lt_iff_lt_mul (by decide)).mpr h)
  hour_lt := by omega
  minute_lt := by omega
  second_lt := by omega
  microsecond_lt := by omega

/-- `datetime - timedelta`; `none` is the `OverflowError`. -/
def WallClock.sub (w : WallClock) (o : UtcOffset) : Option WallClock :=
  let n : ℤ := w.micros - o.micros
  if h : 0 ≤ n ∧ n < maxMicros then some (.ofMicros n.toNat (by omega)) else none

/-! ## The column -/

inductive ColumnError where
  | naiveDatetimeRejected (message : String)
  | overflowError
  | valueError
  deriving DecidableEq

/-- What reaches a column or a comparison. -/
inductive Param where
  | null
  | other (typeName : String)
  | datetime (value : Datetime)

def processBindParam : Param → Except ColumnError (Option WallClock)
  | .null => .ok none
  | .other typeName => .error (.naiveDatetimeRejected ("a " ++ typeName ++
      " reached a UtcDateTime column or comparison; this type takes timezone-aware datetimes " ++
      "only (models._utcnow(), or datetime.now(timezone.utc))"))
  | .datetime value =>
      match value.zone with
      | .absent | .offsetless => .error (.naiveDatetimeRejected
          ("a naive datetime reached a UtcDateTime column; construct it aware " ++
            "(models._utcnow(), or datetime.now(timezone.utc)) — storing it would record " ++
            "wall-clock digits whose zone is a guess"))
      | .offset o =>
          match value.wall.sub o with
          | none => .error .overflowError
          | some w => .ok (some w)

/-- A driver gives a value with an offset, or naive as SQLite does. -/
def processResultValue : Option (WallClock × Option UtcOffset) → Except ColumnError (Option Datetime)
  | none => .ok none
  | some (w, none) => .ok (some ⟨w, .offset utc⟩)
  | some (w, some o) =>
      match w.sub o with
      | none => .error .overflowError
      | some w => .ok (some ⟨w, .offset utc⟩)

/-! ## The stored text -/

def digit (n : ℕ) : Char := Char.ofNat (48 + n)

def stamp (w : WallClock) : List Char :=
  numeral digit 10 w.date.year 4 ++ '-' :: (numeral digit 10 w.date.month 2 ++ '-' ::
    (numeral digit 10 w.date.day 2 ++ ' ' :: (numeral digit 10 w.hour 2 ++ ':' ::
      (numeral digit 10 w.minute 2 ++ ':' :: (numeral digit 10 w.second 2 ++ '.' ::
        numeral digit 10 w.microsecond 6)))))

/-- `YYYY-MM-DD HH:MM:SS.ffffff`. -/
def text (w : WallClock) : String := String.ofList (stamp w)

/-- The number in `len` characters from `start` on. -/
def field (s : String) (start len : ℕ) : ℕ :=
  ((s.toList.drop start).take len).foldl (fun n c => 10 * n + (c.toNat - 48)) 0

/-- The wall clock that a text shows. -/
def readText (s : String) : Option WallClock :=
  let date : Date := ⟨field s 0 4, field s 5 2, field s 8 2⟩
  if h : date.Valid ∧ date.year ≤ 9999 ∧ field s 11 2 < 24 ∧ field s 14 2 < 60 ∧
      field s 17 2 < 60 ∧ field s 20 6 < 1000000 then
    let w : WallClock := ⟨date, field s 11 2, field s 14 2, field s 17 2, field s 20 6, h.1, h.2.1,
      h.2.2.1, h.2.2.2.1, h.2.2.2.2.1, h.2.2.2.2.2⟩
    if text w = s then some w else none
  else none

def store (p : Param) : Except ColumnError (Option String) :=
  (processBindParam p).map fun value => value.map text

def load : Option String → Except ColumnError (Option Datetime)
  | none => processResultValue none
  | some s =>
      match readText s with
      | none => .error .valueError
      | some w => processResultValue (some (w, none))

/-! ## Microseconds -/

section
variable {w w' : WallClock}

theorem timeOfDay_lt (w : WallClock) : w.timeOfDay < 86400000000 := by
  have hhour := w.hour_lt
  have hminute := w.minute_lt
  have hsecond := w.second_lt
  have hmicro := w.microsecond_lt
  rw [WallClock.timeOfDay]
  omega

theorem timeOfDay_lt_iff : w.timeOfDay < w'.timeOfDay ↔
    w.hour < w'.hour ∨ w.hour = w'.hour ∧ (w.minute < w'.minute ∨ w.minute = w'.minute ∧
      (w.second < w'.second ∨ w.second = w'.second ∧ w.microsecond < w'.microsecond)) := by
  have hminute := w.minute_lt
  have hsecond := w.second_lt
  have hmicro := w.microsecond_lt
  have hminute' := w'.minute_lt
  have hsecond' := w'.second_lt
  have hmicro' := w'.microsecond_lt
  rw [WallClock.timeOfDay, WallClock.timeOfDay]
  omega

theorem micros_lt_iff : w.micros < w'.micros ↔
    w.date.toOrdinal < w'.date.toOrdinal ∨
      w.date.toOrdinal = w'.date.toOrdinal ∧ w.timeOfDay < w'.timeOfDay := by
  have hday := timeOfDay_lt w
  have hday' := timeOfDay_lt w'
  rw [WallClock.micros, WallClock.micros]
  omega

theorem date_eq_of_toOrdinal_eq {x y : Date} (hx : x.Valid) (hy : y.Valid)
    (h : x.toOrdinal = y.toOrdinal) : x = y := by
  have hnot : ¬ x.Before y := fun hb => absurd ((hx.toOrdinal_lt_iff hy).mpr hb) h.not_lt
  have hnot' : ¬ y.Before x := fun hb => absurd ((hy.toOrdinal_lt_iff hx).mpr hb) h.not_gt
  unfold Date.Before at hnot hnot'
  obtain ⟨year, month, day⟩ := x
  obtain ⟨year', month', day'⟩ := y
  simp only at hnot hnot'
  simp only [Date.mk.injEq]
  omega

theorem micros_ofMicros {n : ℕ} (h : n < maxMicros) : (WallClock.ofMicros n h).micros = n := by
  have hday := (civil_spec (n / 86400000000)).2
  simp only [WallClock.micros, WallClock.timeOfDay, WallClock.ofMicros, hday]
  omega

/-- A wall clock that is moved to UTC shows the instant. -/
theorem sub_eq_some {o : UtcOffset} (h : 0 ≤ (w.micros : ℤ) - o.micros ∧
    (w.micros : ℤ) - o.micros < maxMicros) :
    ∃ u, w.sub o = some u ∧ (u.micros : ℤ) = w.micros - o.micros := by
  unfold WallClock.sub
  rw [dif_pos h]
  have hlt : ((w.micros : ℤ) - o.micros).toNat < maxMicros := by omega
  use .ofMicros _ hlt
  constructor
  · rfl
  · rw [micros_ofMicros hlt]
    omega

/-! ## Texts -/

theorem digit_ascends : StrictMonoOn digit (Set.Iio 10) := by
  have hall : ∀ i < 10, ∀ j < 10, i < j → digit i < digit j := by decide
  exact fun i hi j hj hij => hall i hi j hj hij

theorem Date.Valid.bounds {x : Date} (h : x.Valid) : x.month < 10 ^ 2 ∧ x.day < 10 ^ 2 := by
  obtain ⟨_, hmonth, _, length, hlength, hle⟩ := h
  have hin := (List.getElem?_eq_some_iff.mp hlength).1
  have hmem := List.mem_of_getElem? hlength
  have hshort : ∀ leap, ∀ l ∈ monthLengths leap, l ≤ 31 := by decide
  have hcount : (monthLengths (isLeap x.year)).length = 12 := rfl
  have hl := hshort _ length hmem
  omega

/-- The fields of the date first, then the rest. -/
theorem lex_date_iff {x y : Date} {rest : Prop} :
    (x.year < y.year ∨ x.year = y.year ∧ (x.month < y.month ∨ x.month = y.month ∧
      (x.day < y.day ∨ x.day = y.day ∧ rest))) ↔ x.Before y ∨ x = y ∧ rest := by
  have hfields : x = y ↔ x.year = y.year ∧ x.month = y.month ∧ x.day = y.day := by
    cases x
    cases y
    simp
  rw [hfields]
  unfold Date.Before
  constructor
  · rintro (hyear | ⟨hyear, hmonth | ⟨hmonth, hday | ⟨hday, h⟩⟩⟩)
    · exact Or.inl (Or.inl hyear)
    · exact Or.inl (Or.inr ⟨hyear, Or.inl hmonth⟩)
    · exact Or.inl (Or.inr ⟨hyear, Or.inr ⟨hmonth, hday⟩⟩)
    · exact Or.inr ⟨⟨hyear, hmonth, hday⟩, h⟩
  · rintro ((hyear | ⟨hyear, hmonth | ⟨hmonth, hday⟩⟩) | ⟨⟨hyear, hmonth, hday⟩, h⟩)
    · exact Or.inl hyear
    · exact Or.inr ⟨hyear, Or.inl hmonth⟩
    · exact Or.inr ⟨hyear, Or.inr ⟨hmonth, Or.inl hday⟩⟩
    · exact Or.inr ⟨hyear, Or.inr ⟨hmonth, Or.inr ⟨hday, h⟩⟩⟩

theorem stamp_lt_iff (w w' : WallClock) : stamp w < stamp w' ↔
    w.date.Before w'.date ∨ w.date = w'.date ∧ w.timeOfDay < w'.timeOfDay := by
  have hd := Date.Valid.bounds w.valid
  have hd' := Date.Valid.bounds w'.valid
  have hy : w.date.year < 10 ^ 4 := Nat.lt_succ_of_le w.year_le
  have hy' : w'.date.year < 10 ^ 4 := Nat.lt_succ_of_le w'.year_le
  have hh : w.hour < 10 ^ 2 := w.hour_lt.trans (by norm_num)
  have hh' : w'.hour < 10 ^ 2 := w'.hour_lt.trans (by norm_num)
  have hm : w.minute < 10 ^ 2 := w.minute_lt.trans (by norm_num)
  have hm' : w'.minute < 10 ^ 2 := w'.minute_lt.trans (by norm_num)
  have hs : w.second < 10 ^ 2 := w.second_lt.trans (by norm_num)
  have hs' : w'.second < 10 ^ 2 := w'.second_lt.trans (by norm_num)
  have hu : w.microsecond < 10 ^ 6 := w.microsecond_lt
  have hu' : w'.microsecond < 10 ^ 6 := w'.microsecond_lt
  rw [stamp, stamp, numeral_sep_lt_iff digit_ascends hy hy',
    numeral_sep_lt_iff digit_ascends hd.1 hd'.1, numeral_sep_lt_iff digit_ascends hd.2 hd'.2,
    numeral_sep_lt_iff digit_ascends hh hh', numeral_sep_lt_iff digit_ascends hm hm',
    numeral_sep_lt_iff digit_ascends hs hs', numeral_lt_iff digit_ascends hu hu',
    ← timeOfDay_lt_iff, lex_date_iff]

/-- Texts compare as the wall clocks do. -/
theorem text_lt_iff (w w' : WallClock) : text w < text w' ↔ w.micros < w'.micros := by
  have hsame : w.date.toOrdinal = w'.date.toOrdinal ↔ w.date = w'.date :=
    ⟨date_eq_of_toOrdinal_eq w.valid w'.valid, fun h => h ▸ rfl⟩
  rw [text, text, String.lt_iff_toList_lt, String.toList_ofList, String.toList_ofList,
    stamp_lt_iff, micros_lt_iff, w.valid.toOrdinal_lt_iff w'.valid, hsame]

theorem digit_toNat {n : ℕ} (h : n < 10) : (digit n).toNat - 48 = n := by
  have hall : ∀ i : Fin 10, (digit i).toNat - 48 = i.val := by decide
  exact hall ⟨n, h⟩

/-- A numeral is read as the number that it holds. -/
theorem foldl_numeral {v n : ℕ} (h : v < 10 ^ n) :
    (numeral digit 10 v n).foldl (fun n c => 10 * n + (c.toNat - 48)) 0 = v := by
  induction n generalizing v with
  | zero =>
      rw [pow_zero, Nat.lt_one_iff] at h
      rw [h]
      rfl
  | succ n ih =>
      have hdiv : v / 10 < 10 ^ n := by
        rw [Nat.div_lt_iff_lt_mul (by decide)]
        rw [pow_succ] at h
        exact h
      rw [numeral, List.foldl_append, ih hdiv, List.foldl_cons, List.foldl_nil,
        digit_toNat (Nat.mod_lt v (by decide))]
      omega

theorem fields_text (w : WallClock) :
    field (text w) 0 4 = w.date.year ∧ field (text w) 5 2 = w.date.month ∧
      field (text w) 8 2 = w.date.day ∧ field (text w) 11 2 = w.hour ∧
      field (text w) 14 2 = w.minute ∧ field (text w) 17 2 = w.second ∧
      field (text w) 20 6 = w.microsecond := by
  have hd := Date.Valid.bounds w.valid
  have hy := w.year_le
  have hh := w.hour_lt
  have hm := w.minute_lt
  have hs := w.second_lt
  simp only [field, text, String.toList_ofList]
  constructor
  · exact foldl_numeral (v := w.date.year) (n := 4) (by omega)
  constructor
  · exact foldl_numeral hd.1
  constructor
  · exact foldl_numeral hd.2
  constructor
  · exact foldl_numeral (v := w.hour) (n := 2) (by omega)
  constructor
  · exact foldl_numeral (v := w.minute) (n := 2) (by omega)
  constructor
  · exact foldl_numeral (v := w.second) (n := 2) (by omega)
  · exact foldl_numeral (v := w.microsecond) (n := 6) w.microsecond_lt

/-- A stored text is read back exactly. -/
theorem readText_text (w : WallClock) : readText (text w) = some w := by
  obtain ⟨hyear, hmonth, hday, hhour, hminute, hsecond, hmicro⟩ := fields_text w
  unfold readText
  simp only [hyear, hmonth, hday, hhour, hminute, hsecond, hmicro]
  rw [dif_pos ⟨w.valid, w.year_le, w.hour_lt, w.minute_lt, w.second_lt, w.microsecond_lt⟩]
  exact if_pos trivial

end

/-! ## Stored instants -/

/-- An aware datetime. -/
structure Aware where
  wall : WallClock
  offset : UtcOffset

namespace Aware

def datetime (a : Aware) : Datetime := ⟨a.wall, .offset a.offset⟩

def instant (a : Aware) : ℤ := a.wall.micros - a.offset.micros

/-- The instant has a year from 1 to 9999 in UTC. -/
def InRange (a : Aware) : Prop := 0 ≤ a.instant ∧ a.instant < maxMicros

/-- What is stored for an aware value shows its instant in UTC. -/
theorem store_eq {a : Aware} (h : a.InRange) :
    ∃ u : WallClock, store (.datetime a.datetime) = .ok (some (text u)) ∧
      (u.micros : ℤ) = a.instant := by
  obtain ⟨u, hsub, hmicros⟩ := sub_eq_some (w := a.wall) (o := a.offset) h
  use u
  constructor
  · simp only [store, processBindParam, datetime, hsub]
    rfl
  · exact hmicros

end Aware

/-- For aware values of any offsets, storing and loading gives an aware UTC value of the same
instant, and the stored texts compare as the instants do; a naive value is refused. -/
theorem stored_instants {a b : Aware} (ha : a.InRange) (hb : b.InRange) :
    (∃ s t, store (.datetime a.datetime) = .ok (some s) ∧
      store (.datetime b.datetime) = .ok (some t) ∧
      (∃ c : Aware, load (some s) = .ok (some c.datetime) ∧ c.offset = utc ∧
        c.instant = a.instant) ∧
      (s < t ↔ a.instant < b.instant) ∧ (s = t ↔ a.instant = b.instant)) ∧
    ∀ w zone, zone = .absent ∨ zone = .offsetless →
      ∃ message, store (.datetime ⟨w, zone⟩) = .error (.naiveDatetimeRejected message) := by
  constructor
  · obtain ⟨u, hstore, hu⟩ := Aware.store_eq ha
    obtain ⟨v, hstore', hv⟩ := Aware.store_eq hb
    have hlt : text u < text v ↔ a.instant < b.instant := by
      rw [text_lt_iff]
      omega
    have hgt : text v < text u ↔ b.instant < a.instant := by
      rw [text_lt_iff]
      omega
    use text u, text v
    constructor
    · exact hstore
    constructor
    · exact hstore'
    constructor
    · use ⟨u, utc⟩
      constructor
      · simp only [load, readText_text]
        rfl
      constructor
      · rfl
      · rw [Aware.instant, ← hu]
        simp [utc]
    constructor
    · exact hlt
    · constructor
      · intro hsame
        have hnot : ¬ text u < text v := by rw [hsame]; exact lt_irrefl _
        have hnot' : ¬ text v < text u := by rw [hsame]; exact lt_irrefl _
        rw [hlt] at hnot
        rw [hgt] at hnot'
        omega
      · intro hsame
        apply le_antisymm
        · rw [← not_lt, hgt]
          omega
        · rw [← not_lt, hlt]
          omega
  · intro w zone hzone
    cases hzone with
    | inl habsent =>
        rw [habsent]
        exact ⟨_, rfl⟩
    | inr hoffsetless =>
        rw [hoffsetless]
        exact ⟨_, rfl⟩

/-! ## Half past six, in two zones -/

def halfPast (hour : ℕ) (h : hour < 24) : WallClock :=
  ⟨⟨2026, 9, 20⟩, hour, 30, 0, 0, by decide, by decide, h, by decide, by decide, by decide⟩

def asUtc : Aware := ⟨halfPast 6 (by decide), utc⟩

def asBangkok : Aware := ⟨halfPast 13 (by decide), ⟨25200000000, by decide, by decide⟩⟩

/-- The two spellings of one instant are stored as one text. -/
theorem stored_instants_zones : ∃ s, store (.datetime asUtc.datetime) = .ok (some s) ∧
    store (.datetime asBangkok.datetime) = .ok (some s) := by
  have hutc : asUtc.InRange := by
    unfold Aware.InRange
    decide +kernel
  have hbangkok : asBangkok.InRange := by
    unfold Aware.InRange
    decide +kernel
  obtain ⟨⟨s, t, hs, ht, _, _, hsame⟩, _⟩ := stored_instants hutc hbangkok
  have heq : s = t := hsame.mpr (by decide +kernel)
  exact ⟨s, hs, heq ▸ ht⟩

end AikoIsland.UtcDateTimes
