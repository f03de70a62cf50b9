import AikoIsland.Conversions

/-!
# The instant of a timestamp in milliseconds

APNs dates a death in milliseconds. `_reap_order` divides them as a float, and
`datetime` rounds the quotient to microseconds and takes the years 1 to 9999.

The instant is that of the milliseconds exactly where the quotient is off by less
than half a microsecond, and not later than it where the quotient is not above it
by that much. Up to the year 2242 it always is exact: below 2³³ seconds the quotient
is off by less, and from there on by multiples of 2⁻¹³ microseconds, none of which is
just below a half.
-/
namespace AikoIsland.ReapInstants
open FloatingPoint Payload

/-- `datetime.fromtimestamp(ms / 1000)`, in microseconds; `none` where either raises. -/
def reapInstant (ms : ℤ) : Option ℤ :=
  match nearest (ms / 1000) with
  | .finite x => fromTimestamp (.finite x)
  | _ => none

/-- Milliseconds of the years 1 to 9999 whose quotient as a float is closer to them than half a
microsecond. -/
def Datable (ms : ℤ) : Prop :=
  (minSecond * 1000 ≤ ms ∧ ms ≤ maxSecond * 1000 + 999) ∧
    ∃ x, nearest (ms / 1000) = .finite x ∧ |x - ms / 1000| < 1 / 2000000

/-- Milliseconds whose quotient as a float is not above them by half a microsecond. -/
def DatedNoLater (ms : ℤ) : Prop :=
  ∀ x, nearest (ms / 1000) = .finite x → x - ms / 1000 < 1 / 2000000

theorem abs_sub_truncate_lt (q : ℚ) : |q - truncate q| < 1 := by
  unfold truncate
  split_ifs with hneg
  · have hle := Rat.floor_le (-q)
    have hlt : -q < (-q).floor + 1 := by exact_mod_cast Rat.lt_floor_add_one (-q)
    rw [abs_lt]
    push_cast
    constructor
    · linarith
    · linarith
  · have hle := Rat.floor_le q
    have hlt : q < q.floor + 1 := by exact_mod_cast Rat.lt_floor_add_one q
    rw [abs_lt]
    constructor
    · linarith
    · linarith

/-- Scaling the fraction of a second moves it by much less than it is then rounded. -/
theorem microseconds_near {f : ℚ} (h : |f| < 1) :
    ∃ v, microseconds f = halfEven v ∧ |v - f * 1000000| ≤ 1 / 2 ^ 34 := by
  have hsmall : |f * 1000000| < 2 ^ (19 + 1) := by
    have hpow : (1000000 : ℚ) < 2 ^ (19 + 1) := by norm_num
    rw [abs_mul, abs_of_pos (by norm_num : (0 : ℚ) < 1000000)]
    linarith
  obtain ⟨v, hv, hnear⟩ := exists_nearest_near hsmall (by norm_num)
  refine ⟨v, ?_, ?_⟩
  · unfold microseconds
    rw [hv]
  · have hpow : (2 : ℚ) ^ (((19 : ℕ) : ℤ) - 52) / 2 = 1 / 2 ^ 34 := by norm_num
    rwa [hpow] at hnear

theorem microseconds_bounds {f : ℚ} (h : |f| < 1) :
    -1000000 ≤ microseconds f ∧ microseconds f ≤ 1000000 := by
  obtain ⟨v, hv, hnear⟩ := microseconds_near h
  have hhigh := halfEven_le_add_half v
  have hlow := sub_half_le_halfEven v
  rw [abs_le] at hnear
  rw [abs_lt] at h
  have hunit : (1 : ℚ) / 2 ^ 34 < 1 / 2 := by norm_num
  generalize (1 : ℚ) / 2 ^ 34 = unit at hnear hunit
  have habove : (halfEven v : ℚ) < 1000001 := by linarith
  have hbelow : (-1000001 : ℚ) < halfEven v := by linarith
  have habove' : halfEven v < 1000001 := by exact_mod_cast habove
  have hbelow' : -1000001 < halfEven v := by exact_mod_cast hbelow
  rw [hv]
  constructor
  · omega
  · omega

/-- The instant of a float, and the years that have it. -/
theorem fromTimestamp_finite (x : ℚ) :
    fromTimestamp (.finite x) =
      let t := truncate x * 1000000 + microseconds (x - truncate x)
      if minSecond * 1000000 ≤ t ∧ t ≤ maxSecond * 1000000 + 999999 then some t else none := by
  have hbounds := microseconds_bounds (abs_sub_truncate_lt x)
  unfold fromTimestamp
  dsimp only
  generalize microseconds (x - truncate x) = us at hbounds
  generalize truncate x = second
  have hsecond : (if 1000000 ≤ us then second + 1 else if us < 0 then second - 1 else second) =
      (second * 1000000 + us) / 1000000 := by
    split_ifs
    · omega
    · omega
    · omega
  rw [hsecond]
  have hrange : (decide (minSecond ≤ (second * 1000000 + us) / 1000000) &&
        decide ((second * 1000000 + us) / 1000000 ≤ maxSecond)) = true ↔
      minSecond * 1000000 ≤ second * 1000000 + us ∧
        second * 1000000 + us ≤ maxSecond * 1000000 + 999999 := by
    rw [Bool.and_eq_true, decide_eq_true_eq, decide_eq_true_eq]
    omega
  by_cases hin : minSecond * 1000000 ≤ second * 1000000 + us ∧
      second * 1000000 + us ≤ maxSecond * 1000000 + 999999
  · rw [if_pos hin, if_pos (hrange.mpr hin)]
  · rw [if_neg hin, if_neg fun h => hin (hrange.mp h)]

/-- A quotient that is off by less than a sixteenth less than half a microsecond is exact, and one
that is off by more than that is not. -/
theorem microseconds_eq_iff {x : ℚ} {n : ℤ} (hgap : |x * 1000000 - n| ≤ 1 / 2 + 1 / 2 ^ 34 →
      |x * 1000000 - n| < 1 / 2 - 1 / 2 ^ 34) :
    truncate x * 1000000 + microseconds (x - truncate x) = n ↔ |x * 1000000 - n| < 1 / 2 := by
  obtain ⟨v, hv, hnear⟩ := microseconds_near (abs_sub_truncate_lt x)
  have hhigh := halfEven_le_add_half v
  have hlow := sub_half_le_halfEven v
  rw [hv]
  constructor
  · intro heq
    have hcast : (truncate x : ℚ) * 1000000 + halfEven v = n := by exact_mod_cast heq
    have hwide : |x * 1000000 - n| ≤ 1 / 2 + 1 / 2 ^ 34 := by
      rw [abs_le] at hnear ⊢
      generalize (1 : ℚ) / 2 ^ 34 = unit at *
      constructor
      · linarith
      · linarith
    have hclose := hgap hwide
    have hunit : (0 : ℚ) < 1 / 2 ^ 34 := by norm_num
    linarith
  · intro hlt
    have hunit : (0 : ℚ) < 1 / 2 ^ 34 := by norm_num
    have hclose := hgap (by linarith)
    have hround : halfEven v = n - truncate x * 1000000 := by
      apply halfEven_eq
      rw [abs_le] at hnear
      rw [abs_lt] at hclose ⊢
      generalize (1 : ℚ) / 2 ^ 34 = unit at *
      push_cast
      constructor
      · linarith
      · linarith
    omega

/-- The same where the quotient may only be too large. -/
theorem microseconds_le_iff {x : ℚ} {n : ℤ} (hgap : x * 1000000 - n ≤ 1 / 2 + 1 / 2 ^ 34 →
      x * 1000000 - n < 1 / 2 - 1 / 2 ^ 34) :
    truncate x * 1000000 + microseconds (x - truncate x) ≤ n ↔ x * 1000000 - n < 1 / 2 := by
  obtain ⟨v, hv, hnear⟩ := microseconds_near (abs_sub_truncate_lt x)
  have hhigh := halfEven_le_add_half v
  have hlow := sub_half_le_halfEven v
  have hunit : (0 : ℚ) < 1 / 2 ^ 34 := by norm_num
  rw [abs_le] at hnear
  rw [hv]
  generalize (1 : ℚ) / 2 ^ 34 = unit at *
  constructor
  · intro hle
    have hcast : (truncate x : ℚ) * 1000000 + halfEven v ≤ n := by exact_mod_cast hle
    have hclose := hgap (by linarith)
    linarith
  · intro hlt
    have hclose := hgap (by linarith)
    have hbelow : (truncate x * 1000000 + halfEven v : ℚ) < n + 1 := by linarith
    have hbelow' : truncate x * 1000000 + halfEven v < n + 1 := by exact_mod_cast hbelow
    omega

/-- The quotient of a later instant is a multiple of 2⁻¹⁹, so in microseconds it is off by a
multiple of 2⁻¹³, and never by half. -/
theorem exists_offset_of_large {ms : ℤ} {x : ℚ} (hx : nearest (ms / 1000) = .finite x)
    (hlarge : (2 : ℚ) ^ 33 ≤ |(ms : ℚ) / 1000|) :
    ∃ k : ℤ, x * 1000000 - (1000 * ms : ℤ) = (k : ℚ) / 8192 ∧ k ≠ 4096 ∧ k ≠ -4096 := by
  obtain ⟨m, hm⟩ := multiple_of_nearest hlarge hx
  use 15625 * m - 8192000 * ms
  refine ⟨?_, by omega, by omega⟩
  rw [hm]
  push_cast
  ring

theorem gap_of_large {ms : ℤ} {x : ℚ} (hx : nearest (ms / 1000) = .finite x)
    (hlarge : (2 : ℚ) ^ 33 ≤ |(ms : ℚ) / 1000|)
    (h : |x * 1000000 - (1000 * ms : ℤ)| ≤ 1 / 2 + 1 / 2 ^ 34) :
    |x * 1000000 - (1000 * ms : ℤ)| < 1 / 2 - 1 / 2 ^ 34 := by
  obtain ⟨k, hgrid, habove, hbelow⟩ := exists_offset_of_large hx hlarge
  rw [hgrid, abs_le] at h
  rw [hgrid, abs_lt]
  have hlow : (-4097 : ℚ) < k := by
    have := h.1
    linarith
  have hhigh : (k : ℚ) < 4097 := by
    have := h.2
    linarith
  have hlow' : -4097 < k := by exact_mod_cast hlow
  have hhigh' : k < 4097 := by exact_mod_cast hhigh
  have hlow'' : (-4095 : ℚ) ≤ k := by exact_mod_cast (by omega : -4095 ≤ k)
  have hhigh'' : (k : ℚ) ≤ 4095 := by exact_mod_cast (by omega : k ≤ 4095)
  constructor
  · linarith
  · linarith

theorem scaled_quotient (x : ℚ) (ms : ℤ) :
    x * 1000000 - (1000 * ms : ℤ) = (x - ms / 1000) * 1000000 := by
  push_cast
  ring

/-- The quotient of an instant up to the year 2242 is off by less than half a microsecond. -/
theorem exists_near_of_small {ms : ℤ} (hsmall : |(ms : ℚ) / 1000| < 2 ^ 33) :
    ∃ x, nearest (ms / 1000) = .finite x ∧
      |x * 1000000 - (1000 * ms : ℤ)| < 1 / 2 - 1 / 2 ^ 34 := by
  obtain ⟨x, hx, hnear⟩ := exists_nearest_near (e := 32) hsmall (by norm_num)
  refine ⟨x, hx, ?_⟩
  have hpow : (2 : ℚ) ^ (((32 : ℕ) : ℤ) - 52) / 2 * 1000000 < 1 / 2 - 1 / 2 ^ 34 := by norm_num
  rw [scaled_quotient, abs_mul, abs_of_pos (by norm_num : (0 : ℚ) < 1000000)]
  linarith

theorem gap_of_quotient {ms : ℤ} {x : ℚ} (hx : nearest (ms / 1000) = .finite x)
    (h : |x * 1000000 - (1000 * ms : ℤ)| ≤ 1 / 2 + 1 / 2 ^ 34) :
    |x * 1000000 - (1000 * ms : ℤ)| < 1 / 2 - 1 / 2 ^ 34 := by
  by_cases hsmall : |(ms : ℚ) / 1000| < 2 ^ 33
  · obtain ⟨x', hx', hnear⟩ := exists_near_of_small hsmall
    rw [hx] at hx'
    cases hx'
    exact hnear
  · exact gap_of_large hx (not_lt.mp hsmall) h

theorem gap_above_quotient {ms : ℤ} {x : ℚ} (hx : nearest (ms / 1000) = .finite x)
    (h : x * 1000000 - (1000 * ms : ℤ) ≤ 1 / 2 + 1 / 2 ^ 34) :
    x * 1000000 - (1000 * ms : ℤ) < 1 / 2 - 1 / 2 ^ 34 := by
  by_cases hsmall : |(ms : ℚ) / 1000| < 2 ^ 33
  · obtain ⟨x', hx', hnear⟩ := exists_near_of_small hsmall
    rw [hx] at hx'
    cases hx'
    exact (abs_lt.mp hnear).2
  · obtain ⟨k, hgrid, habove, _⟩ := exists_offset_of_large hx (not_lt.mp hsmall)
    rw [hgrid] at h ⊢
    have hhigh : (k : ℚ) < 4097 := by linarith
    have hhigh' : k < 4097 := by exact_mod_cast hhigh
    have hhigh'' : (k : ℚ) ≤ 4095 := by exact_mod_cast (by omega : k ≤ 4095)
    linarith

/-- An instant that an order carries is not later than its timestamp exactly where the quotient is
not too large. -/
theorem reapInstant_le_iff {ms t : ℤ} (h : reapInstant ms = some t) :
    t ≤ 1000 * ms ↔ DatedNoLater ms := by
  unfold reapInstant at h
  unfold DatedNoLater
  cases hx : nearest ((ms : ℚ) / 1000) with
  | nan =>
      rw [hx] at h
      cases h
  | inf negative =>
      rw [hx] at h
      cases h
  | finite x =>
      rw [hx] at h
      dsimp only at h
      rw [fromTimestamp_finite] at h
      dsimp only at h
      split_ifs at h with hrange
      rw [← Option.some.inj h, microseconds_le_iff (gap_above_quotient hx), scaled_quotient]
      constructor
      · intro hlt x' hx'
        cases hx'
        linarith
      · intro hall
        have hlt := hall x rfl
        linarith

/-- The order carries the instant of its timestamp exactly where the timestamp is datable. -/
theorem reapInstant_eq_iff (ms : ℤ) : reapInstant ms = some (1000 * ms) ↔ Datable ms := by
  unfold reapInstant Datable
  cases hx : nearest ((ms : ℚ) / 1000) with
  | nan => simp
  | inf negative => simp
  | finite x =>
      have hexact := microseconds_eq_iff (gap_of_quotient hx)
      have hunits : |x * 1000000 - (1000 * ms : ℤ)| < 1 / 2 ↔ |x - ms / 1000| < 1 / 2000000 := by
        rw [scaled_quotient, abs_mul, abs_of_pos (by norm_num : (0 : ℚ) < 1000000)]
        constructor
        · intro h
          linarith
        · intro h
          linarith
      rw [hunits] at hexact
      dsimp only
      rw [fromTimestamp_finite]
      dsimp only
      generalize truncate x * 1000000 + microseconds (x - truncate x) = t at hexact
      constructor
      · intro h
        split_ifs at h with hrange
        have ht := Option.some.inj h
        constructor
        · omega
        · exact ⟨x, rfl, hexact.mp ht⟩
      · intro h
        obtain ⟨hrange, x', hx', hnear⟩ := h
        cases hx'
        have ht := hexact.mpr hnear
        rw [if_pos (by omega), ht]

/-- Every instant from 1697 to 2242 is datable. -/
theorem datable_of_small {ms : ℤ} (hlow : -(2 ^ 33 * 1000) < ms) (hhigh : ms < 2 ^ 33 * 1000) :
    Datable ms := by
  have hsmall : |(ms : ℚ) / 1000| < 2 ^ 33 := by
    have hlow' : (-(2 ^ 33 * 1000) : ℚ) < ms := by exact_mod_cast hlow
    have hhigh' : (ms : ℚ) < 2 ^ 33 * 1000 := by exact_mod_cast hhigh
    rw [abs_lt]
    constructor
    · linarith
    · linarith
  obtain ⟨x, hx, hnear⟩ := exists_near_of_small hsmall
  have hunit : (0 : ℚ) < 1 / 2 ^ 34 := by norm_num
  rw [scaled_quotient, abs_mul, abs_of_pos (by norm_num : (0 : ℚ) < 1000000)] at hnear
  have hrange : minSecond * 1000 ≤ ms ∧ ms ≤ maxSecond * 1000 + 999 := by
    unfold minSecond maxSecond
    omega
  exact ⟨hrange, x, hx, by linarith⟩

theorem datedNoLater_of_datable {ms : ℤ} (h : Datable ms) : DatedNoLater ms :=
  (reapInstant_le_iff ((reapInstant_eq_iff ms).mpr h)).mp (le_refl _)

end AikoIsland.ReapInstants
