import AikoIsland.FloatingPoint

/-!
# What rounding keeps

`nearest` is exact on what it can represent and keeps the order with it, and it
gives an infinity from `2 ^ 1024 - 2 ^ 970` on: the midpoint above the largest
finite value, which ties to the even significand beyond.
-/
namespace AikoIsland.FloatingPoint

/-! ## To an integer -/

section
variable {q : ℚ} {m : ℤ}

theorem floor_le_halfEven (q : ℚ) : q.floor ≤ halfEven q := by
  unfold halfEven
  dsimp only
  split_ifs <;> omega

theorem le_halfEven (h : (m : ℚ) ≤ q) : m ≤ halfEven q := by
  have hfloor : m ≤ q.floor := Rat.le_floor_iff.mpr h
  exact hfloor.trans (floor_le_halfEven q)

theorem sub_half_le_halfEven (q : ℚ) : q - 1 / 2 ≤ halfEven q := by
  have hlt : q < q.floor + 1 := by exact_mod_cast Rat.lt_floor_add_one q
  unfold halfEven
  dsimp only
  split_ifs with h₁ h₂ h₃
  · linarith
  · push_cast
    linarith
  · linarith
  · push_cast
    linarith

theorem halfEven_le_add_half (q : ℚ) : (halfEven q : ℚ) ≤ q + 1 / 2 := by
  have hle : (q.floor : ℚ) ≤ q := Rat.floor_le q
  unfold halfEven
  dsimp only
  split_ifs with h₁ h₂ h₃
  · linarith
  · push_cast
    linarith
  · linarith
  · push_cast
    linarith

/-- The tie below an even integer goes up. -/
theorem halfEven_lt_iff (heven : m % 2 = 0) : halfEven q < m ↔ q < m - 1 / 2 := by
  constructor
  · intro h
    have hle : (halfEven q : ℚ) ≤ m - 1 := by exact_mod_cast Int.le_sub_one_of_lt h
    have hhalf := sub_half_le_halfEven q
    by_contra hge
    have htie : q = m - 1 / 2 := by linarith
    have hfloor : q.floor = m - 1 := by
      apply le_antisymm
      · have hlt : (q.floor : ℚ) < m := by
          have := Rat.floor_le q
          linarith
        have : q.floor < m := by exact_mod_cast hlt
        omega
      · apply Rat.le_floor_iff.mpr
        push_cast
        linarith
    have hup : halfEven q = m := by
      unfold halfEven
      rw [hfloor, htie]
      dsimp only
      rw [if_neg (by push_cast; linarith), if_neg (by push_cast; linarith), if_neg (by omega)]
      omega
    omega
  · intro h
    have hhalf := halfEven_le_add_half q
    have hlt : (halfEven q : ℚ) < m := by linarith
    exact_mod_cast hlt

end

/-! ## Binades -/

section
variable {q : ℚ}

theorem binade_bounds (hq : 0 < q) : (2 : ℚ) ^ binade q ≤ q ∧ q < 2 ^ (binade q + 1) := by
  have hnum : q.num.natAbs ≠ 0 := by
    have := Rat.num_pos.mpr hq
    omega
  have hden : q.den ≠ 0 := q.den_nz
  have hvalue : q = (q.num.natAbs : ℚ) / q.den := by
    have hpos := Rat.num_pos.mpr hq
    have hcast : (q.num.natAbs : ℚ) = q.num := by
      rw [Nat.cast_natAbs, abs_of_pos hpos]
    rw [hcast, Rat.num_div_den]
  have hd : (0 : ℚ) < q.den := by exact_mod_cast q.den_pos
  have hnumLow : (2 : ℚ) ^ (Nat.log2 q.num.natAbs) ≤ q.num.natAbs := by
    exact_mod_cast Nat.log2_self_le hnum
  have hnumHigh : (q.num.natAbs : ℚ) < 2 ^ (Nat.log2 q.num.natAbs + 1) := by
    exact_mod_cast Nat.lt_log2_self
  have hdenLow : (2 : ℚ) ^ (Nat.log2 q.den) ≤ q.den := by
    exact_mod_cast Nat.log2_self_le hden
  have hdenHigh : (q.den : ℚ) < 2 ^ (Nat.log2 q.den + 1) := by
    exact_mod_cast Nat.lt_log2_self
  generalize hn : Nat.log2 q.num.natAbs = n at *
  generalize hk : Nat.log2 q.den = k at *
  have hbelow : q < (2 : ℚ) ^ ((n : ℤ) - k + 1) := by
    have hsplit : (2 : ℚ) ^ ((n : ℤ) - k + 1) * 2 ^ k = 2 ^ (n + 1) := by
      rw [← zpow_natCast, ← zpow_natCast, ← zpow_add₀ (by norm_num)]
      congr 1
      push_cast
      ring
    rw [hvalue, div_lt_iff₀ hd]
    calc
      (q.num.natAbs : ℚ) < 2 ^ (n + 1) := hnumHigh
      _ = (2 : ℚ) ^ ((n : ℤ) - k + 1) * 2 ^ k := hsplit.symm
      _ ≤ (2 : ℚ) ^ ((n : ℤ) - k + 1) * q.den := by gcongr
  have habove : (2 : ℚ) ^ ((n : ℤ) - k - 1) ≤ q := by
    have hsplit : (2 : ℚ) ^ ((n : ℤ) - k - 1) * 2 ^ (k + 1) = 2 ^ n := by
      rw [← zpow_natCast, ← zpow_natCast, ← zpow_add₀ (by norm_num)]
      congr 1
      push_cast
      ring
    rw [hvalue, le_div_iff₀ hd]
    calc
      (2 : ℚ) ^ ((n : ℤ) - k - 1) * q.den ≤ (2 : ℚ) ^ ((n : ℤ) - k - 1) * 2 ^ (k + 1) := by gcongr
      _ = 2 ^ n := hsplit
      _ ≤ q.num.natAbs := hnumLow
  unfold binade
  rw [hn, hk]
  dsimp only
  split_ifs with h
  · exact ⟨h, hbelow⟩
  · constructor
    · exact habove
    · rw [sub_add_cancel]
      exact not_le.mp h

theorem binade_mono {a : ℚ} (ha : 0 < a) (h : a ≤ q) : binade a ≤ binade q := by
  have hlow := (binade_bounds ha).1
  have hhigh := (binade_bounds (ha.trans_le h)).2
  have hlt : (2 : ℚ) ^ binade a < 2 ^ (binade q + 1) := hlow.trans_lt (h.trans_lt hhigh)
  have := (zpow_lt_zpow_iff_right₀ (by norm_num : (1 : ℚ) < 2)).mp hlt
  omega

theorem quantum_pos (q : ℚ) : 0 < quantum q := zpow_pos (by norm_num) _

/-- The magnitude that `nearest` takes. -/
def rounded (q : ℚ) : ℚ := halfEven (q / quantum q) * quantum q

theorem nearest_of_pos (hq : 0 < q) :
    nearest q = if (2 : ℚ) ^ (1024 : ℕ) ≤ rounded q then .inf false else .finite (rounded q) := by
  unfold nearest
  rw [if_neg hq.ne', abs_of_pos hq]
  dsimp only
  rw [decide_eq_false (not_lt.mpr hq.le), if_neg (not_lt.mpr hq.le)]
  rfl

theorem rounded_le (q : ℚ) : rounded q ≤ q + quantum q / 2 := by
  have hhalf := halfEven_le_add_half (q / quantum q)
  have hpos := quantum_pos q
  have hmul := mul_le_mul_of_nonneg_right hhalf hpos.le
  have hsplit : (q / quantum q + 1 / 2) * quantum q = q + quantum q / 2 := by
    rw [add_mul, div_mul_cancel₀ _ hpos.ne']
    ring
  rw [rounded]
  linarith

theorem le_rounded_add (q : ℚ) : q ≤ rounded q + quantum q / 2 := by
  have hhalf := sub_half_le_halfEven (q / quantum q)
  have hpos := quantum_pos q
  have hmul := mul_le_mul_of_nonneg_right hhalf hpos.le
  have hsplit : (q / quantum q - 1 / 2) * quantum q = q - quantum q / 2 := by
    rw [sub_mul, div_mul_cancel₀ _ hpos.ne']
    ring
  rw [rounded]
  linarith

/-- A multiple of the quantum below a value stays below it. -/
theorem le_rounded_of_multiple {m : ℤ} (h : m * quantum q ≤ q) : m * quantum q ≤ rounded q := by
  have hpos := quantum_pos q
  have hle : (m : ℚ) ≤ q / quantum q := (le_div_iff₀ hpos).mpr h
  have hcast : (m : ℚ) ≤ halfEven (q / quantum q) := by exact_mod_cast le_halfEven hle
  exact mul_le_mul_of_nonneg_right hcast hpos.le

theorem rounded_nonneg (hq : 0 < q) : 0 ≤ rounded q := by
  have h := le_rounded_of_multiple (q := q) (m := 0) (by rw [Int.cast_zero, zero_mul]; exact hq.le)
  rwa [Int.cast_zero, zero_mul] at h

/-- The power of two at the lower end of a normal binade is a multiple of its quantum. -/
theorem pow_binade_eq (h : -1074 ≤ binade q - 52) :
    (2 : ℚ) ^ binade q = ((2 ^ 52 : ℕ) : ℤ) * quantum q := by
  rw [quantum, max_eq_left h]
  have hsplit : (2 : ℚ) ^ binade q = 2 ^ (52 : ℤ) * 2 ^ (binade q - 52) := by
    rw [← zpow_add₀ (by norm_num)]
    congr 1
    ring
  rw [hsplit]
  norm_num

theorem pow_binade_le_rounded (hq : 0 < q) (h : -1074 ≤ binade q - 52) :
    (2 : ℚ) ^ binade q ≤ rounded q := by
  rw [pow_binade_eq h]
  apply le_rounded_of_multiple
  rw [← pow_binade_eq h]
  exact (binade_bounds hq).1

/-- Rounding keeps the order with what it leaves alone. -/
theorem le_rounded {a : ℚ} (ha : 0 < a) (h : a ≤ q) (hexact : rounded a = a) : a ≤ rounded q := by
  have hq : 0 < q := ha.trans_le h
  have hbinade := binade_mono ha h
  by_cases hsame : max (binade a - 52) (-1074) = max (binade q - 52) (-1074)
  · have hquantum : quantum a = quantum q := by rw [quantum, quantum, hsame]
    have hmultiple : halfEven (a / quantum a) * quantum q = a := by
      rw [← hquantum]
      exact hexact
    rw [← hmultiple]
    apply le_rounded_of_multiple
    rw [hmultiple]
    exact h
  · have hnormal : -1074 ≤ binade q - 52 := by omega
    have hlt : binade a + 1 ≤ binade q := by omega
    calc
      a ≤ 2 ^ (binade a + 1) := (binade_bounds ha).2.le
      _ ≤ 2 ^ binade q := zpow_le_zpow_right₀ (by norm_num) hlt
      _ ≤ rounded q := pow_binade_le_rounded hq hnormal

/-! ## The largest values -/

theorem pow_1024 : (2 : ℚ) ^ 1024 = 2 ^ 54 * 2 ^ 970 := by rw [← pow_add]

theorem pow_971 : (2 : ℚ) ^ 971 = 2 * 2 ^ 970 := by rw [← pow_succ']

/-- Below the last binade everything is small. -/
theorem small_binade (hq : 0 < q) (h : binade q ≤ 1022) :
    q < 2 ^ 53 * 2 ^ 970 ∧ rounded q ≤ q + 2 ^ 970 / 2 := by
  constructor
  · calc
      q < 2 ^ (binade q + 1) := (binade_bounds hq).2
      _ ≤ 2 ^ ((1023 : ℕ) : ℤ) := zpow_le_zpow_right₀ (by norm_num) (by omega)
      _ = 2 ^ 53 * 2 ^ 970 := by rw [zpow_natCast, ← pow_add]
  · have hquantum : quantum q ≤ 2 ^ 970 := by
      calc
        quantum q ≤ 2 ^ ((970 : ℕ) : ℤ) := zpow_le_zpow_right₀ (by norm_num) (by omega)
        _ = 2 ^ 970 := zpow_natCast _ _
    have hrounded := rounded_le q
    generalize (2 : ℚ) ^ 970 = unit at *
    linarith

theorem quantum_of_last (h : binade q = 1023) : quantum q = 2 * 2 ^ 970 := by
  have hexponent : max (binade q - 52) (-1074) = ((971 : ℕ) : ℤ) := by omega
  rw [quantum, hexponent, zpow_natCast, pow_971]

theorem large_binade (hq : 0 < q) (h : 1024 ≤ binade q) :
    2 ^ 54 * 2 ^ 970 ≤ q ∧ 2 ^ 54 * 2 ^ 970 ≤ rounded q := by
  have hpow : (2 : ℚ) ^ 54 * 2 ^ 970 ≤ 2 ^ binade q := by
    calc
      (2 : ℚ) ^ 54 * 2 ^ 970 = 2 ^ ((1024 : ℕ) : ℤ) := by rw [zpow_natCast, ← pow_add]
      _ ≤ 2 ^ binade q := zpow_le_zpow_right₀ (by norm_num) (by omega)
  constructor
  · exact hpow.trans (binade_bounds hq).1
  · exact hpow.trans (pow_binade_le_rounded hq (by omega))

theorem overflows_iff (hq : 0 < q) :
    (2 : ℚ) ^ (1024 : ℕ) ≤ rounded q ↔ 2 ^ 1024 - 2 ^ 970 ≤ q := by
  have hunit : (0 : ℚ) < 2 ^ 970 := by positivity
  rcases lt_trichotomy (binade q) 1023 with hsmall | hlast | hlarge
  · -- Below the last binade neither side holds.
    obtain ⟨hbelow, hrounded⟩ := small_binade hq (by omega)
    rw [pow_1024]
    generalize (2 : ℚ) ^ 970 = unit at *
    constructor
    · intro h
      linarith
    · intro h
      linarith
  · have hquantum := quantum_of_last hlast
    have hpos := quantum_pos q
    have htop : (2 : ℚ) ^ 1024 = ((2 ^ 53 : ℤ) : ℚ) * quantum q := by
      rw [hquantum, pow_1024]
      generalize (2 : ℚ) ^ 970 = unit
      push_cast
      ring
    have hmidpoint : (2 : ℚ) ^ 1024 - 2 ^ 970 = (((2 ^ 53 : ℤ) : ℚ) - 1 / 2) * quantum q := by
      rw [hquantum, pow_1024]
      generalize (2 : ℚ) ^ 970 = unit
      push_cast
      ring
    have htie := halfEven_lt_iff (q := q / quantum q) (m := 2 ^ 53) (by decide)
    rw [hmidpoint, htop, rounded, mul_le_mul_iff_left₀ hpos, ← le_div_iff₀ hpos, Int.cast_le,
      ← not_lt, ← not_lt, htie]
  · -- Above it both do.
    obtain ⟨habove, hrounded⟩ := large_binade hq (by omega)
    rw [pow_1024]
    generalize (2 : ℚ) ^ 970 = unit at *
    constructor
    · intro _
      linarith
    · intro _
      exact hrounded

/-- Below the midpoint the nearest value is finite. -/
theorem nearest_eq_finite (hq : 0 < q) (h : q < 2 ^ 1024 - 2 ^ 970) :
    nearest q = .finite (rounded q) := by
  rw [nearest_of_pos hq, if_neg]
  rw [overflows_iff hq]
  exact not_le.mpr h

theorem nearest_eq_inf (hq : 0 < q) (h : 2 ^ 1024 - 2 ^ 970 ≤ q) : nearest q = .inf false := by
  rw [nearest_of_pos hq, if_pos]
  exact (overflows_iff hq).mpr h

/-- A finite result is at most the largest one. -/
theorem rounded_le_largest (hq : 0 < q) (h : q < 2 ^ 1024 - 2 ^ 970) :
    rounded q ≤ 2 ^ 1024 - 2 ^ 971 := by
  have hfinite : rounded q < 2 ^ 1024 := by
    apply not_le.mp
    rw [overflows_iff hq]
    exact not_le.mpr h
  have hunit : (0 : ℚ) < 2 ^ 970 := by positivity
  rcases lt_trichotomy (binade q) 1023 with hsmall | hlast | hlarge
  · obtain ⟨hbelow, hrounded⟩ := small_binade hq (by omega)
    rw [pow_1024, pow_971]
    generalize (2 : ℚ) ^ 970 = unit at *
    linarith
  · have hquantum := quantum_of_last hlast
    have hpos := quantum_pos q
    have htop : (2 : ℚ) ^ 1024 = ((2 ^ 53 : ℤ) : ℚ) * quantum q := by
      rw [hquantum, pow_1024]
      generalize (2 : ℚ) ^ 970 = unit
      push_cast
      ring
    rw [htop, rounded] at hfinite
    have hlt : halfEven (q / quantum q) < 2 ^ 53 := by
      exact_mod_cast lt_of_mul_lt_mul_right hfinite hpos.le
    have hle : (halfEven (q / quantum q) : ℚ) ≤ ((2 ^ 53 : ℤ) : ℚ) - 1 := by
      exact_mod_cast Int.le_sub_one_of_lt hlt
    calc
      rounded q = halfEven (q / quantum q) * quantum q := rfl
      _ ≤ (((2 ^ 53 : ℤ) : ℚ) - 1) * quantum q := mul_le_mul_of_nonneg_right hle hpos.le
      _ = 2 ^ 1024 - 2 ^ 971 := by
        rw [hquantum, pow_1024, pow_971]
        generalize (2 : ℚ) ^ 970 = unit
        push_cast
        ring
  · have habove := (large_binade hq (by omega)).1
    rw [pow_1024] at h
    generalize (2 : ℚ) ^ 970 = unit at h habove hunit
    linarith

theorem nearest_zero : nearest 0 = .finite 0 := if_pos rfl

/-- Below the midpoint the nearest value is finite, also for zero. -/
theorem exists_nearest (hq : 0 ≤ q) (h : q < 2 ^ 1024 - 2 ^ 970) :
    ∃ v, nearest q = .finite v ∧ 0 ≤ v ∧ v ≤ 2 ^ 1024 - 2 ^ 971 := by
  rcases hq.eq_or_lt with rfl | hpos
  · refine ⟨0, nearest_zero, le_refl 0, ?_⟩
    rw [pow_1024, pow_971]
    have hunit : (0 : ℚ) < 2 ^ 970 := by positivity
    generalize (2 : ℚ) ^ 970 = unit at hunit
    linarith
  · exact ⟨_, nearest_eq_finite hpos h, rounded_nonneg hpos, rounded_le_largest hpos h⟩

/-- The nearest value of either sign, below the midpoint. -/
theorem nearest_eq_signed (hq : q ≠ 0) (h : |q| < 2 ^ 1024 - 2 ^ 970) :
    nearest q = .finite (if q < 0 then -rounded |q| else rounded |q|) := by
  have hfinite : ¬(2 : ℚ) ^ (1024 : ℕ) ≤ rounded |q| := by
    rw [overflows_iff (abs_pos.mpr hq)]
    exact not_le.mpr h
  unfold nearest
  rw [if_neg hq]
  dsimp only
  exact if_neg hfinite

/-- Within a power of two the error is at most half the quantum below it. -/
theorem exists_nearest_near {e : ℕ} (h : |q| < 2 ^ (e + 1)) (he : e ≤ 1000) :
    ∃ v, nearest q = .finite v ∧ |v - q| ≤ 2 ^ ((e : ℤ) - 52) / 2 := by
  by_cases hq : q = 0
  · subst hq
    refine ⟨0, nearest_zero, ?_⟩
    rw [sub_zero, abs_zero]
    positivity
  · have hpos := abs_pos.mpr hq
    have hsmall : |q| < 2 ^ 1024 - 2 ^ 970 := by
      have hpow : (2 : ℚ) ^ (e + 1) ≤ 2 ^ 1001 := pow_le_pow_right₀ (by norm_num) (by omega)
      have hsplit : (2 : ℚ) ^ 1001 = 2 ^ 31 * 2 ^ 970 := by rw [← pow_add]
      have hunit : (0 : ℚ) < 2 ^ 970 := by positivity
      rw [pow_1024]
      rw [hsplit] at hpow
      generalize (2 : ℚ) ^ 970 = unit at hpow hunit
      linarith
    have hbinade : binade |q| ≤ e := by
      have hlt : (2 : ℚ) ^ binade |q| < 2 ^ ((e + 1 : ℕ) : ℤ) := by
        rw [zpow_natCast]
        exact (binade_bounds hpos).1.trans_lt h
      have hexp := (zpow_lt_zpow_iff_right₀ (by norm_num : (1 : ℚ) < 2)).mp hlt
      push_cast at hexp
      omega
    have hquantum : quantum |q| ≤ 2 ^ ((e : ℤ) - 52) :=
      zpow_le_zpow_right₀ (by norm_num) (by omega)
    have hlow := le_rounded_add |q|
    have hhigh := rounded_le |q|
    refine ⟨_, nearest_eq_signed hq hsmall, ?_⟩
    rw [abs_le]
    split_ifs with hneg
    · rw [abs_of_neg hneg] at *
      constructor
      · linarith
      · linarith
    · rw [abs_of_nonneg (not_lt.mp hneg)] at *
      constructor
      · linarith
      · linarith

/-- From a power of two on the nearest value is a multiple of the quantum there. -/
theorem multiple_of_nearest {e : ℕ} {v : ℚ} (h : (2 : ℚ) ^ e ≤ |q|) (hv : nearest q = .finite v) :
    ∃ m : ℤ, v = m * 2 ^ ((e : ℤ) - 52) := by
  have hpos : 0 < |q| := (by positivity : (0 : ℚ) < 2 ^ e).trans_le h
  have hbinade : e ≤ binade |q| := by
    have hlt : (2 : ℚ) ^ ((e : ℕ) : ℤ) < 2 ^ (binade |q| + 1) := by
      rw [zpow_natCast]
      exact h.trans_lt (binade_bounds hpos).2
    have hexp := (zpow_lt_zpow_iff_right₀ (by norm_num : (1 : ℚ) < 2)).mp hlt
    omega
  obtain ⟨k, hk⟩ := Int.eq_ofNat_of_zero_le (sub_nonneg.mpr hbinade)
  have hquantum : quantum |q| = ((2 ^ k : ℤ) : ℚ) * 2 ^ ((e : ℤ) - 52) := by
    have hexponent : max (binade |q| - 52) (-1074) = (k : ℤ) + (e - 52) := by omega
    rw [quantum, hexponent, zpow_add₀ (by norm_num), zpow_natCast]
    push_cast
    rfl
  have hrounded : rounded |q| =
      ((halfEven (|q| / quantum |q|) * 2 ^ k : ℤ) : ℚ) * 2 ^ ((e : ℤ) - 52) := by
    rw [Int.cast_mul, mul_assoc, ← hquantum]
    rfl
  have hvalue : v = if q < 0 then -rounded |q| else rounded |q| := by
    unfold nearest at hv
    rw [if_neg (abs_pos.mp hpos)] at hv
    dsimp only at hv
    split_ifs at hv with hinf hneg
    · rw [if_pos hneg]
      exact (Binary64.finite.inj hv).symm
    · rw [if_neg hneg]
      exact (Binary64.finite.inj hv).symm
  rw [hvalue]
  split_ifs with hneg
  · refine ⟨-(halfEven (|q| / quantum |q|) * 2 ^ k), ?_⟩
    rw [hrounded, Int.cast_neg, neg_mul]
  · exact ⟨_, hrounded⟩

/-- What is closer to an integer than a half rounds to it. -/
theorem halfEven_eq {m : ℤ} (h : |q - m| < 1 / 2) : halfEven q = m := by
  have hlow := sub_half_le_halfEven q
  have hhigh := halfEven_le_add_half q
  rw [abs_lt] at h
  have hupper : (halfEven q : ℚ) < m + 1 := by linarith
  have hlower : (m : ℚ) - 1 < halfEven q := by linarith
  have hupper' : halfEven q < m + 1 := by exact_mod_cast hupper
  have hlower' : m - 1 < halfEven q := by exact_mod_cast hlower
  omega

/-- An integer is too large for a float from the midpoint on. -/
theorem ofInt_eq_none {n : ℤ} (h : (2 ^ 1024 - 2 ^ 970 : ℚ) ≤ n) : ofInt n = none := by
  have hpos : (0 : ℚ) < n := by
    have hunit : (0 : ℚ) < 2 ^ 970 := by positivity
    have habove := h
    rw [pow_1024] at habove
    generalize (2 : ℚ) ^ 970 = unit at habove hunit
    linarith only [habove, hunit]
  rw [ofInt, nearest_eq_inf hpos h]

theorem exists_ofInt {n : ℤ} (hn : 0 ≤ n) (h : (n : ℚ) < 2 ^ 1024 - 2 ^ 970) :
    ∃ v, ofInt n = some v ∧ 0 ≤ v ∧ v ≤ 2 ^ 1024 - 2 ^ 971 := by
  obtain ⟨v, hv, hbounds⟩ := exists_nearest (by exact_mod_cast hn) h
  exact ⟨v, by rw [ofInt, hv], hbounds⟩

end

end AikoIsland.FloatingPoint
