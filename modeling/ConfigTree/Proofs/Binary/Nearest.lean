import ConfigTree.Proofs.Binary.Magnitude

/-!
# Rounding to the nearest number

`Layout.nearest` finds the code of the number nearest to a fraction: it rounds the mantissa at the
exponent that leaves it as many bits as a number has, and stops at infinity
(`exists_isNearest`). A fraction is rounded to a finite number below `Layout.overflow`, half the
last spacing beyond the greatest number, and to infinity from there on (`lt_infinityCode_iff`).
-/

namespace ConfigTree.Binary

namespace Layout

/-- No number is nearer to `q` than the one with the code, and of two that are as near it is the
one with the even code. -/
structure IsNearest (L : Layout) (q : ℚ) (code : Nat) : Prop where
  nearest : ∀ other, |q - L.magnitude code| ≤ |q - L.magnitude other|
  even : ∀ other ≠ code, |q - L.magnitude code| = |q - L.magnitude other| → code % 2 = 0

/-- Where rounding begins to end at infinity. -/
def overflow (L : Layout) : ℚ :=
  (L.magnitude (L.infinityCode - 1) + L.magnitude L.infinityCode) / 2

/-- Rounding moves a fraction by half at most, and by half only to an even number. -/
theorem roundHalfEven_close (num : Nat) {den : Nat} (pos : 0 < den) :
    |(num : ℚ) / den - roundHalfEven num den| ≤ 1 / 2 ∧
      (|(num : ℚ) / den - roundHalfEven num den| = 1 / 2 → roundHalfEven num den % 2 = 0) := by
  have positive : (0 : ℚ) < den := by exact_mod_cast pos
  have rest := Nat.mod_lt num pos
  have parts : (num : ℚ) / den = (num / den : Nat) + (num % den : Nat) / (den : ℚ) := by
    rw [div_eq_iff positive.ne', add_mul, div_mul_cancel₀ _ positive.ne']
    exact_mod_cast (Nat.div_add_mod' num den).symm
  simp only [roundHalfEven, parts]
  generalize num / den = q
  generalize num % den = r at rest
  have nonneg : (0 : ℚ) ≤ r / den := div_nonneg (Nat.cast_nonneg r) positive.le
  have below_one : (r : ℚ) / den < 1 := (div_lt_one₀ positive).2 (by exact_mod_cast rest)
  split
  · next low =>
    have low : (r : ℚ) / den < 1 / 2 := by
      rw [div_lt_div_iff₀ positive two_pos]
      exact_mod_cast (by omega : r * 2 < 1 * den)
    rw [add_sub_cancel_left, abs_of_nonneg nonneg]
    exact ⟨low.le, fun tie => absurd tie low.ne⟩
  · split
    · next high =>
      have high : 1 / 2 < (r : ℚ) / den := by
        rw [div_lt_div_iff₀ two_pos positive]
        exact_mod_cast (by omega : 1 * den < r * 2)
      rw [Nat.cast_add_one, add_sub_add_left_eq_sub, abs_of_neg (by linarith)]
      exact ⟨by linarith, fun tie => absurd tie (by linarith)⟩
    · have half : (r : ℚ) / den = 1 / 2 := by
        rw [div_eq_div_iff positive.ne' two_ne_zero]
        exact_mod_cast (by omega : r * 2 = 1 * den)
      rw [half, Nat.cast_add, add_sub_add_left_eq_sub]
      rcases Nat.mod_two_eq_zero_or_one q with even | odd
      · rw [even]
        norm_num
        omega
      · rw [odd]
        norm_num
        omega

/-- Within half of one natural number, no other is nearer. -/
theorem abs_sub_le_of_close {x : ℚ} {r z : Nat} (close : |x - r| ≤ 1 / 2) (differs : z ≠ r) :
    |x - r| ≤ |x - z| ∧ (|x - r| = |x - z| → |x - r| = 1 / 2) := by
  have apart : (1 : ℚ) ≤ |(z : ℚ) - r| := by
    have apart : (1 : ℤ) ≤ |(z : ℤ) - r| := Int.one_le_abs (by omega)
    exact_mod_cast apart
  have around := abs_sub_le (z : ℚ) x r
  rw [abs_sub_comm (z : ℚ) x] at around
  exact ⟨by linarith, fun same => by linarith⟩

variable {L : Layout}

/-- A natural number that is not above is no nearer than the one within half. -/
theorem abs_sub_le_sub {x : ℚ} {r z : Nat} (close : |x - r| ≤ 1 / 2) (below : (z : ℚ) ≤ x) :
    |x - r| ≤ x - z := by
  have distance : |x - z| = x - z := abs_of_nonneg (sub_nonneg.2 below)
  by_cases equal : z = r
  · rw [← equal, distance]
  · rw [← distance]
    exact (abs_sub_le_of_close close equal).1

/-- A code is even just if its mantissa is. -/
theorem mod_two_code (wide : 0 < L.fractionBits) (k r : Nat) :
    (k * 2 ^ L.fractionBits + r) % 2 = r % 2 := by
  obtain ⟨p, width⟩ := Nat.exists_eq_add_one_of_ne_zero wide.ne'
  rw [width, Nat.pow_succ, ← Nat.mul_assoc]
  omega

theorem abs_mul_sub_mul {w : ℚ} (positive : 0 < w) (x y : ℚ) : |x * w - y * w| = |x - y| * w := by
  rw [← sub_mul, abs_mul, abs_of_pos positive]

/-- On the grid of a spacing no other number is nearer than the one within half, and those below the
grid are farther. -/
theorem abs_sub_magnitude_of_close {x : ℚ} {k r code : Nat} (close : |x - r| ≤ 1 / 2)
    (low : k = 0 ∨ 2 ^ L.fractionBits ≤ x)
    (here : L.magnitude (k * 2 ^ L.fractionBits + r) = r * 2 ^ (L.minExponent + k))
    (differs : code ≠ k * 2 ^ L.fractionBits + r) :
    |x - r| * 2 ^ (L.minExponent + k) ≤ |x * 2 ^ (L.minExponent + k) - L.magnitude code| ∧
      (|x - r| * 2 ^ (L.minExponent + k) = |x * 2 ^ (L.minExponent + k) - L.magnitude code| →
        |x - r| = 1 / 2) := by
  have spacing : (0 : ℚ) < 2 ^ (L.minExponent + k) := zpow_pos two_pos _
  obtain ⟨z, on_grid⟩ | ⟨shifted, below⟩ := L.on_grid_or_lt code k
  · have differs : z ≠ r := by
      rintro rfl
      exact differs (L.strictMono_magnitude.injective (on_grid.trans here.symm))
    obtain ⟨nearer, same⟩ := abs_sub_le_of_close close differs
    rw [on_grid, abs_mul_sub_mul spacing, mul_le_mul_iff_left₀ spacing, mul_left_inj' spacing.ne']
    exact ⟨nearer, same⟩
  · -- the least number that is spaced so is on the grid
    have full : ((2 ^ L.fractionBits : Nat) : ℚ) ≤ x := by exact_mod_cast low.resolve_left shifted
    have least : |x - r| ≤ x - 2 ^ L.fractionBits := by exact_mod_cast abs_sub_le_sub close full
    have farther : |x - r| * 2 ^ (L.minExponent + k) <
        |x * 2 ^ (L.minExponent + k) - L.magnitude code| := by
      calc
        |x - r| * 2 ^ (L.minExponent + k)
          ≤ (x - 2 ^ L.fractionBits) * 2 ^ (L.minExponent + k) :=
            mul_le_mul_of_nonneg_right least spacing.le
        _ = x * 2 ^ (L.minExponent + k) - 2 ^ L.fractionBits * 2 ^ (L.minExponent + k) :=
            sub_mul _ _ _
        _ < x * 2 ^ (L.minExponent + k) - L.magnitude code := by linarith
        _ ≤ |x * 2 ^ (L.minExponent + k) - L.magnitude code| := le_abs_self _
    exact ⟨farther.le, fun same => absurd same farther.ne⟩

/-- A fraction that is rounded on the grid of a spacing, on which its mantissa has as many bits as a
number has, is rounded to the nearest number. -/
theorem isNearest_of_close (wide : 0 < L.fractionBits) {x : ℚ} {k r : Nat}
    (close : |x - r| ≤ 1 / 2) (tie : |x - r| = 1 / 2 → r % 2 = 0)
    (low : k = 0 ∨ 2 ^ L.fractionBits ≤ x) (high : x < 2 ^ (L.fractionBits + 1)) :
    L.IsNearest (x * 2 ^ (L.minExponent + k)) (k * 2 ^ L.fractionBits + r) := by
  have bounds := abs_le.1 close
  have fits : r ≤ 2 ^ (L.fractionBits + 1) := by
    have less : (r : ℚ) < (2 ^ (L.fractionBits + 1) + 1 : Nat) := by
      push_cast
      linarith
    exact Nat.le_of_lt_succ (by exact_mod_cast less)
  have normal : k = 0 ∨ 2 ^ L.fractionBits ≤ r := by
    refine low.imp_right fun full => ?_
    have less : ((2 ^ L.fractionBits : Nat) : ℚ) < (r + 1 : Nat) := by
      push_cast
      linarith
    exact Nat.le_of_lt_succ (by exact_mod_cast less)
  have here := L.magnitude_shifted fits normal
  have distance : |x * 2 ^ (L.minExponent + k) - L.magnitude (k * 2 ^ L.fractionBits + r)| =
      |x - r| * 2 ^ (L.minExponent + k) := by
    rw [here, abs_mul_sub_mul (zpow_pos two_pos _)]
  constructor
  case nearest =>
    intro code
    by_cases same : code = k * 2 ^ L.fractionBits + r
    · rw [same]
    · rw [distance]
      exact (abs_sub_magnitude_of_close close low here same).1
  case even =>
    intro code differs same
    rw [distance] at same
    rw [mod_two_code wide]
    exact tie ((abs_sub_magnitude_of_close close low here differs).2 same)

theorem scale_eq (num den : Nat) (e : Int) :
    ((scale num den e).1 : ℚ) / (scale num den e).2 = num / den / 2 ^ e := by
  obtain ⟨k, rfl | rfl⟩ := e.eq_nat_or_neg
  · simp [scale, div_div]
  · simp [scale, mul_div_right_comm]

theorem scale_pos (num : Nat) {den : Nat} (pos : 0 < den) (e : Int) : 0 < (scale num den e).2 :=
  Nat.mul_pos pos (Nat.pow_pos two_pos)

/-- The numbers of bits tell a quotient up to a factor of four. -/
theorem log2_bounds {num den : Nat} (some_num : num ≠ 0) (some_den : den ≠ 0) :
    (2 : ℚ) ^ ((num.log2 : Int) - den.log2 - 1) ≤ num / den ∧
      (num : ℚ) / den < 2 ^ ((num.log2 : Int) - den.log2 + 1) := by
  have num_low : (2 : ℚ) ^ num.log2 ≤ num := by exact_mod_cast Nat.log2_self_le some_num
  have num_high : (num : ℚ) < 2 ^ (num.log2 + 1) := by exact_mod_cast Nat.lt_log2_self
  have den_low : (2 : ℚ) ^ den.log2 ≤ den := by exact_mod_cast Nat.log2_self_le some_den
  have den_high : (den : ℚ) < 2 ^ (den.log2 + 1) := by exact_mod_cast Nat.lt_log2_self
  have positive : (0 : ℚ) < den := by exact_mod_cast Nat.pos_of_ne_zero some_den
  constructor
  · calc
      (2 : ℚ) ^ ((num.log2 : Int) - den.log2 - 1)
        = 2 ^ num.log2 / 2 ^ (den.log2 + 1) := by
          rw [sub_sub, zpow_sub₀ two_ne_zero]
          rfl
      _ ≤ num / den := div_le_div₀ (Nat.cast_nonneg num) num_low positive den_high.le
  · calc
      (num : ℚ) / den
        < 2 ^ (num.log2 + 1) / 2 ^ den.log2 :=
          div_lt_div₀ num_high den_low (by positivity) (by positivity)
      _ = 2 ^ ((num.log2 : Int) - den.log2 + 1) := by
          rw [sub_add_eq_add_sub, zpow_sub₀ two_ne_zero]
          rfl

theorem two_pow_mul_zpow (n : Nat) (e : Int) : (2 : ℚ) ^ n * 2 ^ e = 2 ^ (n + e) := by
  rw [zpow_add₀ two_ne_zero, zpow_natCast]

/-- The exponent that leaves a fraction as many bits as a mantissa has is found from the numbers of
bits of its parts, and one comparison. -/
theorem exists_exponent {num den : Nat} (some_num : num ≠ 0) (some_den : den ≠ 0) :
    ∃ e, L.exponentFor num den = max L.minExponent e ∧
      2 ^ L.fractionBits * 2 ^ e ≤ (num : ℚ) / den ∧
      (num : ℚ) / den < 2 ^ (L.fractionBits + 1) * 2 ^ e := by
  obtain ⟨low, high⟩ := log2_bounds some_num some_den
  generalize guess : (num.log2 : Int) - den.log2 - L.fractionBits - 1 = e
  have test : (scale num den e).1 < (scale num den e).2 * 2 ^ (L.fractionBits + 1) ↔
      (num : ℚ) / den < 2 ^ (L.fractionBits + 1) * 2 ^ e := by
    have positive : (0 : ℚ) < (scale num den e).2 := by
      exact_mod_cast scale_pos num (Nat.pos_of_ne_zero some_den) e
    rw [← div_lt_iff₀ (zpow_pos two_pos e), ← scale_eq, div_lt_iff₀' positive]
    exact_mod_cast Iff.rfl
  have chosen : L.exponentFor num den = max L.minExponent
      (if (num : ℚ) / den < 2 ^ (L.fractionBits + 1) * 2 ^ e then e else e + 1) := by
    simp only [exponentFor, guess, Nat.pow_eq, test]
  by_cases fits : (num : ℚ) / den < 2 ^ (L.fractionBits + 1) * 2 ^ e
  · rw [if_pos fits] at chosen
    refine ⟨e, chosen, ?_, fits⟩
    have exponent : (L.fractionBits : Int) + e = num.log2 - den.log2 - 1 := by omega
    rw [two_pow_mul_zpow, exponent]
    exact low
  · rw [if_neg fits] at chosen
    rw [not_lt, two_pow_mul_zpow] at fits
    have exponent : (L.fractionBits : Int) + (e + 1) = (L.fractionBits + 1 : Nat) + e := by omega
    have exponent' : ((L.fractionBits + 1 : Nat) : Int) + (e + 1) = num.log2 - den.log2 + 1 := by
      omega
    refine ⟨e + 1, chosen, ?_, ?_⟩
    · rw [two_pow_mul_zpow, exponent]
      exact fits
    · rw [two_pow_mul_zpow, exponent']
      exact high

/-- At the exponent at which a fraction is rounded it has as many bits as a mantissa, or fewer if
that exponent is the least one. -/
theorem exponentFor_spec {num den : Nat} (some_num : num ≠ 0) (some_den : den ≠ 0) :
    L.minExponent ≤ L.exponentFor num den ∧
      (L.exponentFor num den = L.minExponent ∨
        2 ^ L.fractionBits ≤ (num : ℚ) / den / 2 ^ L.exponentFor num den) ∧
      (num : ℚ) / den / 2 ^ L.exponentFor num den < 2 ^ (L.fractionBits + 1) := by
  obtain ⟨e, chosen, low, high⟩ := L.exists_exponent some_num some_den
  rw [chosen, le_div_iff₀ (zpow_pos two_pos _), div_lt_iff₀ (zpow_pos two_pos _)]
  rcases le_total e L.minExponent with least | above
  · rw [max_eq_left least]
    refine ⟨le_refl _, .inl rfl, high.trans_le ?_⟩
    exact mul_le_mul_of_nonneg_left (zpow_le_zpow_right₀ one_le_two least) (by positivity)
  · rw [max_eq_right above]
    exact ⟨above, .inr low, high⟩

/-- What is found is the code of the nearest number, unless that would lie beyond infinity. -/
theorem exists_isNearest (wide : 0 < L.fractionBits) (num : Nat) {den : Nat} (some_den : den ≠ 0) :
    ∃ code, L.IsNearest (num / den) code ∧ L.nearest num den = min L.infinityCode code := by
  by_cases some_num : num = 0
  · refine ⟨0, ?_, ?_⟩
    · have zero := isNearest_of_close (L := L) wide (x := 0) (k := 0) (r := 0) (by simp)
        (fun _ => rfl) (.inl rfl) (by positivity)
      rw [zero_mul, Nat.zero_mul] at zero
      rw [some_num, Nat.cast_zero, zero_div]
      exact zero
    · rw [nearest, if_pos some_num, Nat.min_zero]
  · obtain ⟨least, low, high⟩ := L.exponentFor_spec some_num some_den
    obtain ⟨k, place⟩ := Int.le.dest least
    have field : (L.exponentFor num den - L.minExponent).toNat = k := by omega
    obtain ⟨close, tie⟩ :=
      roundHalfEven_close (scale num den (L.exponentFor num den)).1
        (scale_pos num (Nat.pos_of_ne_zero some_den) (L.exponentFor num den))
    rw [scale_eq] at close tie
    have rounded := isNearest_of_close (L := L) (k := k) wide close tie
      (low.imp_left (by omega)) high
    rw [place, div_mul_cancel₀ _ (zpow_pos two_pos _).ne'] at rounded
    refine ⟨_, rounded, ?_⟩
    rw [nearest, if_neg some_num]
    simp only [field, Nat.pow_eq]

/-- Infinity stands where the next power of two would. -/
theorem infinityCode_eq (wide : 2 ≤ L.exponentBits) :
    ∃ k : Nat, L.minExponent + k = 2 ^ (L.exponentBits - 1) - L.fractionBits - 1 ∧
      L.infinityCode = (k + 1) * 2 ^ L.fractionBits + 2 ^ L.fractionBits := by
  obtain ⟨w, width⟩ := Nat.exists_eq_add_of_le' wide
  obtain ⟨v, power⟩ := Nat.exists_eq_add_one_of_ne_zero (Nat.two_pow_pos w).ne'
  refine ⟨4 * v + 1, ?_, ?_⟩
  · rw [minExponent, width]
    show 2 - ((2 ^ (w + 1) : Nat) : Int) - _ + _ = 2 ^ (w + 1) - _ - 1
    rw [pow_succ, pow_succ, power]
    have power : (2 : Int) ^ w = v + 1 := by exact_mod_cast power
    push_cast
    omega
  · rw [infinityCode, width]
    show (2 ^ (w + 2) - 1) * 2 ^ L.fractionBits = _
    rw [← Nat.add_one_mul, Nat.pow_succ, Nat.pow_succ, power]
    congr 1
    omega

/-- Rounding ends at infinity from half the last spacing below the next power of two. -/
theorem overflow_eq (wide : 2 ≤ L.exponentBits) : L.overflow =
    2 ^ ((2 : Int) ^ (L.exponentBits - 1)) -
      2 ^ ((2 : Int) ^ (L.exponentBits - 1) - L.fractionBits - 2) := by
  obtain ⟨k, place, infinity⟩ := L.infinityCode_eq wide
  generalize (2 : Int) ^ (L.exponentBits - 1) = e at place
  have pos : 0 < 2 ^ L.fractionBits := Nat.two_pow_pos _
  have double : 2 ^ (L.fractionBits + 1) = 2 ^ L.fractionBits * 2 := pow_succ 2 _
  have last : L.infinityCode - 1 = k * 2 ^ L.fractionBits + (2 ^ (L.fractionBits + 1) - 1) := by
    rw [infinity, Nat.add_one_mul]
    omega
  have greatest : L.magnitude (L.infinityCode - 1) =
      (2 ^ (L.fractionBits + 1) - 1) * 2 ^ (e - L.fractionBits - 1) := by
    rw [last, L.magnitude_shifted (by omega) (.inr (by omega)), place,
      Nat.cast_pred (Nat.two_pow_pos _)]
    push_cast
    rfl
  have next : L.magnitude L.infinityCode = 2 ^ L.fractionBits * 2 ^ (e - L.fractionBits) := by
    have exponent : L.minExponent + (k + 1 : Nat) = e - L.fractionBits := by
      push_cast
      omega
    rw [infinity, L.magnitude_shifted (by omega) (.inr (Nat.le_refl _)), exponent]
    push_cast
    rfl
  have power : (2 : ℚ) ^ e = 2 ^ (L.fractionBits + 2) * 2 ^ (e - L.fractionBits - 2) := by
    rw [two_pow_mul_zpow]
    congr 1
    push_cast
    omega
  have doubled : (2 : ℚ) ^ (e - L.fractionBits - 1) = 2 ^ (e - L.fractionBits - 2) * 2 := by
    rw [← zpow_add_one₀ two_ne_zero]
    congr 1
    omega
  have again : (2 : ℚ) ^ (e - L.fractionBits) = 2 ^ (e - L.fractionBits - 1) * 2 := by
    rw [← zpow_add_one₀ two_ne_zero]
    congr 1
    omega
  rw [overflow, greatest, next, again, doubled, power]
  ring

/-- A fraction is rounded to a finite number as long as it is less than half a spacing beyond the
greatest one, whose code is odd. -/
theorem lt_infinityCode_iff (wide : 0 < L.fractionBits) (wide' : 2 ≤ L.exponentBits) {q : ℚ}
    {code : Nat} (h : L.IsNearest q code) : code < L.infinityCode ↔ q < L.overflow := by
  obtain ⟨last, behind, odd⟩ : ∃ last, L.infinityCode = last + 1 ∧ last % 2 = 1 := by
    obtain ⟨k, -, infinity⟩ := L.infinityCode_eq wide'
    rw [← Nat.add_one_mul] at infinity
    have even := mod_two_code wide (k + 1 + 1) 0
    rw [Nat.add_zero, ← infinity] at even
    have pos : 0 < L.infinityCode := by
      rw [infinity]
      positivity
    exact ⟨L.infinityCode - 1, by omega, by omega⟩
  rw [overflow, behind, Nat.add_sub_cancel, Nat.lt_succ_iff]
  have step := L.strictMono_magnitude (Nat.lt_succ_self last)
  constructor
  · intro finite
    have below := L.strictMono_magnitude.monotone finite
    by_contra far
    rw [not_lt] at far
    have nearer := h.nearest (last + 1)
    rw [abs_of_nonneg (by linarith)] at nearer
    rcases le_total (L.magnitude (last + 1)) q with beyond | between
    · rw [abs_of_nonneg (by linarith)] at nearer
      linarith
    · rw [abs_of_nonpos (by linarith)] at nearer
      obtain rfl : code = last := L.strictMono_magnitude.injective (by linarith)
      have tie := h.even (code + 1) (by omega)
      rw [abs_of_nonneg (by linarith), abs_of_nonpos (by linarith)] at tie
      have even := tie (by linarith)
      omega
  · intro near
    by_contra beyond
    have above := L.strictMono_magnitude.monotone (Nat.lt_of_not_le beyond)
    have nearer := h.nearest last
    rw [abs_of_neg (by linarith [above])] at nearer
    rcases le_total (L.magnitude last) q with between | below
    · rw [abs_of_nonneg (by linarith)] at nearer
      linarith
    · rw [abs_of_nonpos (by linarith)] at nearer
      linarith

end Layout

end ConfigTree.Binary
