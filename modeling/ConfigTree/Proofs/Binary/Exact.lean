import ConfigTree.Proofs.Binary.Integer
import Mathlib.Algebra.Order.Field.Rat
import Mathlib.Order.WithBot

/-!
# Exact values of doubles

A finite double is a fraction. By their fractions and the two infinities doubles are compared, and a
double becomes a 64-bit integer by dropping what is behind the point and stopping at the ends of
the range. The integer that a double equals is the one that is its fraction
(`toInt?_eq_some_iff`).
-/

namespace ConfigTree.Binary

/-- The fraction with a given sign, mantissa and exponent. -/
def fraction (negative : Bool) (mantissa : Nat) (exponent : Int) : ℚ :=
  (if negative then -1 else 1) * mantissa * (2 : ℚ) ^ exponent

/-- A fraction without what is behind the point. -/
def truncate (q : ℚ) : Int :=
  if q < 0 then q.ceil else q.floor

namespace Double

/-- The fraction that a finite double is. -/
def fraction? (x : Double) : Option ℚ :=
  match x.value with
  | .finite negative m e => some (fraction negative m e)
  | _ => none

/-- Where a double lies among the fractions and the infinities. -/
def place? (x : Double) : Option (WithBot (WithTop ℚ)) :=
  match x.value with
  | .nan => none
  | .infinite true => some ⊥
  | .infinite false => some ((⊤ : WithTop ℚ) : WithBot (WithTop ℚ))
  | .finite negative m e => some ((fraction negative m e : WithTop ℚ) : WithBot (WithTop ℚ))

/-- Whether one double is at most another; a not-a-number is neither below nor above anything. -/
def le (x y : Double) : Bool :=
  match x.place?, y.place? with
  | some p, some q => decide (p ≤ q)
  | _, _ => false

/-- Whether one double is less than another. -/
def lt (x y : Double) : Bool :=
  match x.place?, y.place? with
  | some p, some q => decide (p < q)
  | _, _ => false

/-- Whether nothing is behind the point of a double. -/
def isWhole (x : Double) : Bool :=
  match x.fraction? with
  | some q => q - truncate q == 0
  | none => false

/-- The 64-bit integer that a double is cut to: nothing behind the point is kept, an end of the
range stands for what lies beyond it, and zero for a not-a-number. -/
def toInt64 (x : Double) : Int64 :=
  match x.value with
  | .nan => 0
  | .infinite true => Int64.minValue
  | .infinite false => Int64.maxValue
  | .finite negative m e =>
    .ofInt (max (-0x8000000000000000) (min 0x7FFFFFFFFFFFFFFF (truncate (fraction negative m e))))

end Double

/-- The fraction as a quotient of natural numbers. -/
theorem fraction_eq (negative : Bool) (m : Nat) (e : Int) :
    fraction negative m e =
      (if negative then -1 else 1) * ((m * 2 ^ e.toNat : Nat) / (2 ^ (-e).toNat : Nat)) := by
  obtain ⟨k, rfl | rfl⟩ := e.eq_nat_or_neg
  · simp [fraction]
  · simp [fraction, div_eq_mul_inv]

/-- A quotient is an integer when nothing remains, and then it is that of the division. -/
theorem div_eq_intCast_iff {num den : Nat} (pos : 0 < den) {z : Int} :
    (num : ℚ) / den = z ↔ num % den = 0 ∧ ((num / den : Nat) : Int) = z := by
  have nonzero : (den : ℚ) ≠ 0 := by exact_mod_cast pos.ne'
  rw [div_eq_iff nonzero]
  constructor
  · intro h
    have product : (num : Int) = z * den := by exact_mod_cast h
    obtain ⟨c, rfl⟩ : den ∣ num := Int.natCast_dvd_natCast.1 (Dvd.intro_left z product.symm)
    refine ⟨Nat.mul_mod_right den c, ?_⟩
    rw [Nat.mul_div_cancel_left c pos]
    apply Int.eq_of_mul_eq_mul_right (Int.natCast_ne_zero.2 pos.ne')
    rw [← product, Nat.cast_mul, mul_comm]
  · rintro ⟨rest, rfl⟩
    have product : num = num / den * den := by
      rw [Nat.div_mul_cancel (Nat.dvd_of_mod_eq_zero rest)]
    exact_mod_cast product

theorem fraction_eq_intCast_iff {negative : Bool} {m : Nat} {e z : Int} :
    fraction negative m e = z ↔ (m * 2 ^ e.toNat) % 2 ^ (-e).toNat = 0 ∧
      (if negative then -((m * 2 ^ e.toNat / 2 ^ (-e).toNat : Nat) : Int)
        else (m * 2 ^ e.toNat / 2 ^ (-e).toNat : Nat)) = z := by
  have pos : 0 < 2 ^ (-e).toNat := Nat.pow_pos (by decide)
  rw [fraction_eq]
  cases negative with
  | false =>
    rw [if_neg Bool.false_ne_true, one_mul, if_neg Bool.false_ne_true]
    exact div_eq_intCast_iff pos
  | true =>
    rw [if_pos rfl, neg_one_mul, if_pos rfl, neg_eq_iff_eq_neg, neg_eq_iff_eq_neg]
    exact_mod_cast div_eq_intCast_iff pos

theorem truncate_intCast (z : Int) : truncate (z : ℚ) = z := by
  unfold truncate
  split
  · exact Rat.ceil_intCast z
  · exact Rat.floor_intCast z

namespace Double

/-- A double equals an integer when that integer is its fraction. -/
theorem toInt?_eq_some_iff {x : Double} {z : Int} :
    x.toInt? = some z ↔ x.fraction? = some (z : ℚ) := by
  unfold toInt? fraction?
  cases x.value with
  | nan => simp
  | infinite negative => simp
  | finite negative m e =>
    rw [Option.some_inj, fraction_eq_intCast_iff]
    simp

theorem isWhole_iff {x : Double} : x.isWhole = true ↔ ∃ z : Int, x.fraction? = some (z : ℚ) := by
  unfold isWhole
  cases x.fraction? with
  | none => simp
  | some q =>
    simp only [beq_iff_eq, sub_eq_zero, Option.some_inj]
    constructor
    · intro whole
      exact ⟨truncate q, whole⟩
    · rintro ⟨z, rfl⟩
      rw [truncate_intCast]

theorem fraction?_eq_some_iff {x : Double} {q : ℚ} :
    x.fraction? = some q ↔
      ∃ negative m e, x.value = .finite negative m e ∧ fraction negative m e = q := by
  unfold fraction?
  cases x.value <;> simp

theorem place?_of_fraction? {x : Double} {q : ℚ} (h : x.fraction? = some q) :
    x.place? = some ((q : WithTop ℚ) : WithBot (WithTop ℚ)) := by
  obtain ⟨negative, m, e, meaning, rfl⟩ := fraction?_eq_some_iff.1 h
  rw [place?, meaning]

section Order

variable {x y : Double} {p q : ℚ}

theorem le_iff (hx : x.fraction? = some p) (hy : y.fraction? = some q) : x.le y = true ↔ p ≤ q := by
  simp [le, place?_of_fraction? hx, place?_of_fraction? hy]

theorem lt_iff (hx : x.fraction? = some p) (hy : y.fraction? = some q) : x.lt y = true ↔ p < q := by
  simp [lt, place?_of_fraction? hx, place?_of_fraction? hy]

end Order

/-- An integer of the range is cut to itself. -/
theorem toInt64_of_fraction? {x : Double} {z : Int} (h : x.fraction? = some (z : ℚ))
    (low : -2 ^ 63 ≤ z) (high : z < 2 ^ 63) : x.toInt64 = .ofInt z := by
  obtain ⟨negative, m, e, meaning, value⟩ := fraction?_eq_some_iff.1 h
  rw [toInt64, meaning]
  simp only [value, truncate_intCast]
  congr 1
  omega

end Double

end ConfigTree.Binary
