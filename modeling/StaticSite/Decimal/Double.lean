/-!
Double-precision numbers as exact values. A finite one is a sign and a whole number of units of
2⁻¹⁰⁷⁴, the distance between the smallest two. `Double.ofDecimal` takes a decimal number to the
nearest double.
-/
namespace StaticSite.Decimal

-- A double-precision number. The magnitude of a finite one is `significand * 2 ^ shift` units;
-- `significand` stays below `2 ^ 53`, and reaches `2 ^ 52` unless `shift` is zero.
inductive Double where
  | finite (negative : Bool) (significand shift : Nat)
  | infinite (negative : Bool)
  | nan
  deriving DecidableEq, Repr

namespace Double

-- The number of units in one.
def unitsPerOne : Nat :=
  1 <<< 1074

-- `num / den`, rounded to the nearest number, and halfway to the even one.
def roundDiv (num den : Nat) : Nat :=
  let q := num / den
  let r := num % den
  if 2 * r < den ∨ (2 * r = den ∧ q % 2 = 0) then q else q + 1

-- The double nearest to `num / den` in magnitude.
def ofRatio (negative : Bool) (num den : Nat) : Double :=
  let units := num * unitsPerOne
  let shift := (units / den).log2 - 52
  let significand := roundDiv units (den <<< shift)
  -- Rounding may reach the next power of two.
  let (significand, shift) :=
    if significand = 1 <<< 53 then (1 <<< 52, shift + 1) else (significand, shift)
  if 2045 < shift then infinite negative else finite negative significand shift

-- The double nearest to `digits * 10 ^ exponent` in magnitude.
def ofDecimal (negative : Bool) (digits : Nat) (exponent : Int) : Double :=
  -- Outside these bounds no power of ten has to be computed.
  let magnitude := (digits.log2 : Int) * 3 / 10 + exponent
  if digits = 0 ∨ magnitude < -400 then finite negative 0 0
  else if 400 < magnitude then infinite negative
  else ofRatio negative (digits * Nat.pow 10 exponent.toNat) (Nat.pow 10 (-exponent).toNat)

def isNegative : Double → Bool
  | finite negative _ _ | infinite negative => negative
  | nan => false

def isFinite : Double → Bool
  | finite .. => true
  | _ => false

-- Equality as numbers: the two zeros are equal, and so are all that are not numbers.
def sameNumber : Double → Double → Bool
  | finite _ 0 _, finite _ 0 _ => true
  | a, b => a == b

theorem sameNumber_self (a : Double) : a.sameNumber a := by
  unfold sameNumber
  split <;> simp

-- A quotient is rounded to within half a unit.
theorem roundDiv_near {num den : Nat} (h : 0 < den) :
    2 * num ≤ 2 * (roundDiv num den * den) + den ∧
      2 * (roundDiv num den * den) ≤ 2 * num + den := by
  have hm := Nat.div_add_mod num den
  have hr := Nat.mod_lt num h
  have hc := Nat.mul_comm den (num / den)
  unfold roundDiv
  simp only
  split
  · omega
  · rw [Nat.add_mul]; omega

end Double

end StaticSite.Decimal
