import StaticSite.Decimal.Double
/-!
The shortest decimal that reads back as a given double: of all decimal grids, the coarsest with a
point between the neighbours of the number, and of its points there the nearest.
-/
namespace StaticSite.Decimal

-- The number `digits * 10 ^ exponent`.
structure Scientific where
  digits : Nat
  exponent : Int
  deriving DecidableEq, Repr

-- Which of two equally near decimals is taken.
inductive Tie where
  | up
  | toEven

namespace Shortest

-- The numbers that read back as one double, in quarters of a unit: all between `low` and `high`,
-- and these two as well if `closed`.
structure Interval where
  low : Nat
  value : Nat
  high : Nat
  closed : Bool

namespace Interval

def ofFinite (significand shift : Nat) : Interval where
  value := (4 * significand) <<< shift
  high := (4 * significand + 2) <<< shift
  -- Below a power of two the doubles lie twice as close.
  low := (4 * significand - if significand = 1 <<< 52 ∧ 0 < shift then 1 else 2) <<< shift
  closed := significand % 2 = 0

-- Whether `num / den` quarters of a unit lie in the interval.
def contains (i : Interval) (num den : Nat) : Bool :=
  if i.closed then i.low * den ≤ num && num ≤ i.high * den
  else i.low * den < num && num < i.high * den

-- The nearest multiple of `10 ^ exponent` in the interval, of the two beside the value.
def nearest? (i : Interval) (tie : Tie) (exponent : Int) : Option Nat :=
  let step := Nat.pow 10 exponent.toNat * (4 * Double.unitsPerOne)
  let den := Nat.pow 10 (-exponent).toNat
  let below := i.value * den / step
  let above := below + 1
  match i.contains (below * step) den, i.contains (above * step) den with
  | false, false => none
  | true, false => some below
  | false, true => some above
  | true, true =>
    let down := i.value * den - below * step
    let up := above * step - i.value * den
    if down < up then some below
    else if up < down then some above
    else match tie with
      | .up => some above
      | .toEven => some (if below % 2 = 0 then below else above)

-- The power of ten above the value.
def topExponent (i : Interval) : Int :=
  (Nat.toDigits 10 (i.value * Nat.pow 10 400 / (4 * Double.unitsPerOne))).length - 400

end Interval

def dropZeros (s : Scientific) : Nat → Scientific
  | 0 => s
  | n + 1 =>
    if s.digits ≠ 0 ∧ s.digits % 10 = 0 then dropZeros ⟨s.digits / 10, s.exponent + 1⟩ n else s

-- Tries grids from the coarsest on; seventeen digits always suffice.
def search (i : Interval) (tie : Tie) (exponent : Int) : Nat → Scientific
  | 0 => ⟨0, 0⟩
  | n + 1 => match i.nearest? tie exponent with
    | some digits => dropZeros ⟨digits, exponent⟩ 18
    | none => search i tie (exponent - 1) n

end Shortest

-- The shortest decimal that reads back as the finite double `significand * 2 ^ shift` units.
def shortest (tie : Tie) (significand shift : Nat) : Scientific :=
  if significand = 0 then ⟨0, 0⟩
  else
    let i := Shortest.Interval.ofFinite significand shift
    Shortest.search i tie (i.topExponent - 1) 20

theorem shortest_zero (tie : Tie) (shift : Nat) : shortest tie 0 shift = ⟨0, 0⟩ :=
  rfl

end StaticSite.Decimal
