import StaticSite.Text.Digits
import StaticSite.Yaml.Error
import StaticSite.Yaml.Value
/-!
What a scalar without quotes means: null, a truth value, a number or, failing these, its own text.
-/
namespace StaticSite.Yaml.Plain

open Text
open Decimal (Double)

def isNull (s : String) : Bool :=
  s == "~" || s == "null"

-- A sign and what follows it; a text without a sign is positive.
def splitSign : List Char → Bool × List Char
  | '-' :: cs => (true, cs)
  | '+' :: cs => (false, cs)
  | cs => (false, cs)

-- Whether `cs` has digits alone and begins with a needless zero, which makes it a text.
def hasNeedlessZero (cs : List Char) : Bool :=
  match (splitSign cs).2 with
  | '0' :: d :: ds => (d :: ds).all Char.isDigit
  | _ => false

-- The integers that a machine word holds which has a sign.
def fitsSignedWord (n : Int) : Bool :=
  -0x8000000000000000 ≤ n && n ≤ 0x7FFFFFFFFFFFFFFF

-- The integers that a value can hold: those of a machine word with or without a sign.
def fitsWord (n : Int) : Bool :=
  -0x8000000000000000 ≤ n && n ≤ 0xFFFFFFFFFFFFFFFF

-- The integers that are read as such, though a value may be unable to hold them.
def fitsTwoWords (n : Int) : Bool :=
  -0x80000000000000000000000000000000 ≤ n && n ≤ 0xFFFFFFFFFFFFFFFFFFFFFFFFFFFFFFFF

-- The digits behind the mark of a base other than ten.
def splitBase? : List Char → Option (Nat × List Char)
  | '0' :: 'x' :: ds => some (16, ds)
  | '0' :: 'o' :: ds => some (8, ds)
  | '0' :: 'b' :: ds => some (2, ds)
  | _ => none

-- The integer that `cs` spells. In a base other than ten it is a text if it is too large.
def integer? (cs : List Char) : Option Int :=
  let (negative, ds) := splitSign cs
  let signed (n : Nat) : Int := if negative then -n else n
  match splitBase? ds with
  | some (base, ds) => ((ofDigits? base ds).map signed).filter fitsWord
  | none =>
    if hasNeedlessZero ds then none else ((ofDigits? 10 ds).map signed).filter fitsTwoWords

-- Reads digits, with a point among them or not, as a number and the count of places.
def mantissa? (cs : List Char) : Option (Nat × Nat) :=
  let whole := cs.takeWhile (· ≠ '.')
  let places := (cs.dropWhile (· ≠ '.')).tail
  (ofDigits? 10 (whole ++ places)).map (·, places.length)

-- The double that `cs` spells in digits, with a point or an exponent or without.
def decimal? (negative : Bool) (cs : List Char) : Option Double := do
  let isMark (c : Char) := c == 'e' || c == 'E'
  let (digits, places) ← mantissa? (cs.takeWhile (!isMark ·))
  let exponent ← match cs.dropWhile (!isMark ·) with
    | [] => some 0
    | _ :: ds =>
      let (negative, ds) := splitSign ds
      (ofDigits? 10 ds).map fun n => if negative then -(n : Int) else n
  return Double.ofDecimal negative digits (exponent - places)

-- The double that `s` spells in digits; one that is too large counts as infinite.
def number? (cs : List Char) : Option Double :=
  let (negative, ds) := splitSign cs
  decimal? negative ds

-- The double that `s` means.
def float? (s : String) : Option Double :=
  if [".inf", ".Inf", ".INF", "+.inf", "+.Inf", "+.INF"].contains s then some (.infinite false)
  else if ["-.inf", "-.Inf", "-.INF"].contains s then some (.infinite true)
  else if [".nan", ".NaN", ".NAN"].contains s then some .nan
  else (number? s.toList).filter Double.isFinite

-- The value of a plain scalar.
def value (s : String) : Except Error Value :=
  if isNull s then .ok .null
  else if s = "true" then .ok (.bool true)
  else if s = "false" then .ok (.bool false)
  else match integer? s.toList with
    | some n => if fitsWord n then .ok (.int n) else .error .numberTooLarge
    | none =>
      if hasNeedlessZero s.toList then .ok (.string s)
      else match float? s with
        | some x => .ok (.float x)
        | none => .ok (.string s)

end StaticSite.Yaml.Plain
