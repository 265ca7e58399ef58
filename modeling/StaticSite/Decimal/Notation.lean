import StaticSite.Decimal.Shortest
/-!
Two ways to write a double: plainly, with all its zeros, and with an exponent where the number is
very large or very small.
-/
namespace StaticSite.Decimal

def zeros (n : Nat) : String :=
  .ofList (List.replicate n '0')

namespace Scientific

-- Writes the number without an exponent; a whole number has no point.
def plain (s : Scientific) : String :=
  let digits := toString s.digits
  if 0 ≤ s.exponent then
    if s.digits = 0 then "0" else digits ++ zeros s.exponent.toNat
  else
    let places := (-s.exponent).toNat
    if places < digits.length then
      .ofList (digits.toList.take (digits.length - places)) ++ "." ++
        .ofList (digits.toList.drop (digits.length - places))
    else "0." ++ zeros (places - digits.length) ++ digits

-- Writes the number plainly if the point falls among its first sixteen digits or at most four zeros
-- before them, and else with one digit before the point and an exponent. A whole number keeps one
-- place, unless it has an exponent.
def mixed (s : Scientific) : String :=
  let digits := toString s.digits
  let point := (digits.length : Int) + s.exponent
  if s.digits = 0 then "0.0"
  else if 0 ≤ s.exponent ∧ point ≤ 16 then s.plain ++ ".0"
  else if -5 < point ∧ point ≤ 16 then s.plain
  else
    let mark := "e" ++ toString (point - 1)
    match digits.toList with
    | [d] => String.singleton d ++ mark
    | d :: ds => String.singleton d ++ "." ++ .ofList ds ++ mark
    | [] => mark

end Scientific

namespace Double

private def spell (write : Scientific → String) (tie : Tie) : Double → String
  | nan => ".nan"
  | infinite negative => if negative then "-.inf" else ".inf"
  | finite negative significand shift =>
    (if negative then "-" else "") ++ write (shortest tie significand shift)

-- The number written plainly: the value of a placeholder.
def plainText : Double → String :=
  spell Scientific.plain .up

-- The number as it stands in a sequence or a mapping.
def mixedText : Double → String :=
  spell Scientific.mixed .toEven

end Double

end StaticSite.Decimal
