/-!
Digits and the numbers they spell. `digit?` reads one character in a base up to sixteen,
`ofDigits?` a whole text. Main statement: a text of digits is read as the number they spell
(`ofDigits?_concat`).
-/
namespace StaticSite.Text

-- The value of a hexadecimal digit, in either case.
def hexDigit? (c : Char) : Option Nat :=
  if '0' ≤ c ∧ c ≤ '9' then some (c.toNat - '0'.toNat)
  else if 'a' ≤ c ∧ c ≤ 'f' then some (c.toNat - 'a'.toNat + 10)
  else if 'A' ≤ c ∧ c ≤ 'F' then some (c.toNat - 'A'.toNat + 10)
  else none

-- The value of a digit in `base`, which is at most sixteen.
def digit? (base : Nat) (c : Char) : Option Nat :=
  (hexDigit? c).filter (· < base)

def isHexDigit (c : Char) : Bool :=
  (hexDigit? c).isSome

-- The digit that spells `n`, which is below sixteen, with small letters.
def hexChar (n : Nat) : Char :=
  Nat.digitChar n

-- The number that `cs` spells in `base`; nothing if `cs` is empty or holds another character.
def ofDigits? (base : Nat) : List Char → Option Nat
  | [] => none
  | cs => cs.foldl (fun n c => n.bind fun n => (digit? base c).map (n * base + ·)) (some 0)

-- The number that the hexadecimal digits of `cs` spell; every other character counts as zero.
def ofHex (cs : List Char) : Nat :=
  cs.foldl (fun n c => n * 16 + (hexDigit? c).getD 0) 0

theorem ofDigits?_concat {base n : Nat} {cs : List Char} {c : Char} {d : Nat}
    (h : ofDigits? base cs = some n) (hd : digit? base c = some d) :
    ofDigits? base (cs ++ [c]) = some (n * base + d) := by
  cases cs with
  | nil => simp [ofDigits?] at h
  | cons x xs =>
    rw [List.cons_append]
    simp only [ofDigits?, ← List.cons_append, List.foldl_append] at h ⊢
    simp [h, hd]

end StaticSite.Text
