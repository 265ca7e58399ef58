import StaticSite.Url.Domain
/-!
Hosts: domains, addresses of four or sixteen octets, and for schemes of no special kind any text.
-/
namespace StaticSite.Url

inductive Host where
  | empty
  | domain (name : List Char)
  | four (address : Nat)
  | six (groups : List Nat)
  | opaqueName (name : List Char)
  deriving DecidableEq, Repr

namespace Host

-- Reads a number in base sixteen, eight or ten, as its beginning tells.
def number? (cs : List Char) : Option Nat :=
  match cs with
  | [] => none
  | '0' :: 'x' :: [] | '0' :: 'X' :: [] => some 0
  | '0' :: 'x' :: ds | '0' :: 'X' :: ds => Text.ofDigits? 16 ds
  | '0' :: d :: ds => Text.ofDigits? 8 (d :: ds)
  | ds => Text.ofDigits? 10 ds

-- The labels of a domain without the empty one that a dot at the end leaves.
def labels (name : List Char) : List (List Char) :=
  let parts := name.splitOn '.'
  if 1 < parts.length ∧ parts.getLast? = some [] then parts.dropLast else parts

-- Whether the last label is a number, so that the host has to be an address.
def endsInNumber (name : List Char) : Bool :=
  match (labels name).getLast? with
  | some [] | none => false
  | some label => label.all Char.isDigit || (number? label).isSome

-- Reads an address of up to four numbers, the last of which fills what is left.
def four? (name : List Char) : Option Nat := do
  let parts := labels name
  if 4 < parts.length then none
  let numbers ← parts.mapM number?
  let last ← numbers.getLast?
  let front := numbers.dropLast
  if front.any (255 < ·) ∨ 1 <<< (8 * (4 - front.length)) ≤ last then none
  some (front.zipIdx.foldl (fun sum (n, i) => sum + n <<< (8 * (3 - i))) last)

-- Reads four decimal numbers up to 255 at the end of a longer address, as two groups.
def embedded? (cs : List Char) : Option (List Nat) := do
  let numbers ← (cs.splitOn '.').mapM fun part =>
    if part.length ≤ 3 ∧ (part.length = 1 ∨ part.head? ≠ some '0') then
      (Text.ofDigits? 10 part).filter (· ≤ 255)
    else none
  match numbers with
  | [a, b, c, d] => some [a * 256 + b, c * 256 + d]
  | _ => none

-- Reads groups parted by colons; the last may be four decimal numbers.
def groups? (cs : List Char) : Option (List Nat) :=
  if cs.isEmpty then some [] else go (cs.splitOn ':')
where
  go : List (List Char) → Option (List Nat)
  | [] => some []
  | [part] => if part.contains '.' then embedded? part else (hex? part).map fun n => [n]
  | part :: rest => return (← hex? part) :: (← go rest)
  hex? (part : List Char) : Option Nat :=
    if part.length ≤ 4 then Text.ofDigits? 16 part else none

-- The places where two colons stand.
def splitGap? : List Char → Option (List Char × List Char)
  | ':' :: ':' :: rest => some ([], rest)
  | c :: rest => (splitGap? rest).map fun (a, b) => (c :: a, b)
  | [] => none

-- Reads an address of eight groups, of which one run of zeros may be left out.
def six? (cs : List Char) : Option (List Nat) :=
  match splitGap? cs with
  | none => (groups? cs).filter (·.length = 8)
  | some (front, back) => do
    if front.contains '.' then none
    let a ← groups? front
    let b ← groups? back
    if a.length + b.length ≤ 7 then
      some (a ++ List.replicate (8 - a.length - b.length) 0 ++ b)
    else none

-- Characters that no host of any scheme may hold.
def isForbidden (c : Char) : Bool :=
  "\x00\t\n\r #/:<>?@[\\]^|".toList.contains c

-- Reads a host; `special` tells that it has to be a domain or an address.
def ofText? (special : Bool) (cs : List Char) : Option Host :=
  match cs with
  | '[' :: rest =>
    if rest.getLast? = some ']' then (six? rest.dropLast).map six else none
  | _ =>
    if !special then
      if cs.any isForbidden then none
      else some (if cs.isEmpty then empty else opaqueName (encode isControl cs))
    else do
      let name ← asciiDomain? (← decode? cs)
      if endsInNumber name then (four? name).map four else some (domain name)

-- The longest run of at least two zeros: where it begins and how long it is.
def longestGap (groups : List Nat) : Option (Nat × Nat) :=
  let runs := (List.range groups.length).map fun i =>
    (i, ((groups.drop i).takeWhile (· == 0)).length)
  runs.foldl (fun best r =>
    if 1 < r.2 ∧ (best.all fun b => b.2 < r.2) then some r else best) none

def hexText (n : Nat) : List Char :=
  Nat.toDigits 16 n

def sixText (groups : List Nat) : List Char :=
  let join (gs : List Nat) := [':'].intercalate (gs.map hexText)
  match longestGap groups with
  | none => join groups
  | some (i, n) => join (groups.take i) ++ "::".toList ++ join (groups.drop (i + n))

def toText : Host → List Char
  | empty => []
  | domain name | opaqueName name => name
  | four n => ['.'].intercalate
      ([n >>> 24, (n >>> 16) % 256, (n >>> 8) % 256, n % 256].map (Nat.toDigits 10))
  | six groups => '[' :: (sixText groups ++ [']'])

end Host

end StaticSite.Url
