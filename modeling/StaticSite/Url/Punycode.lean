/-!
Punycode: the characters of a domain label in ASCII. The basic characters stand first, and behind
them, for every other character in ascending order, how far on from the one before it is put in.
-/
namespace StaticSite.Url.Punycode

def digitChar (n : Nat) : Char :=
  .ofNat (if n < 26 then n + 97 else n - 26 + 48)

def digitValue? (c : Char) : Option Nat :=
  if c.isLower then some (c.toNat - 97)
  else if c.isUpper then some (c.toNat - 65)
  else if c.isDigit then some (c.toNat - 48 + 26)
  else none

-- How far the thresholds of the next number are shifted, after a distance of `delta`.
def adapt (delta points : Nat) (first : Bool) : Nat :=
  let delta := if first then delta / 700 else delta / 2
  go 0 16 (delta + delta / points)
where
  go (k : Nat) : Nat → Nat → Nat
  | 0, delta => k + 36 * delta / (delta + 38)
  | n + 1, delta =>
    if 455 < delta then go (k + 36) n (delta / 35) else k + 36 * delta / (delta + 38)

def threshold (bias k : Nat) : Nat :=
  if k ≤ bias then 1 else min 26 (k - bias)

-- The digits of a distance, the lowest first.
def digits (bias : Nat) : Nat → Nat → Nat → List Char
  | 0, _, _ => []
  | n + 1, k, q =>
    let t := threshold bias k
    if q < t then [digitChar q]
    else digitChar (t + (q - t) % (36 - t)) :: digits bias n (k + 36) ((q - t) / (36 - t))

structure State where
  bias : Nat := 72
  delta : Nat := 0
  handled : Nat
  first : Bool := true
  output : List Char

-- Passes one character of the label while those equal to `n` are put in.
def State.pass (n : Nat) (s : State) (c : Char) : State :=
  if c.toNat < n then { s with delta := s.delta + 1 }
  else if c.toNat = n then
    { bias := adapt s.delta (s.handled + 1) s.first, delta := 0, handled := s.handled + 1,
      first := false, output := s.output ++ digits s.bias 64 36 s.delta }
  else s

-- Puts in the characters from `n` on.
def encodeFrom (cs : List Char) : List Nat → Nat → State → State
  | [], _, s => s
  | next :: rest, n, s =>
    let s := { s with delta := s.delta + (next - n) * (s.handled + 1) }
    let s := cs.foldl (State.pass next) s
    encodeFrom cs rest (next + 1) { s with delta := s.delta + 1 }

def encode (cs : List Char) : List Char :=
  let basic := cs.filter (·.toNat < 128)
  let others := ((cs.map Char.toNat).filter (128 ≤ ·)).mergeSort.eraseDups
  let start := if basic.isEmpty then [] else basic ++ ['-']
  (encodeFrom cs others 128 { handled := basic.length, output := start }).output

-- Reads one distance: the digits of a number, added to `i`.
def distance (bias : Nat) : Nat → Nat → Nat → List Char → Option (Nat × List Char)
  | _, _, _, [] => none
  | k, i, w, c :: rest => do
    let digit ← digitValue? c
    let i := i + digit * w
    let t := threshold bias k
    if digit < t then some (i, rest) else distance bias (k + 36) i (w * (36 - t)) rest

-- Puts characters into `output`, each as far on as its distance says.
def decodeFrom : Nat → Nat → Nat → Nat → Bool → List Char → List Char → Option (List Char)
  | _, _, _, _, _, output, [] => some output
  | 0, _, _, _, _, _, _ => none
  | fuel + 1, n, i, bias, first, output, cs => do
    let (next, rest) ← distance bias 36 i 1 cs
    let size := output.length + 1
    let n := n + next / size
    if !(n.isValidChar : Bool) then none
    let at' := next % size
    decodeFrom fuel n (at' + 1) (adapt (next - i) size first) false
      (output.take at' ++ .ofNat n :: output.drop at') rest

def decode? (cs : List Char) : Option (List Char) :=
  let tail := (cs.reverse.takeWhile (· ≠ '-')).reverse
  let basic := cs.take (cs.length - tail.length - 1)
  let tail := if basic.isEmpty ∧ cs.head? ≠ some '-' then cs else tail
  decodeFrom (tail.length + 1) 128 0 72 true basic tail

end StaticSite.Url.Punycode
