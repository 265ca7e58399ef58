/-!
How alike two words are, on a scale from zero to one: the similarity of Jaro, raised for every
character of a common start.
-/
namespace StaticSite.Text

-- A ratio of natural numbers.
structure Ratio where
  num : Nat
  den : Nat
  deriving DecidableEq, Repr

namespace Ratio

def lt (p q : Ratio) : Bool :=
  p.num * q.den < q.num * p.den

theorem lt_irrefl (p : Ratio) : p.lt p = false := by
  simp [lt]

end Ratio

-- The first place of `c` among the places `lo` to `hi` that are not taken.
def findPlace (c : Char) (lo hi : Nat) (taken : List Nat) (b : List Char) : Option Nat :=
  b.zipIdx.findSome? fun (d, j) =>
    if lo ≤ j ∧ j ≤ hi ∧ d = c ∧ j ∉ taken then some j else none

-- The places in `b` of the characters that match those of `a`, within `range` places of each other;
-- the last one first.
def matchPlaces (a b : List Char) (range : Nat) : List Nat :=
  a.zipIdx.foldl (fun taken (c, i) =>
    (findPlace c (i - range) (i + range) taken b).toList ++ taken) []

-- How often a place stands before the place in front of it.
def countTurns : List Nat → Nat
  | j :: i :: rest => (if j < i then 1 else 0) + countTurns (i :: rest)
  | _ => 0

def jaro (a b : List Char) : Ratio :=
  let places := matchPlaces a b (max a.length b.length / 2 - 1)
  let m := places.length
  if m = 0 then ⟨0, 1⟩
  else
    let turns := countTurns places
    ⟨m * m * b.length + m * m * a.length + (m - turns) * a.length * b.length,
      3 * a.length * b.length * m⟩

def commonStart : List Char → List Char → Nat
  | c :: cs, d :: ds => if c = d then commonStart cs ds + 1 else 0
  | _, _ => 0

def similarity (a b : String) : Ratio :=
  let r := jaro a.toList b.toList
  let n := commonStart a.toList b.toList
  ⟨10 * r.num + n * (r.den - r.num), 10 * r.den⟩

-- The word that is most like a given one, if one is more like it than four fifths. Of equals the
-- first counts.
def mostSimilar? (word : String) (words : List String) : Option String :=
  let best := words.foldl (fun best w =>
    let r := similarity word w
    match best with
    | none => if Ratio.lt ⟨4, 5⟩ r then some (r, w) else none
    | some (s, _) => if s.lt r then some (r, w) else best) none
  best.map (·.2)

end StaticSite.Text
