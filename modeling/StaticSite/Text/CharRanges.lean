import StaticSite.Text.Digits
/-!
Sets of characters, written as ranges of code points. The tables of the character classes are
texts of hexadecimal ranges, which `CharRanges.ofText` reads.
-/
namespace StaticSite.Text

-- A set of characters: inclusive ranges of code points, in ascending order.
structure CharRanges where
  ranges : List (Nat × Nat)

namespace CharRanges

def contains (t : CharRanges) (c : Char) : Bool :=
  t.ranges.any fun r => r.1 ≤ c.toNat && c.toNat ≤ r.2

-- Reads ranges such as `30-39 5F`, each a code point or two, parted by single blanks.
def ofText (s : String) : CharRanges where
  ranges := (s.toList.splitOn ' ').filterMap fun range =>
    match (range.splitOn '-').map ofHex with
    | [lo] => some (lo, lo)
    | [lo, hi] => some (lo, hi)
    | _ => none

-- Reads ranges from several lines.
def ofLines (lines : List String) : CharRanges where
  ranges := lines.flatMap (ofText · |>.ranges)

theorem contains_iff {t : CharRanges} {c : Char} :
    t.contains c ↔ ∃ r ∈ t.ranges, r.1 ≤ c.toNat ∧ c.toNat ≤ r.2 := by
  simp [contains]

end CharRanges

end StaticSite.Text
