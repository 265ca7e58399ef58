import StaticSite.Markdown.Source
/-!
Addresses in angle brackets, which are links to themselves.
-/
namespace StaticSite.Markdown.Autolink

variable (s : Source)

-- Where the scheme of an address ends, behind its colon. It has between two and thirty-two
-- characters and starts with a letter.
def scheme? (i : Nat) : Option Nat :=
  let length := s.countWhile (fun c => c.isAlphanum || ['.', '-', '+'].contains c) i
  if (s.get? i).any Char.isAlpha ∧ 2 ≤ length ∧ length ≤ 32 ∧ s.get? (i + length) = some ':' then
    some (i + length + 1)
  else none

-- Where the address of a resource ends, in front of the closing bracket.
def resource? (i : Nat) : Option Nat := do
  let start ← scheme? s i
  let stop := start + s.countWhile (fun c => ' ' < c ∧ c ≠ '<' ∧ c ≠ '>') start
  if s.get? stop = some '>' then some stop else none

def isMailboxChar (c : Char) : Bool :=
  c.isAlphanum || ".!#$%&'*+/=?^_\x60\x7b|\x7d~-".contains c

-- Where a domain of labels ends. A label has at most sixty-three characters and does not start or
-- end with a hyphen.
def domain? : Nat → Nat → Option Nat
  | 0, _ => none
  | n + 1, i =>
    let length := s.countWhile (fun c => c.isAlphanum || c == '-') i
    if length = 0 ∨ length > 63 ∨ s.get? i = some '-' ∨ s.get? (i + length - 1) = some '-' then
      none
    else if s.get? (i + length) = some '.' then domain? n (i + length + 1)
    else some (i + length)

-- Where the address of a mailbox ends, in front of the closing bracket.
def mailbox? (i : Nat) : Option Nat := do
  let sign := i + s.countWhile isMailboxChar i
  if s.get? sign ≠ some '@' then none
  let stop ← domain? s (s.stop + 1) (sign + 1)
  if s.get? stop = some '>' then some stop else none

end StaticSite.Markdown.Autolink
