import StaticSite.Cause
import StaticSite.Text.Blank
/-!
The front matter of a content file stands between its first two fences, lines that hold `---`
alone. What stands before it is ignored, what follows it is the body.
-/
namespace StaticSite.FrontMatter

inductive Error where
  | missingStartFence
  | missingEndFence
  deriving DecidableEq, Repr

instance : Failure Error where
  headline
    | .missingStartFence => .message "malformed document: missing opening \x60---\x60"
    | .missingEndFence => .message "malformed document: missing closing \x60---\x60"
  causes _ := []

-- Whether a line is a fence. Byte order marks before it and blanks behind it do not count.
def isFence (line : List Char) : Bool :=
  Text.trimEnd (line.dropWhile (· == '\uFEFF')) == ['-', '-', '-']

-- The text before the first fence and the text behind its line.
def cutAtFence (cs : List Char) : Option (List Char × List Char) :=
  match cs with
  | [] => none
  | c :: rest =>
    let line := (c :: rest).takeWhile (· ≠ '\n')
    let below := ((c :: rest).dropWhile (· ≠ '\n')).tail
    if isFence line then some ([], below)
    else (cutAtFence below).map fun (before, behind) => (line ++ '\n' :: before, behind)
termination_by cs.length
decreasing_by
  have h := (List.dropWhile_sublist (l := c :: rest) (· ≠ '\n')).length_le
  simp only [List.length_tail, List.length_cons] at h ⊢
  omega

-- The front matter and the body of a content file.
def split (text : String) : Except Error (String × String) :=
  match cutAtFence text.toList with
  | none => .error .missingStartFence
  | some (_, below) => match cutAtFence below with
    | none => .error .missingEndFence
    | some (frontMatter, body) => .ok (.ofList frontMatter, .ofList body)

theorem cutAtFence_nil : cutAtFence [] = none := by
  rw [cutAtFence]

end StaticSite.FrontMatter
