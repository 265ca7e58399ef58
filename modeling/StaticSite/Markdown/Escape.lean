import StaticSite.Markdown.Entity
import StaticSite.Text.Punctuation
/-!
Escapes. A backslash in front of an ASCII punctuation character stands for that character alone;
destinations, titles and info strings hold such escapes and character references.
-/
namespace StaticSite.Markdown

open Text

-- Resolves the escapes and the character references of a text and drops carriage returns. `skip`
-- characters belong to what was resolved last.
def unescapeFrom (skip : Nat) : List Char → List Char
  | [] => []
  | c :: cs => match skip with
    | skip + 1 => unescapeFrom skip cs
    | 0 =>
      if c = '\\' ∧ cs.head?.any isAsciiPunctuation then cs.head?.toList ++ unescapeFrom 1 cs
      else if c = '&' then match Entity.scan cs with
        | some (text, n) => text ++ unescapeFrom n cs
        | none => c :: unescapeFrom 0 cs
      else if c = '\r' then unescapeFrom 0 cs
      else c :: unescapeFrom 0 cs

def unescape (cs : List Char) : List Char :=
  unescapeFrom 0 cs

@[simp]
theorem unescape_nil : unescape [] = [] :=
  rfl

theorem unescape_cons {c : Char} {cs : List Char} (h : c ≠ '\\' ∧ c ≠ '&' ∧ c ≠ '\r') :
    unescape (c :: cs) = c :: unescape cs := by
  simp [unescape, unescapeFrom, h]

end StaticSite.Markdown
