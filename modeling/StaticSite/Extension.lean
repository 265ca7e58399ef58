import StaticSite.Path
import StaticSite.Text.Alphanumeric
/-!
Content files and pages differ in their extension. `rewriteExtensions` turns references to content
files in a text into references to pages. Main statement: a character that is no dot stays, whatever
stands around it (`rewrite_cons_of_ne`).
-/
namespace StaticSite.Extension

-- The extension of content files.
def content : String :=
  "md"

-- The extension of pages.
def page : String :=
  "html"

-- Whether a character carries on the name before it.
def continuesName (c : Char) : Bool :=
  Text.isAlphanumeric c || c == '_'

-- Replaces each `.md` that no name carries on by `.html`.
def rewrite : List Char → List Char
  | '.' :: 'm' :: 'd' :: rest =>
    if rest.head?.any continuesName then '.' :: 'm' :: 'd' :: rewrite rest
    else '.' :: 'h' :: 't' :: 'm' :: 'l' :: rewrite rest
  | c :: rest => c :: rewrite rest
  | [] => []

def rewriteExtensions (text : String) : String :=
  .ofList (rewrite text.toList)

-- Whether a file is a content file.
def isContent (p : Path) : Bool :=
  p.extension? == some content

theorem rewrite_cons_of_ne {c : Char} {cs : List Char} (h : c ≠ '.') :
    rewrite (c :: cs) = c :: rewrite cs := by
  rw [rewrite]
  rintro rest rfl
  exact absurd rfl h

end StaticSite.Extension
