import StaticSite.Config.Effective
/-!
Templates: text with placeholders, which are keys between double braces. A template is filled in
from its front to its end, and what takes the place of a placeholder is not looked at again. Main
statement: a text is cut where the mark stands (`eq_of_cutAt`).
-/
namespace StaticSite.Template

open Text

-- What stands before a key.
def opening : List Char :=
  ['\x7b', '\x7b']

-- What stands behind a key.
def closing : List Char :=
  ['\x7d', '\x7d']

-- The key of the placeholder that takes the body of the page.
def bodyKey : String :=
  "body"

def isKeyChar (c : Char) : Bool :=
  c.isAlphanum || c == '_' || c == '-' || c == '.'

def isKey (cs : List Char) : Bool :=
  !cs.isEmpty && cs.all isKeyChar

-- The text before the first occurrence of a mark, which is not empty, and the text behind it.
def cutAt (mark : List Char) : List Char → Option (List Char × List Char)
  | [] => none
  | c :: rest =>
    if mark.isPrefixOf (c :: rest) then some ([], (c :: rest).drop mark.length)
    else (cutAt mark rest).map fun (before, behind) => (c :: before, behind)

theorem eq_of_cutAt {mark cs before behind : List Char}
    (h : cutAt mark cs = some (before, behind)) : cs = before ++ (mark ++ behind) := by
  fun_induction cutAt mark cs generalizing before with
  | case1 => simp at h
  | case2 c rest hp =>
    obtain ⟨after, ha⟩ := List.isPrefixOf_iff_prefix.mp hp
    rw [← ha, List.drop_left, Option.some.injEq, Prod.mk.injEq] at h
    obtain ⟨rfl, rfl⟩ := h
    exact ha.symm
  | case3 c rest _ ih =>
    obtain ⟨⟨a, b⟩, hr, he⟩ := Option.map_eq_some_iff.mp h
    obtain ⟨rfl, rfl⟩ : c :: a = before ∧ b = behind := by simpa using he
    rw [ih hr, List.cons_append]

theorem length_lt_of_cutAt {mark cs before behind : List Char} (hm : 0 < mark.length)
    (h : cutAt mark cs = some (before, behind)) : behind.length < cs.length := by
  rw [eq_of_cutAt h, List.length_append, List.length_append]
  omega

-- The text that takes the place of a key: the body of the page, or the value of the key, or nothing
-- if it has none.
def substitute (config : EffectiveConfig) (body key : List Char) : List Char :=
  if String.ofList key = bodyKey then body
  else ((config.lookup (.ofList key)).map String.toList).getD []

-- A text with its placeholders filled in. Braces that hold no key are text, and reading goes on
-- right behind them; braces that never close are text up to the end.
def fill (value : List Char → List Char) (cs : List Char) : List Char :=
  match _ho : cutAt opening cs with
  | none => cs
  | some (before, behind) =>
    match _hc : cutAt closing behind with
    | none => cs
    | some (inner, after) =>
      if isKey (trim inner) then before ++ (value (trim inner) ++ fill value after)
      else before ++ (opening ++ fill value behind)
termination_by cs.length
decreasing_by
  · exact Nat.lt_trans (length_lt_of_cutAt (by decide) _hc) (length_lt_of_cutAt (by decide) _ho)
  · exact length_lt_of_cutAt (by decide) _ho

-- A template with its placeholders filled in.
def render (template : String) (config : EffectiveConfig) (body : String) : String :=
  .ofList (fill (substitute config body.toList) template.toList)

end StaticSite.Template
