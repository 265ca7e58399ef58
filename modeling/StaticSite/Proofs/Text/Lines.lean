import Mathlib.Data.List.Basic
/-!
The lines of a text. Main statement: a text that ends with a break, put before another, adds its
lines (`lines_append`).
-/
namespace StaticSite.Text

variable {line xs ys : List Char}

-- The lines of a text, without the breaks between them. What stands behind the last break is a line
-- only if there is something.
def lines (cs : List Char) : List (List Char) :=
  let pieces := cs.splitOn '\n'
  if pieces.getLast? = some [] then pieces.dropLast else pieces

-- Whether all lines of a text end with a break.
def IsTerminated (cs : List Char) : Prop :=
  cs = [] ∨ cs.getLast? = some '\n'

-- A piece of a cut text has no mark in it.
theorem of_mem_splitOn {sep : Char} {cs piece : List Char} (h : piece ∈ cs.splitOn sep) :
    sep ∉ piece ∧ piece ⊆ cs := by
  induction cs generalizing piece
  case nil =>
    obtain rfl : piece = [] := by simpa using h
    simp
  case cons c cs hi =>
    rw [List.splitOn_cons_eq_if_modifyHead] at h
    split at h
    case isTrue =>
      cases List.mem_cons.mp h
      case inl h => simp [h]
      case inr h => exact ⟨(hi h).1, List.subset_cons_of_subset c (hi h).2⟩
    case isFalse hc =>
      obtain ⟨first, rest, hs⟩ := List.exists_cons_of_ne_nil (List.splitOn_ne_nil sep cs)
      rw [hs, List.modifyHead_cons] at h
      rw [hs] at hi
      cases List.mem_cons.mp h
      case inl h =>
        obtain ⟨hd, hsub⟩ := hi List.mem_cons_self
        rw [h]
        refine ⟨?_, List.cons_subset_cons c hsub⟩
        simpa [eq_comm (a := sep)] using ⟨by simpa using hc, hd⟩
      case inr h =>
        obtain ⟨hd, hsub⟩ := hi (List.mem_cons_of_mem _ h)
        exact ⟨hd, List.subset_cons_of_subset c hsub⟩

theorem isTerminated_append_break : IsTerminated (xs ++ '\n' :: ys) ↔ IsTerminated ys := by
  by_cases hn : ys = []
  case pos => simp [IsTerminated, hn]
  case neg =>
    rw [List.append_cons, IsTerminated, List.getLast?_append_of_ne_nil _ hn]
    simp [IsTerminated, hn]

@[simp]
theorem lines_nil : lines [] = [] := by
  simp [lines]

theorem lines_of_not_mem (hn : line ≠ []) (hl : '\n' ∉ line) : lines line = [line] := by
  simp [lines, List.splitOn_eq_singleton hl, hn]

theorem lines_append_break (xs ys : List Char) :
    lines (xs ++ '\n' :: ys) = xs.splitOn '\n' ++ lines ys := by
  have hn : ys.splitOn '\n' ≠ [] := List.splitOn_ne_nil '\n' ys
  simp only [lines, List.splitOn_append_cons_self, List.getLast?_append_of_ne_nil _ hn,
    List.dropLast_append_of_ne_nil hn]
  split <;> rfl

theorem lines_line (hl : '\n' ∉ line) (cs : List Char) :
    lines (line ++ '\n' :: cs) = line :: lines cs := by
  rw [lines_append_break, List.splitOn_eq_singleton hl, List.singleton_append]

theorem lines_append (h : IsTerminated xs) (ys : List Char) :
    lines (xs ++ ys) = lines xs ++ lines ys := by
  rcases h with rfl | h
  case inl => simp
  case inr =>
    obtain ⟨zs, rfl⟩ := List.getLast?_eq_some_iff.mp h
    rw [List.append_assoc, List.singleton_append, lines_append_break, lines_append_break, lines_nil,
      List.append_nil]

-- A text is empty, or one last line without a break, or a line with its break before another text.
@[elab_as_elim]
theorem line_induction {motive : List Char → Prop} (nil : motive [])
    (last : ∀ line, line ≠ [] → '\n' ∉ line → motive line)
    (line : ∀ line cs, '\n' ∉ line → motive cs → motive (line ++ '\n' :: cs)) (cs : List Char) :
    motive cs := by
  induction hn : cs.length using Nat.strongRecOn generalizing cs with
  | ind n hi =>
    by_cases hm : '\n' ∈ cs
    case pos =>
      obtain ⟨first, rest, rfl, hf⟩ := List.eq_append_cons_of_mem hm
      refine line first rest hf (hi rest.length ?_ rest rfl)
      simp only [List.length_append, List.length_cons] at hn
      omega
    case neg =>
      by_cases he : cs = []
      case pos => exact he ▸ nil
      case neg => exact last cs he hm

end StaticSite.Text
