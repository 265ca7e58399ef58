import Mathlib.Data.List.Induction
import Mathlib.Data.List.Infix
import StaticSite.Proofs.Path.Steps
/-!
Paths that are written as locations are: from the root, without idle steps. Main statements: what
the operations on paths give for them, and that such paths are as many as the locations
(`toPath_inj`).
-/
namespace StaticSite

-- A character takes a byte at least.
theorem Path.length_le_utf8ByteSize (text : String) : text.length ≤ text.utf8ByteSize := by
  have hs (cs : List Char) : cs.length ≤ (String.ofList cs).utf8ByteSize := by
    induction cs
    case nil => simp
    case cons c cs hi =>
      have hc : String.ofList (c :: cs) = String.singleton c ++ String.ofList cs := by
        rw [← String.toList_inj]
        simp
      have := c.utf8Size_pos
      rw [hc, String.utf8ByteSize_append, String.utf8ByteSize_singleton, List.length_cons]
      omega
  simpa [String.length_toList] using hs text.toList

namespace Location

open Path

-- The way from a directory to what is below it, as a path.
def toRelative (l : Location) : Path :=
  ⟨"/".intercalate l⟩

def IsPlain (l : Location) : Prop :=
  ∀ name ∈ l, IsStep name

variable {l k : Location} {name : String}

theorem toList_text_toPath :
    l.toPath.text.toList = '/' :: ['/'].intercalate (l.map String.toList) := by
  simp [toPath, String.toList_intercalate]

theorem isAbsolute_toPath : l.toPath.isAbsolute :=
  isAbsolute_iff.mpr ⟨_, toList_text_toPath⟩

@[simp]
theorem isEmpty_components_toPath : l.toPath.components.isEmpty = false := by
  simp [components_of_isAbsolute isAbsolute_toPath]

-- The text that a name is put behind.
def slashed (l : Location) : String :=
  if l = [] then "/" else l.toPath.text ++ "/"

theorem text_toPath_concat : (l ++ [name]).toPath.text = l.slashed ++ name := by
  unfold slashed
  split
  case isTrue h => simp [h, toPath]
  case isFalse h => simp [toPath, String.intercalate_append_of_ne_nil h, String.append_assoc]

theorem text_toPath_append (hl : l ≠ []) (hk : k ≠ []) :
    (l ++ k).toPath.text = l.toPath.text ++ "/" ++ k.toRelative.text := by
  simp [toPath, toRelative, String.intercalate_append_of_ne_nil hl hk, String.append_assoc]

namespace IsPlain

theorem nil : IsPlain [] := by
  simp [IsPlain]

theorem of_append (h : IsPlain (l ++ k)) : l.IsPlain ∧ k.IsPlain :=
  ⟨fun n hn => h n (List.mem_append_left _ hn), fun n hn => h n (List.mem_append_right _ hn)⟩

theorem append (hl : l.IsPlain) (hk : k.IsPlain) : IsPlain (l ++ k) :=
  fun n hn => (List.mem_append.mp hn).elim (hl n) (hk n)

theorem concat (hl : l.IsPlain) (hn : IsStep name) : IsPlain (l ++ [name]) :=
  hl.append (by simpa [IsPlain] using hn)

theorem of_prefix (h : l.IsPlain) (hk : k <+: l) : k.IsPlain :=
  fun n hn => h n (hk.subset hn)

theorem splitOn_intercalate (h : l.IsPlain) (hl : l ≠ []) :
    (['/'].intercalate (l.map String.toList)).splitOn '/' = l.map String.toList := by
  refine List.splitOn_intercalate '/' ?_ (by simpa)
  simpa using fun n hn => (h n hn).2

theorem filter_isIdle (h : l.IsPlain) : l.filter (! isIdle ·) = l :=
  List.filter_eq_self.mpr fun n hn => by simp [(h n hn).1]

theorem pieces_toPath (h : l.IsPlain) : l.toPath.pieces = if l = [] then [""] else l := by
  rw [pieces_of_isAbsolute toList_text_toPath]
  split
  case isTrue hl => simp [hl]
  case isFalse hl => simp [h.splitOn_intercalate hl, Function.comp_def]

theorem steps_toPath (h : l.IsPlain) : l.toPath.steps = l := by
  rw [steps, h.pieces_toPath]
  split
  case isTrue hl => simp [hl]
  case isFalse => exact h.filter_isIdle

theorem toPath_inj (hl : l.IsPlain) (hk : k.IsPlain) : l.toPath = k.toPath ↔ l = k :=
  ⟨fun h => by rw [← hl.steps_toPath, h, hk.steps_toPath], fun h => h ▸ rfl⟩

theorem same_toPath_iff (hl : l.IsPlain) (hk : k.IsPlain) : l.toPath.same k.toPath ↔ l = k := by
  rw [same_iff_of_isAbsolute isAbsolute_toPath isAbsolute_toPath, hl.steps_toPath,
    hk.steps_toPath]

theorem isAbsolute_toRelative (h : l.IsPlain) (hl : l ≠ []) : l.toRelative.isAbsolute = false := by
  obtain ⟨name, l, rfl⟩ := List.exists_cons_of_ne_nil hl
  obtain ⟨hi, hs⟩ := h name List.mem_cons_self
  obtain ⟨c, cs, hc⟩ : ∃ c cs, name.toList = c :: cs := by
    apply List.exists_cons_of_ne_nil
    intro hn
    rw [String.toList_eq_nil_iff] at hn
    simp [hn] at hi
  have : c ≠ '/' := fun he => hs (by simp [hc, he])
  simp only [isAbsolute, toRelative, String.toList_intercalate, List.map_cons]
  cases l <;> simp [hc, this]

theorem pieces_toRelative (h : l.IsPlain) (hl : l ≠ []) : l.toRelative.pieces = l := by
  rw [pieces_of_not_isAbsolute (h.isAbsolute_toRelative hl), toRelative, String.toList_intercalate]
  simp [h.splitOn_intercalate hl, Function.comp_def]

theorem steps_toRelative (h : l.IsPlain) (hl : l ≠ []) : l.toRelative.steps = l := by
  rw [steps, h.pieces_toRelative hl, h.filter_isIdle]

theorem getLast?_text_toPath_ne (h : l.IsPlain) (hl : l ≠ []) :
    l.toPath.text.toList.getLast? ≠ some '/' := by
  obtain ⟨l, name, rfl⟩ := List.eq_nil_or_concat' l |>.resolve_left hl
  obtain ⟨hi, hs⟩ := h name (by simp)
  have hn : name.toList ≠ [] := by
    rw [Ne, String.toList_eq_nil_iff]
    rintro rfl
    simp at hi
  have hg := List.getLast?_eq_some_getLast hn
  rw [text_toPath_concat, String.toList_append, List.getLast?_append, hg, Option.some_or, ← hg]
  exact fun he => hs (List.mem_of_getLast? he)

theorem toPath_div (hl : l.IsPlain) (hk : k.IsPlain) (h : k ≠ []) :
    l.toPath / k.toRelative = (l ++ k).toPath := by
  have hj := toList_join (isAbsolute_toPath (l := l)) (hk.isAbsolute_toRelative h)
  rw [← text_inj, ← String.toList_inj, hj]
  by_cases hn : l = []
  case pos => simp [hn, toPath, toRelative]
  case neg => simp [hl.getLast?_text_toPath_ne hn, text_toPath_append hn h]

theorem toPath_eq_root_div (h : l.IsPlain) (hl : l ≠ []) : l.toPath = toPath [] / l.toRelative :=
  (nil.toPath_div h hl).symm

theorem toPath_div_name (hl : l.IsPlain) (hn : IsStep name) :
    l.toPath / ⟨name⟩ = (l ++ [name]).toPath := by
  have hk : IsPlain [name] := nil.concat hn
  simpa [toRelative] using hl.toPath_div hk (by simp)

theorem dropWhile_isIdle (h : l.IsPlain) : l.dropWhile isIdle = l := by
  cases l
  case nil => rfl
  case cons name l => simp [(h name List.mem_cons_self).1]

theorem reverse (h : l.IsPlain) : IsPlain l.reverse :=
  fun n hn => h n (List.mem_reverse.mp hn)

theorem dropIdleEnd_eq (h : l.IsPlain) : dropIdleEnd l = l := by
  rw [dropIdleEnd, h.reverse.dropWhile_isIdle, List.reverse_reverse]

theorem stem_toPath (h : l.IsPlain) : l.toPath.stem = l := by
  have hs : l.toPath.stem = dropIdleEnd l.toPath.pieces := by
    simp [stem, isAbsolute_toPath]
  rw [hs, h.pieces_toPath]
  split
  case isTrue hl => simp [hl, dropIdleEnd, List.dropWhile_cons]
  case isFalse => exact h.dropIdleEnd_eq

theorem parent?_toPath (h : IsPlain (l ++ [name])) :
    (l ++ [name]).toPath.parent? = some l.toPath := by
  have hl : (ofPieces true l).trimmed = l.toPath := by
    show l.toPath.trimmed = _
    rw [trimmed, h.of_append.1.stem_toPath, isAbsolute_toPath]
    rfl
  rw [parent?, h.stem_toPath, isAbsolute_toPath, List.dropLast_concat, hl]
  simp

theorem fileName?_toPath (h : IsPlain (l ++ [name])) (hn : name ≠ "..") :
    (l ++ [name]).toPath.fileName? = some name := by
  rw [fileName?, components_of_isAbsolute isAbsolute_toPath, h.steps_toPath]
  simp [List.getLast?_cons, Component.ofStep, hn]

theorem fileName?_toRelative (h : IsPlain (l ++ [name])) (hn : name ≠ "..") :
    (l ++ [name]).toRelative.fileName? = some name := by
  have hp := h.pieces_toRelative (by simp)
  rw [fileName?, components, hp, filterMap_componentOf?, h.filter_isIdle]
  simp [List.getLast?_append, Component.ofStep, hn]

theorem length_le_length_toRelative (h : l.IsPlain) : l.length ≤ l.toRelative.text.length := by
  induction l using List.reverseRecOn
  case nil => simp
  case append_singleton l name hi =>
    have hl := hi h.of_append.1
    have hs : "/".length = 1 := rfl
    have hn : 0 < name.length := by
      rw [Nat.pos_iff_ne_zero, Ne, String.length_eq_zero_iff]
      rintro rfl
      exact absurd (h "" (by simp)).1 (by decide)
    by_cases hl' : l = []
    case pos =>
      simp only [hl', toRelative, List.nil_append, List.length_singleton,
        String.intercalate_singleton]
      exact hn
    case neg =>
      simp only [toRelative, String.intercalate_append_of_ne_nil hl' (List.cons_ne_nil name []),
        String.intercalate_singleton, String.length_append, List.length_append,
        List.length_singleton, hs] at hl ⊢
      omega

theorem length_le_length_text (h : l.IsPlain) : l.length ≤ l.toPath.text.length := by
  have ht : l.toPath.text = "/" ++ l.toRelative.text := rfl
  rw [ht, String.length_append]
  exact Nat.le_add_left_of_le h.length_le_length_toRelative

end IsPlain

end Location

end StaticSite
