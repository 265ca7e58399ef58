import StaticSite.Config.Page
import StaticSite.Config.Site
import StaticSite.Proofs.Text.Lines
import StaticSite.Proofs.Yaml.Document
/-!
Blank configuration texts, which are the default configuration without being read. Main statement:
such a text holds no document, so that nothing of it is lost, if and only if each of its lines has
nothing but spaces before its end or its comment (`noDocument_iff_of_isBlank`). Other blanks and
carriage returns within a line make the difference.
-/
namespace StaticSite.Config

open Yaml

variable {text : String} {line : List Char} {α : Type}

-- A line is blank if nothing but blanks stands before its end or its comment.
theorem trim_isEmpty_or_head?_iff :
    ((Text.trim line).isEmpty || (Text.trim line).head? == some '#') ↔
      ∀ x ∈ (line.dropWhile Text.isBlank).head?, x = '#' := by
  rw [Text.trim, Text.trimStart]
  cases h : line.dropWhile Text.isBlank with
  | nil => simp [Text.trimEnd]
  | cons x rest =>
    have hx : ¬Text.isBlank x := by
      simpa [h] using List.head_dropWhile_not Text.isBlank (l := line) (by simp [h])
    simp [Text.trimEnd_cons hx]

theorem isBlank_iff : isBlank text ↔
    ∀ line ∈ text.toList.splitOn '\n', ∀ x ∈ (line.dropWhile Text.isBlank).head?, x = '#' := by
  simp only [isBlank, List.all_eq_true, trim_isEmpty_or_head?_iff]

-- Whether a line has nothing but spaces and a carriage return at its end for blanks in front, and
-- no other carriage return.
def HasPlainMargin (line : List Char) : Prop :=
  (∀ x ∈ line.takeWhile Text.isBlank, x = ' ' ∨ x = '\r') ∧ '\r' ∉ line.dropLast

-- The characters of the line are tried one by one.
instance : Decidable (HasPlainMargin line) :=
  have : Decidable (∀ x ∈ line.takeWhile Text.isBlank, x = ' ' ∨ x = '\r') :=
    List.decidableBAll _ _
  inferInstanceAs (Decidable
    ((∀ x ∈ line.takeWhile Text.isBlank, x = ' ' ∨ x = '\r') ∧ '\r' ∉ line.dropLast))

-- The first break in such a line is the end of it.
theorem dropWhile_eq_of_hasPlainMargin {cs : List Char} (hn : '\n' ∉ cs) (hr : '\r' ∉ cs.dropLast) :
    cs.dropWhile (!isBreak ·) = [] ∨ cs.dropWhile (!isBreak ·) = ['\r'] := by
  induction cs with
  | nil => exact .inl rfl
  | cons x cs hi =>
    cases cs with
    | nil => grind [isBreak, List.dropWhile_cons]
    | cons y cs => grind [isBreak, List.dropWhile_cons, List.dropLast]

theorem hasIdleLines_of_hasPlainMargin (hn : '\n' ∉ line)
    (h : ∀ x ∈ (line.dropWhile Text.isBlank).head?, x = '#') (hm : HasPlainMargin line) :
    HasIdleLines line := by
  induction line with
  | nil => exact .nil
  | cons x cs hi =>
    obtain ⟨hblank, hr⟩ := hm
    by_cases hx : Text.isBlank x
    case pos =>
      rw [List.takeWhile_cons_of_pos hx, List.forall_mem_cons] at hblank
      rw [List.dropWhile_cons_of_pos hx] at h
      rcases hblank.1 with rfl | rfl
      case inl =>
        have hr : '\r' ∉ cs.dropLast := by cases cs <;> simp_all
        exact HasIdleLines.cons_space_iff.mpr
          (hi (List.not_mem_of_not_mem_cons hn) h ⟨hblank.2, hr⟩)
      case inr =>
        have hcs : cs = [] := by cases cs <;> simp_all
        exact (HasIdleLines.cons_break_iff (by decide)).mpr (hcs ▸ .nil)
    case neg =>
      rw [List.dropWhile_cons_of_neg hx] at h
      obtain rfl : x = '#' := h x rfl
      have hr : '\r' ∉ cs.dropLast := by cases cs <;> simp_all
      rw [HasIdleLines.cons_comment_iff]
      rcases dropWhile_eq_of_hasPlainMargin (List.not_mem_of_not_mem_cons hn) hr with he | he
      · exact he ▸ .nil
      · rw [he, HasIdleLines.cons_break_iff (by decide)]
        exact .nil

-- A blank text is the default configuration. It holds no document, so that nothing could be read
-- from it, if and only if its lines are idle. They are if each has a plain margin.
theorem noDocument_iff_of_isBlank (h : isBlank text) :
    (SiteConfig.ofText text = .ok {} ∧ PageConfig.ofText text = .ok {}) ∧
    (Node.ofText text = .error .noDocument ↔ HasIdleLines (Cursor.ofText text).rest) ∧
    (HasIdleLines (Cursor.ofText text).rest → ∀ read : Node → Decoding α,
      (do Decoding.decode (← Node.ofText text) read) = .error .noDocument) ∧
    ((∀ line ∈ text.toList.splitOn '\n', HasPlainMargin line) →
      HasIdleLines (Cursor.ofText text).rest) := by
  refine ⟨⟨decode_of_isBlank _ _ h, decode_of_isBlank _ _ h⟩, Node.ofText_eq_noDocument_iff text,
    fun hi read => ?_, fun hm => ?_⟩
  case refine_1 =>
    rw [(Node.ofText_eq_noDocument_iff text).mpr hi]
    rfl
  case refine_2 =>
    -- The text that is read ends at the first NUL, before which the lines are idle as well.
    have hlines : HasIdleLines text.toList := HasIdleLines.iff_lines.mpr fun line hl =>
      hasIdleLines_of_hasPlainMargin (Text.of_mem_splitOn hl).1 (isBlank_iff.mp h line hl)
        (hm line hl)
    rw [← List.takeWhile_append_dropWhile (p := (· ≠ '\x00')) (l := text.toList)] at hlines
    exact hlines.of_append

-- Front matter of a comment alone.
def commentText : String :=
  "\n# just a comment\n"

theorem commentText_noDocument :
    PageConfig.ofText commentText = .ok {} ∧ Node.ofText commentText = .error .noDocument := by
  have h : _ ∧ _ ∧ (_ → ∀ _ : Node → Decoding PageConfig, _) ∧ _ :=
    noDocument_iff_of_isBlank (show isBlank commentText by decide)
  exact ⟨h.1.2, h.2.1.mpr (h.2.2.2 (by decide))⟩

-- Front matter of a comment that ends at a carriage return, and a title.
def carriageText : String :=
  "# c\rtitle: X"

theorem carriageText_loses_title :
    isBlank carriageText ∧ PageConfig.ofText carriageText = .ok {} ∧
    (do Decoding.decode (← Node.ofText carriageText) fun root => do
      (← Fields.ofNode PageConfig.fieldNames root).text? "title") = .ok (some "X") :=
  have h : isBlank carriageText := by decide
  ⟨h, decode_of_isBlank _ _ h, by decide +kernel⟩

end StaticSite.Config
