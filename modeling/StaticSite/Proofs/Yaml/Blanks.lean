import Mathlib.Data.List.Basic
import StaticSite.Yaml.Token.Stream
/-!
What the lexer passes over between two tokens. Main statements: it moves over a space, a line break
or a comment and goes on (`skipBlanks_of_space`, `skipBlanks_of_break`, `skipBlanks_of_comment`);
where a key can begin, it comes to the end of the text if and only if each line that is left has
nothing but spaces before its end or its comment (`rest_skipBlanks_eq_nil_iff`).
-/
namespace StaticSite.Yaml

variable {c : Cursor} {x : Char} {cs rest line : List Char} {s : Lexer} {m n : Nat}

namespace Cursor

theorem peek?_eq_head? : c.peek? = c.rest.head? :=
  List.head?_eq_getElem?.symm

theorem peek?_eq_some_iff : c.peek? = some x ↔ ∃ rest, c.rest = x :: rest := by
  rw [peek?_eq_head?, List.head?_eq_some_iff]

theorem rest_skipWhile (p : Char → Bool) : (c.skipWhile p).rest = c.rest.dropWhile p := by
  rw [skipWhile, rest_advanceBy, List.dropWhile_eq_drop_findIdx_not,
    List.takeWhile_eq_take_findIdx_not, List.length_take, Nat.min_eq_left List.findIdx_le_length]

theorem rest_skipComment (h : c.rest = '#' :: rest) :
    c.skipComment.rest = rest.dropWhile (!isBreak ·) := by
  rw [skipComment, if_pos (peek?_eq_some_iff.mpr ⟨rest, h⟩), rest_skipWhile, h]
  rfl

-- Of a carriage return and a line feed, both are passed over.
theorem rest_skipBreak (h : c.rest = x :: rest) (hx : isBreak x) :
    c.skipBreak.rest = rest ∨ rest = '\n' :: c.skipBreak.rest := by
  unfold skipBreak
  split
  case h_1 feed hr =>
    obtain ⟨rfl, rfl⟩ : x = '\r' ∧ rest = '\n' :: feed := by simpa [h] using hr
    exact .inr (by simp [h])
  case h_2 y rest' hn hr =>
    obtain ⟨rfl, rfl⟩ : x = y ∧ rest = rest' := by simpa [h] using hr
    exact .inl (by simp [hx, h])
  case h_3 hr => simp [h] at hr

theorem length_skipBreak_lt (h : c.rest = x :: rest) (hx : isBreak x) :
    c.skipBreak.rest.length < c.rest.length := by
  rw [h, List.length_cons]
  rcases rest_skipBreak h hx with hr | hr
  · rw [hr]
    exact Nat.lt_succ_self _
  · have := congrArg List.length hr
    simp only [List.length_cons] at this
    omega

theorem length_skipComment_lt (h : c.rest = '#' :: rest) :
    c.skipComment.rest.length < c.rest.length := by
  rw [rest_skipComment h, h, List.length_cons]
  exact Nat.lt_succ_of_le (List.dropWhile_suffix _).length_le

end Cursor

namespace Lexer

-- Where the lexer stops: no space, break or comment follows, nor a tab where that may be passed.
def AtToken (s : Lexer) : Prop :=
  ∀ x ∈ s.cursor.peek?, x ≠ ' ' ∧ ¬isBreak x ∧ x ≠ '#' ∧ (x = '\t' → !s.inFlow && s.keyAllowed)

-- Enough steps are as good as any other number of them.
theorem skipBlanks_go_eq (hm : s.cursor.rest.length < m) (hn : s.cursor.rest.length < n) :
    skipBlanks.go m s = skipBlanks.go n s := by
  induction m generalizing n s
  case zero => omega
  case succ m hi =>
    obtain ⟨n, rfl⟩ : ∃ k, n = k + 1 := ⟨n - 1, by omega⟩
    have hstep {s' : Lexer} (h : s'.cursor.rest.length < s.cursor.rest.length) :
        skipBlanks.go m s' = skipBlanks.go n s' := hi (by omega) (by omega)
    have hadvance (x : Char) (h : s.cursor.peek? = some x) :
        s.cursor.advance.rest.length < s.cursor.rest.length := by
      obtain ⟨rest, hr⟩ := Cursor.peek?_eq_some_iff.mp h
      simp [hr]
    unfold skipBlanks.go
    split
    case h_1 h => exact hstep (hadvance _ h)
    case h_2 h =>
      split
      · exact hstep (hadvance _ h)
      · rfl
    case h_3 h | h_4 h =>
      obtain ⟨rest, hr⟩ := Cursor.peek?_eq_some_iff.mp h
      exact hstep (Cursor.length_skipBreak_lt hr (by decide))
    case h_5 h =>
      obtain ⟨rest, hr⟩ := Cursor.peek?_eq_some_iff.mp h
      exact hstep (Cursor.length_skipComment_lt hr)
    case h_6 => rfl

theorem skipBlanks_of_space (h : s.cursor.rest = ' ' :: rest) :
    s.skipBlanks = { s with cursor := s.cursor.advance }.skipBlanks := by
  have hp : s.cursor.peek? = some ' ' := Cursor.peek?_eq_some_iff.mpr ⟨rest, h⟩
  rw [skipBlanks, skipBlanks.go, hp]
  exact skipBlanks_go_eq (by simp [h]) (by simp)

theorem skipBlanks_of_break (h : s.cursor.rest = x :: rest) (hx : isBreak x) : s.skipBlanks =
    { s with
      cursor := s.cursor.skipBreak, keyAllowed := s.keyAllowed || !s.inFlow }.skipBlanks := by
  have hp : s.cursor.peek? = some x := Cursor.peek?_eq_some_iff.mpr ⟨rest, h⟩
  have hl := Cursor.length_skipBreak_lt h hx
  rw [skipBlanks, skipBlanks.go, hp]
  simp only [isBreak, Bool.or_eq_true, beq_iff_eq] at hx
  rcases hx with rfl | rfl <;> exact skipBlanks_go_eq hl (Nat.lt_succ_self _)

theorem skipBlanks_of_comment (h : s.cursor.rest = '#' :: rest) :
    s.skipBlanks = { s with cursor := s.cursor.skipComment }.skipBlanks := by
  have hp : s.cursor.peek? = some '#' := Cursor.peek?_eq_some_iff.mpr ⟨rest, h⟩
  rw [skipBlanks, skipBlanks.go, hp]
  exact skipBlanks_go_eq (Cursor.length_skipComment_lt h) (Nat.lt_succ_self _)

theorem skipBlanks_of_atToken (h : s.AtToken) : s.skipBlanks = s := by
  rw [skipBlanks, skipBlanks.go]
  split
  case h_1 hp => exact absurd rfl (h _ hp).1
  case h_2 hp =>
    have ht : !s.inFlow && s.keyAllowed := (h _ hp).2.2.2 rfl
    rw [if_neg (by simpa using ht)]
  case h_3 hp | h_4 hp => exact absurd (by decide) (h _ hp).2.1
  case h_5 hp => exact absurd rfl (h _ hp).2.2.1
  case h_6 => rfl

-- Passing over blanks moves the cursor, and may let a key begin.
theorem exists_skipBlanks_eq (s : Lexer) :
    ∃ cursor keyAllowed, s.skipBlanks = { s with cursor, keyAllowed } := by
  have hgo (n : Nat) (s : Lexer) :
      ∃ cursor keyAllowed, skipBlanks.go n s = { s with cursor, keyAllowed } := by
    induction n generalizing s
    case zero => exact ⟨_, _, rfl⟩
    case succ n hi =>
      unfold skipBlanks.go
      split
      case h_2 => split <;> [exact hi _; exact ⟨_, _, rfl⟩]
      case h_6 => exact ⟨_, _, rfl⟩
      all_goals exact hi _
  exact hgo _ s

end Lexer

-- Whether a line has nothing but spaces before its end or its comment.
def IsIdle (line : List Char) : Prop :=
  ∀ x ∈ (line.dropWhile (· == ' ')).head?, x = '#'

-- Whether this holds of each line of a text. Lines end at a line feed or a carriage return.
def HasIdleLines (cs : List Char) : Prop :=
  ∀ line ∈ cs.splitOnP isBreak, IsIdle line

instance : Decidable (IsIdle line) :=
  inferInstanceAs (Decidable (∀ x ∈ (line.dropWhile (· == ' ')).head?, x = '#'))

instance : Decidable (HasIdleLines cs) :=
  inferInstanceAs (Decidable (∀ line ∈ cs.splitOnP isBreak, IsIdle line))

namespace HasIdleLines

theorem nil : HasIdleLines [] := by
  simp [HasIdleLines, IsIdle]

theorem cons_break_iff (hx : isBreak x) : HasIdleLines (x :: cs) ↔ HasIdleLines cs := by
  rw [HasIdleLines, List.splitOnP_cons_eq_if_modifyHead, if_pos hx, List.forall_mem_cons]
  exact and_iff_right (by simp [IsIdle])

-- The first line of a text, and the lines behind it.
theorem exists_line (cs : List Char) : ∃ line lines, cs.splitOnP isBreak = line :: lines :=
  List.exists_cons_of_ne_nil (List.splitOnP_ne_nil _ _)

theorem cons_space_iff : HasIdleLines (' ' :: cs) ↔ HasIdleLines cs := by
  obtain ⟨line, lines, h⟩ := exists_line cs
  rw [HasIdleLines, HasIdleLines, List.splitOnP_cons_eq_if_modifyHead, if_neg (by decide), h]
  simp [IsIdle]

theorem cons_comment_iff :
    HasIdleLines ('#' :: cs) ↔ HasIdleLines (cs.dropWhile (!isBreak ·)) := by
  induction cs
  case nil => simp [HasIdleLines, IsIdle, List.splitOnP_cons_eq_if_modifyHead, isBreak]
  case cons y cs hi =>
    by_cases hy : isBreak y
    case pos =>
      rw [List.dropWhile_cons_of_neg (by simpa using hy), HasIdleLines, HasIdleLines,
        List.splitOnP_cons_eq_if_modifyHead, if_neg (by decide),
        List.splitOnP_cons_eq_if_modifyHead, if_pos hy]
      simp [IsIdle]
    case neg =>
      rw [List.dropWhile_cons_of_pos (by simpa using hy), ← hi]
      obtain ⟨line, lines, h⟩ := exists_line cs
      rw [HasIdleLines, HasIdleLines, List.splitOnP_cons_eq_if_modifyHead, if_neg (by decide),
        List.splitOnP_cons_eq_if_modifyHead, if_neg hy, List.splitOnP_cons_eq_if_modifyHead,
        if_neg (by decide), h]
      simp [IsIdle]

theorem not_cons (hs : x ≠ ' ') (hc : x ≠ '#') (hb : ¬isBreak x) : ¬HasIdleLines (x :: cs) := by
  obtain ⟨line, lines, h⟩ := exists_line cs
  rw [HasIdleLines, List.splitOnP_cons_eq_if_modifyHead, if_neg hb, h]
  simp [IsIdle, hs, hc]

-- The lines of a text are those of its parts between line feeds.
theorem splitOnP_isBreak_eq (cs : List Char) :
    cs.splitOnP isBreak = (cs.splitOn '\n').flatMap (·.splitOnP isBreak) := by
  induction cs
  case nil => rfl
  case cons x cs hi =>
    rw [List.splitOn] at hi ⊢
    obtain ⟨line, lines, h⟩ := List.exists_cons_of_ne_nil (List.splitOnP_ne_nil (· == '\n') cs)
    obtain ⟨first, others, hf⟩ := exists_line line
    rw [List.splitOnP_cons_eq_if_modifyHead, List.splitOnP_cons_eq_if_modifyHead, hi, h]
    by_cases hn : x = '\n'
    case pos => simp [hn, isBreak]
    case neg =>
      have hn' : ¬(x == '\n') := by simpa using hn
      rw [if_neg hn', List.modifyHead_cons, List.flatMap_cons, List.flatMap_cons,
        List.splitOnP_cons_eq_if_modifyHead x line, hf]
      split <;> rfl

theorem iff_lines : HasIdleLines cs ↔ ∀ line ∈ cs.splitOn '\n', HasIdleLines line := by
  rw [HasIdleLines, splitOnP_isBreak_eq, List.forall_mem_flatMap]
  rfl

-- The beginning of a text with idle lines has idle lines.
theorem of_append (h : HasIdleLines (cs ++ rest)) : HasIdleLines cs := by
  induction hn : cs.length using Nat.strongRecOn generalizing cs with
  | ind n hi =>
    cases cs with
    | nil => exact nil
    | cons x cs =>
      rw [List.cons_append] at h
      have hnext (hl : HasIdleLines (cs ++ rest)) : HasIdleLines cs := hi _ (by simp [← hn]) hl rfl
      by_cases hb : isBreak x
      · exact (cons_break_iff hb).mpr (hnext ((cons_break_iff hb).mp h))
      by_cases hs : x = ' '
      · subst hs
        exact cons_space_iff.mpr (hnext (cons_space_iff.mp h))
      by_cases hc : x = '#'
      · subst hc
        rw [cons_comment_iff, List.dropWhile_append] at *
        split at h
        case isTrue he =>
          rw [List.isEmpty_iff.mp he]
          exact nil
        case isFalse =>
          have := (List.dropWhile_suffix (!isBreak ·) (l := cs)).length_le
          exact hi _ (by simp at hn; omega) h rfl
      · exact absurd h (not_cons hs hc hb)

end HasIdleLines

namespace Lexer

-- Only idle lines are passed over to the end.
theorem rest_skipBlanks_eq_nil_iff (hk : s.keyAllowed) (hf : ¬s.inFlow) :
    s.skipBlanks.cursor.rest = [] ↔ HasIdleLines s.cursor.rest := by
  induction hn : s.cursor.rest.length using Nat.strongRecOn generalizing s with
  | ind n hi =>
    have hstep {s' : Lexer} (hk : s'.keyAllowed) (hf : ¬s'.inFlow)
        (hl : s'.cursor.rest.length < s.cursor.rest.length) :
        s'.skipBlanks.cursor.rest = [] ↔ HasIdleLines s'.cursor.rest := hi _ (hn ▸ hl) hk hf rfl
    rcases hr : s.cursor.rest with _ | ⟨x, rest⟩
    case nil =>
      have ht : s.AtToken := by simp [AtToken, Cursor.peek?_eq_head?, hr]
      rw [skipBlanks_of_atToken ht, hr, iff_true_left rfl]
      exact .nil
    case cons =>
      by_cases hs : x = ' '
      case pos =>
        subst hs
        rw [skipBlanks_of_space hr, ← HasIdleLines.cons_space_iff]
        refine (hstep ?_ ?_ ?_).trans ?_
        case refine_1 => exact hk
        case refine_2 => exact hf
        case refine_3 | refine_4 => simp [hr, HasIdleLines.cons_space_iff]
      case neg =>
      by_cases hb : isBreak x
      case pos =>
        rw [skipBlanks_of_break hr hb, HasIdleLines.cons_break_iff hb]
        refine (hstep ?_ ?_ (Cursor.length_skipBreak_lt hr hb)).trans ?_
        case refine_1 => simp [hk]
        case refine_2 => exact hf
        case refine_3 =>
          rcases Cursor.rest_skipBreak hr hb with he | he
          · rw [he]
          · rw [he, HasIdleLines.cons_break_iff (by decide)]
      case neg =>
      by_cases hc : x = '#'
      case pos =>
        subst hc
        rw [skipBlanks_of_comment hr, HasIdleLines.cons_comment_iff, ← Cursor.rest_skipComment hr]
        refine hstep ?_ ?_ (Cursor.length_skipComment_lt hr)
        case refine_1 => exact hk
        case refine_2 => exact hf
      case neg =>
        have ht : s.AtToken := by
          simp_all [AtToken, Cursor.peek?_eq_head?]
        rw [skipBlanks_of_atToken ht, hr, iff_false_left (by simp)]
        exact HasIdleLines.not_cons hs hc hb

end Lexer

end StaticSite.Yaml
