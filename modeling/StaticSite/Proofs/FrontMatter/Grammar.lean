import Mathlib.Data.List.TakeWhile
import StaticSite.FrontMatter
import StaticSite.Proofs.Text.Lines
/-!
What a content file with front matter looks like. Main statement: a content file is split if and
only if two of its lines are fences, and into what stands between the first two of them and what
stands behind the second (`split_grammar`).
-/
namespace StaticSite.FrontMatter

open Text

variable {cs line fence nl before behind xs : List Char}

-- A line that is a fence.
def IsFence (line : List Char) : Prop :=
  isFence line ∧ '\n' ∉ line

-- Lines that are no fences, each with its break.
def IsUnfenced (cs : List Char) : Prop :=
  IsTerminated cs ∧ ∀ line ∈ lines cs, ¬isFence line

-- What ends a line in front of `behind`.
def IsBreak (nl behind : List Char) : Prop :=
  nl = ['\n'] ∨ nl = [] ∧ behind = []

-- A content file with front matter and body: lines that are no fences, a fence, the front matter,
-- which has no fence, another fence, and the body.
def IsDocument (cs frontMatter body : List Char) : Prop :=
  ∃ intro opening closing nl,
    cs = intro ++ (opening ++ '\n' :: (frontMatter ++ (closing ++ (nl ++ body)))) ∧
    IsUnfenced intro ∧ IsFence opening ∧ IsUnfenced frontMatter ∧ IsFence closing ∧ IsBreak nl body

theorem IsFence.ne_nil (h : IsFence line) : line ≠ [] := by
  rintro rfl
  exact absurd h.1 (by decide)

theorem IsUnfenced.nil : IsUnfenced [] :=
  ⟨.inl rfl, by simp⟩

theorem isUnfenced_line_iff (hl : '\n' ∉ line) :
    IsUnfenced (line ++ '\n' :: cs) ↔ ¬isFence line ∧ IsUnfenced cs := by
  rw [IsUnfenced, isTerminated_append_break, lines_line hl, List.forall_mem_cons, and_left_comm,
    IsUnfenced]

-- The first line of a text decides where it is cut, or the rest does.
theorem cutAtFence_line (hl : '\n' ∉ line) (cs : List Char) :
    cutAtFence (line ++ '\n' :: cs) = if isFence line then some ([], cs) else
      (cutAtFence cs).map fun (before, behind) => (line ++ '\n' :: before, behind) := by
  have hp : ∀ c ∈ line, decide (c ≠ '\n') := fun c hc => by simpa using ne_of_mem_of_not_mem hc hl
  have ht : (line ++ '\n' :: cs).takeWhile (· ≠ '\n') = line := by
    rw [List.takeWhile_append_of_pos hp, List.takeWhile_cons_of_neg (by simp), List.append_nil]
  have hd : (line ++ '\n' :: cs).dropWhile (· ≠ '\n') = '\n' :: cs := by
    rw [List.dropWhile_append_of_pos hp, List.dropWhile_cons_of_neg (by simp)]
  obtain ⟨c, rest, hc⟩ : ∃ c rest, line ++ '\n' :: cs = c :: rest :=
    List.exists_cons_of_ne_nil (by simp)
  rw [hc] at ht hd ⊢
  rw [cutAtFence]
  simp only [ht, hd, List.tail_cons]

theorem cutAtFence_last (hn : line ≠ []) (hl : '\n' ∉ line) :
    cutAtFence line = if isFence line then some ([], []) else none := by
  have hp : ∀ c ∈ line, decide (c ≠ '\n') := fun c hc => by simpa using ne_of_mem_of_not_mem hc hl
  have ht := List.takeWhile_eq_self_iff.mpr hp
  have hd := List.dropWhile_eq_nil_iff.mpr hp
  obtain ⟨c, rest, rfl⟩ := List.exists_cons_of_ne_nil hn
  rw [cutAtFence]
  simp only [ht, hd, List.tail_nil, cutAtFence_nil, Option.map_none]

theorem cutAtFence_eq_none_iff : cutAtFence cs = none ↔ ∀ line ∈ lines cs, ¬isFence line := by
  induction cs using line_induction
  case nil => simp [cutAtFence_nil]
  case last line hn hl => simp [cutAtFence_last hn hl, lines_of_not_mem hn hl]
  case line line cs hl hi =>
    rw [cutAtFence_line hl, lines_line hl]
    by_cases hf : isFence line
    · simp [hf]
    · simp [hf, hi]

theorem exists_of_cutAtFence (h : cutAtFence cs = some (before, behind)) :
    ∃ fence nl, cs = before ++ (fence ++ (nl ++ behind)) ∧ IsUnfenced before ∧ IsFence fence ∧
      IsBreak nl behind := by
  induction cs using line_induction generalizing before
  case nil => simp [cutAtFence_nil] at h
  case last line hn hl =>
    rw [cutAtFence_last hn hl] at h
    split at h
    case isTrue hf =>
      obtain ⟨rfl, rfl⟩ : [] = before ∧ [] = behind := by simpa using h
      exact ⟨line, [], by simp, .nil, ⟨hf, hl⟩, .inr ⟨rfl, rfl⟩⟩
    case isFalse => simp at h
  case line line cs hl hi =>
    rw [cutAtFence_line hl] at h
    split at h
    case isTrue hf =>
      obtain ⟨rfl, rfl⟩ : [] = before ∧ cs = behind := by simpa using h
      exact ⟨line, ['\n'], by simp, .nil, ⟨hf, hl⟩, .inl rfl⟩
    case isFalse hf =>
      obtain ⟨⟨b, r⟩, hc, he⟩ := Option.map_eq_some_iff.mp h
      obtain ⟨rfl, rfl⟩ : line ++ '\n' :: b = before ∧ r = behind := by simpa using he
      obtain ⟨fence, nl, rfl, hb, hfence, hnl⟩ := hi hc
      exact ⟨fence, nl, by simp, (isUnfenced_line_iff hl).mpr ⟨hf, hb⟩, hfence, hnl⟩

-- Lines that are no fences do not matter to where the text behind them is cut.
theorem IsUnfenced.cutAtFence_append (h : IsUnfenced xs) (cs : List Char) :
    cutAtFence (xs ++ cs) = (cutAtFence cs).map fun (before, behind) => (xs ++ before, behind) := by
  induction xs using line_induction
  case nil => simp
  case last line hn hl => exact absurd (List.mem_of_getLast? (h.1.resolve_left hn)) hl
  case line line xs hl hi =>
    obtain ⟨hf, h⟩ := (isUnfenced_line_iff hl).mp h
    rw [List.append_assoc, List.cons_append, cutAtFence_line hl, if_neg hf, hi h, Option.map_map]
    congr 1
    funext ⟨b, r⟩
    simp

theorem cutAtFence_eq_some_iff : cutAtFence cs = some (before, behind) ↔
    ∃ fence nl, cs = before ++ (fence ++ (nl ++ behind)) ∧ IsUnfenced before ∧ IsFence fence ∧
      IsBreak nl behind := by
  refine ⟨exists_of_cutAtFence, ?_⟩
  rintro ⟨fence, nl, rfl, hb, hf, hnl⟩
  have hc : cutAtFence (fence ++ (nl ++ behind)) = some ([], behind) := by
    rcases hnl with rfl | ⟨rfl, rfl⟩
    case inl => rw [List.singleton_append, cutAtFence_line hf.2, if_pos hf.1]
    case inr => rw [List.nil_append, List.append_nil, cutAtFence_last hf.ne_nil hf.2, if_pos hf.1]
  simp [hb.cutAtFence_append, hc]

theorem countP_lines_eq_zero_iff : (lines cs).countP isFence = 0 ↔ cutAtFence cs = none := by
  rw [List.countP_eq_zero, cutAtFence_eq_none_iff]

-- Behind the first fence of a text is one fence less.
theorem countP_lines_of_cutAtFence (h : cutAtFence cs = some (before, behind)) :
    (lines cs).countP isFence = (lines behind).countP isFence + 1 := by
  obtain ⟨fence, nl, rfl, hb, hf, hnl⟩ := exists_of_cutAtFence h
  have hl : lines (fence ++ (nl ++ behind)) = fence :: lines behind := by
    rcases hnl with rfl | ⟨rfl, rfl⟩
    case inl => rw [List.singleton_append, lines_line hf.2]
    case inr => simp [lines_of_not_mem hf.ne_nil hf.2]
  rw [lines_append hb.1, hl, List.countP_append, List.countP_eq_zero.mpr hb.2,
    List.countP_cons_of_pos hf.1, Nat.zero_add]

theorem split_eq_ok_iff {text frontMatter body : String} :
    split text = .ok (frontMatter, body) ↔
      IsDocument text.toList frontMatter.toList body.toList := by
  constructor
  · intro h
    rcases hc : cutAtFence text.toList with _ | ⟨before, below⟩
    case none => simp [split, hc] at h
    case some =>
      rcases hd : cutAtFence below with _ | ⟨fm, b⟩
      case none => simp [split, hc, hd] at h
      case some =>
        obtain ⟨rfl, rfl⟩ : String.ofList fm = frontMatter ∧ String.ofList b = body := by
          simpa [split, hc, hd] using h
        obtain ⟨opening, nl, hs, hi, ho, rfl | ⟨-, rfl⟩⟩ := exists_of_cutAtFence hc
        case inr => simp [cutAtFence_nil] at hd
        case inl =>
          obtain ⟨closing, nl, rfl, hm, hf, hnl⟩ := exists_of_cutAtFence hd
          rw [String.toList_ofList, String.toList_ofList]
          exact ⟨before, opening, closing, nl, hs, hi, ho, hm, hf, hnl⟩
  · rintro ⟨intro, opening, closing, nl, hs, hi, ho, hm, hf, hnl⟩
    have hc := cutAtFence_eq_some_iff.mpr ⟨opening, ['\n'], hs, hi, ho, .inl rfl⟩
    have hd := cutAtFence_eq_some_iff.mpr ⟨closing, nl, rfl, hm, hf, hnl⟩
    simp [split, hc, hd]

theorem split_eq_missingStartFence_iff (text : String) :
    split text = .error .missingStartFence ↔ (lines text.toList).countP isFence = 0 := by
  rw [countP_lines_eq_zero_iff]
  rcases hc : cutAtFence text.toList with _ | ⟨before, below⟩
  case none => simp [split, hc]
  case some => rcases hd : cutAtFence below <;> simp [split, hc, hd]

theorem split_eq_missingEndFence_iff (text : String) :
    split text = .error .missingEndFence ↔ (lines text.toList).countP isFence = 1 := by
  rcases hc : cutAtFence text.toList with _ | ⟨before, below⟩
  case none => simp [split, hc, countP_lines_eq_zero_iff.mpr hc]
  case some =>
    rw [countP_lines_of_cutAtFence hc, Nat.add_eq_right, countP_lines_eq_zero_iff]
    rcases hd : cutAtFence below <;> simp [split, hc, hd]

-- Splitting fails without a fence, or with a single one, and else takes the document apart.
theorem split_grammar (text : String) :
    (split text = .error .missingStartFence ↔ (lines text.toList).countP isFence = 0) ∧
    (split text = .error .missingEndFence ↔ (lines text.toList).countP isFence = 1) ∧
    ((∃ frontMatter body, split text = .ok (frontMatter, body)) ↔
      2 ≤ (lines text.toList).countP isFence) ∧
    ∀ frontMatter body : String, split text = .ok (frontMatter, body) ↔
      IsDocument text.toList frontMatter.toList body.toList := by
  have hs := split_eq_missingStartFence_iff text
  have he := split_eq_missingEndFence_iff text
  refine ⟨hs, he, ?_, fun _ _ => split_eq_ok_iff⟩
  rw [Nat.two_le_iff, Ne, Ne, ← hs, ← he]
  rcases split text with (_ | _) | ⟨frontMatter, body⟩ <;> simp

end StaticSite.FrontMatter
