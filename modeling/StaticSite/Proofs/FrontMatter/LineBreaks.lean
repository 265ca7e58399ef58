import StaticSite.Proofs.FrontMatter.Grammar
/-!
Content files whose lines end with a carriage return and a line feed. Main statement: such a file is
split as the one with line feeds alone is, into the parts of that one with carriage returns put in
(`split_ignores_returns`).
-/
namespace StaticSite

namespace Text

variable {line xs ys : List Char}

-- A text with a carriage return before each line feed.
def crlf (cs : List Char) : List Char :=
  cs.flatMap fun c => if c = '\n' then ['\r', '\n'] else [c]

@[simp]
theorem crlf_nil : crlf [] = [] :=
  rfl

@[simp]
theorem crlf_append : crlf (xs ++ ys) = crlf xs ++ crlf ys :=
  List.flatMap_append

theorem crlf_cons (c : Char) (cs : List Char) :
    crlf (c :: cs) = if c = '\n' then '\r' :: '\n' :: crlf cs else c :: crlf cs := by
  rw [crlf, List.flatMap_cons]
  split <;> rfl

theorem crlf_of_not_mem (hl : '\n' ∉ line) : crlf line = line := by
  induction line
  case nil => rfl
  case cons c line hi =>
    obtain ⟨hc, hl⟩ : '\n' ≠ c ∧ '\n' ∉ line := by simpa using hl
    rw [crlf_cons, if_neg hc.symm, hi hl]

theorem crlf_line (hl : '\n' ∉ line) (cs : List Char) :
    crlf (line ++ '\n' :: cs) = line ++ ['\r'] ++ '\n' :: crlf cs := by
  rw [crlf_append, crlf_of_not_mem hl, List.append_assoc]
  rfl

theorem crlf_eq_nil_iff : crlf xs = [] ↔ xs = [] := by
  cases xs
  case nil => simp
  case cons =>
    rw [crlf_cons]
    split <;> simp

-- No line feed stands alone.
theorem head?_crlf_ne : (crlf xs).head? ≠ some '\n' := by
  cases xs
  case nil => simp
  case cons =>
    rw [crlf_cons]
    split <;> simp_all

-- So the text can be told from what it becomes, even if it has carriage returns of its own.
theorem crlf_injective : Function.Injective crlf := by
  intro xs ys h
  induction xs generalizing ys
  case nil => exact (crlf_eq_nil_iff.mp h.symm).symm
  case cons c xs hi =>
    cases ys
    case nil => exact crlf_eq_nil_iff.mp h
    case cons d ys =>
      rw [crlf_cons, crlf_cons] at h
      split at h <;> split at h
      case isTrue.isTrue hc hd => rw [hc, hd, hi (List.cons.inj (List.cons.inj h).2).2]
      case isTrue.isFalse =>
        have hf := congrArg List.head? (List.cons.inj h).2
        exact absurd hf.symm head?_crlf_ne
      case isFalse.isTrue =>
        have hf := congrArg List.head? (List.cons.inj h).2
        exact absurd hf head?_crlf_ne
      case isFalse.isFalse =>
        obtain ⟨hc, hs⟩ := List.cons.inj h
        rw [hc, hi hs]

def withCrlf (text : String) : String :=
  .ofList (crlf text.toList)

theorem withCrlf_injective : Function.Injective withCrlf := by
  intro a b h
  rw [withCrlf, withCrlf, String.ofList_inj] at h
  exact String.toList_inj.mp (crlf_injective h)

end Text

namespace FrontMatter

open Text

-- A carriage return at the end of a line is a blank, so it does not count.
theorem isFence_concat_return {line : List Char} : isFence (line ++ ['\r']) = isFence line := by
  have hr : isBlank '\r' := by decide
  rw [isFence, isFence, List.dropWhile_append]
  split
  case isTrue h => rw [List.isEmpty_iff.mp h]; decide
  case isFalse => rw [trimEnd_append_of_isBlank hr]

theorem cutAtFence_crlf {cs : List Char} :
    cutAtFence (crlf cs) =
      (cutAtFence cs).map fun (before, behind) => (crlf before, crlf behind) := by
  induction cs using line_induction
  case nil => simp [cutAtFence_nil]
  case last line hn hl =>
    rw [crlf_of_not_mem hl, cutAtFence_last hn hl]
    split <;> simp
  case line line cs hl hi =>
    have hr : '\n' ∉ line ++ ['\r'] := by simpa using hl
    rw [crlf_line hl, cutAtFence_line hr, cutAtFence_line hl, isFence_concat_return, hi]
    split
    case isTrue => rfl
    case isFalse =>
      rw [Option.map_map, Option.map_map]
      congr 1
      funext ⟨before, behind⟩
      simp [crlf_line hl]

theorem split_withCrlf (text : String) :
    split (withCrlf text) = (split text).map (Prod.map withCrlf withCrlf) := by
  rw [split, split, withCrlf, String.toList_ofList, cutAtFence_crlf]
  rcases cutAtFence text.toList with _ | ⟨intro, below⟩
  case none => rfl
  case some =>
    simp only [Option.map_some, cutAtFence_crlf]
    rcases cutAtFence below with _ | ⟨frontMatter, body⟩
    case none => rfl
    case some => simp [Except.map, withCrlf]

-- Which breaks a document has does not matter to whether it is split, nor to where, and its parts
-- keep theirs. This goes for documents with carriage returns of their own as well.
theorem split_ignores_returns (text : String) :
    (∀ e, split (withCrlf text) = .error e ↔ split text = .error e) ∧
    ∀ frontMatter body, split (withCrlf text) = .ok (withCrlf frontMatter, withCrlf body) ↔
      split text = .ok (frontMatter, body) := by
  rw [split_withCrlf]
  rcases split text with e | ⟨frontMatter, body⟩
  case error => simp [Except.map]
  case ok => simp [Except.map, withCrlf_injective.eq_iff]

end FrontMatter

end StaticSite
