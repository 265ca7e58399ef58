/-!
Blank characters and what is left of a text without them at its ends. Main statements: a trimmed
text neither begins nor ends with a blank (`trimStart_head`, `trimEnd_getLast`), and a text is
trimmed if it does not (`trim_eq_self_iff`).
-/
namespace StaticSite.Text

-- Whether `c` is white space: the Unicode property `White_Space`.
def isBlank (c : Char) : Bool :=
  let n := c.toNat
  (9 ≤ n && n ≤ 13) || n == 32 || n == 0x85 || n == 0xA0 || n == 0x1680 ||
    (0x2000 ≤ n && n ≤ 0x200A) || n == 0x2028 || n == 0x2029 || n == 0x202F || n == 0x205F ||
    n == 0x3000

def trimStart (cs : List Char) : List Char :=
  cs.dropWhile isBlank

def trimEnd (cs : List Char) : List Char :=
  (cs.reverse.dropWhile isBlank).reverse

def trim (cs : List Char) : List Char :=
  trimEnd (trimStart cs)

theorem isBlank_of_isWhitespace {c : Char} (h : c.isWhitespace) : isBlank c := by
  simp only [Char.isWhitespace, Bool.or_eq_true, decide_eq_true_eq] at h
  rcases h with ((rfl | rfl) | rfl) | rfl <;> decide

theorem trimStart_head {cs : List Char} (h : trimStart cs ≠ []) :
    ¬isBlank ((trimStart cs).head h) := by
  simpa [trimStart] using List.head_dropWhile_not isBlank (by simpa [trimStart] using h)

theorem trimEnd_getLast {cs : List Char} (h : trimEnd cs ≠ []) :
    ¬isBlank ((trimEnd cs).getLast h) := by
  have hr : cs.reverse.dropWhile isBlank ≠ [] := by simpa [trimEnd] using h
  simpa [trimEnd, List.getLast_reverse] using List.head_dropWhile_not isBlank hr

theorem trimEnd_cons {x : Char} (hx : ¬isBlank x) (cs : List Char) :
    trimEnd (x :: cs) = x :: trimEnd cs := by
  rw [trimEnd, List.reverse_cons, List.dropWhile_append, List.dropWhile_cons_of_neg hx]
  split
  case isTrue h => rw [trimEnd, List.isEmpty_iff.mp h]; rfl
  case isFalse => rw [List.reverse_append]; rfl

variable {x : Char} {cs : List Char}

theorem trimStart_sublist (cs : List Char) : (trimStart cs).Sublist cs :=
  List.dropWhile_sublist isBlank

theorem trimEnd_sublist (cs : List Char) : (trimEnd cs).Sublist cs := by
  rw [trimEnd, ← List.sublist_reverse_iff]
  exact List.dropWhile_sublist isBlank

theorem trimStart_eq_self_iff : trimStart cs = cs ↔ ∀ x ∈ cs.head?, ¬isBlank x := by
  cases cs with
  | nil => simp [trimStart]
  | cons x cs =>
    by_cases hx : isBlank x
    case pos =>
      have hl := (trimStart_sublist cs).length_le
      refine iff_of_false (fun he => ?_) (by simpa using hx)
      rw [trimStart, List.dropWhile_cons_of_pos hx] at he
      rw [trimStart, he, List.length_cons] at hl
      omega
    case neg => exact iff_of_true (List.dropWhile_cons_of_neg hx) (by simpa using hx)

theorem trimEnd_eq_self_iff : trimEnd cs = cs ↔ ∀ x ∈ cs.getLast?, ¬isBlank x := by
  rw [← List.head?_reverse, ← trimStart_eq_self_iff, trimStart, trimEnd]
  exact ⟨fun h => List.reverse_eq_iff.mp h, fun h => List.reverse_eq_iff.mpr h⟩

theorem trim_eq_self_iff :
    trim cs = cs ↔ (∀ x ∈ cs.head?, ¬isBlank x) ∧ ∀ x ∈ cs.getLast?, ¬isBlank x := by
  rw [← trimStart_eq_self_iff, ← trimEnd_eq_self_iff, trim]
  refine ⟨fun h => ?_, fun h => by rw [h.1, h.2]⟩
  have hs : trimStart cs = cs := by
    refine (trimStart_sublist cs).eq_of_length_le ?_
    have := (trimEnd_sublist (trimStart cs)).length_le
    rwa [h] at this
  exact ⟨hs, by rwa [hs] at h⟩

theorem trim_cons_of_isBlank (hx : isBlank x) (cs : List Char) : trim (x :: cs) = trim cs := by
  rw [trim, trimStart, List.dropWhile_cons_of_pos hx]
  rfl

theorem trimEnd_append_of_isBlank (hx : isBlank x) (cs : List Char) :
    trimEnd (cs ++ [x]) = trimEnd cs := by
  simp [trimEnd, hx]

theorem trim_append_of_isBlank (hx : isBlank x) (cs : List Char) : trim (cs ++ [x]) = trim cs := by
  rw [trim, trimStart, List.dropWhile_append]
  split
  case isTrue h =>
    rw [trim, trimStart, List.isEmpty_iff.mp h]
    simp [hx]
  case isFalse => exact trimEnd_append_of_isBlank hx _

end StaticSite.Text
