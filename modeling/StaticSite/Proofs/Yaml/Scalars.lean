import StaticSite.Proofs.Yaml.Blanks
import StaticSite.Yaml.Token.Plain
import StaticSite.Yaml.Value.Printer
/-!
How scalars are read. Main statements: words with spaces between them are read as they are, up to a
colon that a blank follows (`Plain.scan_eq_of_stop`) or a line that is not indented as deep
(`Plain.scan_eq_of_line`), and so is every text that was put in quotes (`Quoted.scan_eq`).
-/
namespace StaticSite.Yaml

variable {c : Cursor} {x : Char} {cs rest tail : List Char} {n k : Nat}

-- What is known of each of some characters by evaluating it there.
theorem forall_mem_of_all {p : Char → Prop} [DecidablePred p] (h : cs.all (p ·)) :
    ∀ x ∈ cs, p x := by
  simpa using h

theorem exists_spaces (cs : List Char) :
    ∃ k more, cs = List.replicate k ' ' ++ more ∧ more.head? ≠ some ' ' := by
  induction cs with
  | nil => exact ⟨0, [], rfl, nofun⟩
  | cons x cs hi =>
    by_cases hx : x = ' '
    · obtain ⟨k, more, rfl, hh⟩ := hi
      exact ⟨k + 1, more, by rw [hx]; rfl, hh⟩
    · exact ⟨0, x :: cs, rfl, by simpa using hx⟩

namespace Cursor

-- The place `n` characters further on the same line.
def past (c : Cursor) (n : Nat) (rest : List Char) : Cursor :=
  ⟨rest, c.index + n, c.line, c.column + n⟩

@[simp] theorem rest_past : (c.past n rest).rest = rest := rfl
@[simp] theorem index_past : (c.past n rest).index = c.index + n := rfl
@[simp] theorem line_past : (c.past n rest).line = c.line := rfl
@[simp] theorem column_past : (c.past n rest).column = c.column + n := rfl

theorem past_past (m : Nat) (cs : List Char) : (c.past m cs).past n rest = c.past (m + n) rest := by
  simp [past, Nat.add_assoc]

theorem past_zero (h : c.rest = rest) : c.past 0 rest = c := by
  subst h
  rfl

theorem advance_eq_past (h : c.rest = x :: rest) (hx : x ≠ '\n') : c.advance = c.past 1 rest := by
  obtain ⟨_, i, l, k⟩ := c
  cases h
  unfold advance
  split <;> simp_all [past]

theorem advanceBy_eq_past (h : c.rest = cs ++ rest) (hn : '\n' ∉ cs) :
    c.advanceBy cs.length = c.past cs.length rest := by
  induction cs generalizing c with
  | nil => exact (past_zero h).symm
  | cons x cs hi =>
    rw [List.length_cons, advanceBy, advance_eq_past h (by grind), hi rfl (by grind), past_past,
      Nat.add_comm]

theorem skipBreak_eq (h : c.rest = '\n' :: rest) :
    c.skipBreak = ⟨rest, c.index + 1, c.line + 1, 0⟩ := by
  obtain ⟨_, i, l, k⟩ := c
  cases h
  rfl

theorem not_atDocumentMark (h : 0 < c.column) : ¬c.atDocumentMark := by
  simp [atDocumentMark, Nat.ne_of_gt h]

end Cursor

namespace Quoted.Blanks

-- The blanks with `k` more spaces, which count before the first break only.
def addSpaces (b : Blanks) (k : Nat) : Blanks :=
  if b.broken then b else { b with gaps := List.replicate k ' ' ++ b.gaps }

theorem addSpaces_zero (b : Blanks) : b.addSpaces 0 = b := by
  simp [addSpaces]

theorem addSpaces_succ (b : Blanks) (k : Nat) :
    (b.addSpaces 1).addSpaces k = b.addSpaces (k + 1) := by
  unfold addSpaces
  cases hb : b.broken <;> simp [hb, List.replicate_succ']

end Quoted.Blanks

namespace Plain

-- The characters of which words without quotes consist.
def IsInner (x : Char) : Prop :=
  ¬isGap x ∧ ¬isBreak x ∧ x ≠ ':' ∧ x ≠ '#' ∧ x ≠ '\x00'

instance : Decidable (IsInner x) :=
  inferInstanceAs (Decidable (¬isGap x ∧ ¬isBreak x ∧ x ≠ ':' ∧ x ≠ '#' ∧ x ≠ '\x00'))

theorem run_append (h : ∀ x ∈ cs, IsInner x) : run false (cs ++ rest) = cs ++ run false rest := by
  induction cs with
  | nil => rfl
  | cons x cs hi =>
    rw [List.forall_mem_cons] at h
    obtain ⟨⟨hg, hb, hc, -⟩, h⟩ := h
    rw [List.cons_append, run, if_neg (by simp [hg, hb, hc, endsBefore]), hi h, List.cons_append]

variable {indent : Int} {b : Quoted.Blanks}

theorem blanks_stop (h : ∀ x ∈ c.rest.head?, ¬isGap x ∧ ¬isBreak x) :
    blanks indent n b c = .ok (b, c) := by
  cases n with
  | zero => rfl
  | succ n =>
    rw [blanks, Cursor.peek?_eq_head?]
    cases hr : c.rest.head? with
    | none => rfl
    | some x =>
      obtain ⟨hg, hb⟩ := h x hr
      simp [hg, hb]

theorem blanks_spaces (h : c.rest = List.replicate k ' ' ++ rest) :
    blanks indent (n + k) b c = blanks indent n (b.addSpaces k) (c.past k rest) := by
  induction k generalizing b c with
  | zero =>
    rw [Cursor.past_zero (show c.rest = rest from h), Quoted.Blanks.addSpaces_zero]
    rfl
  | succ k hi =>
    rw [List.replicate_succ, List.cons_append] at h
    rw [← Nat.add_assoc, blanks, Cursor.peek?_eq_some_iff.mpr ⟨_, h⟩]
    simp only [show isGap ' ' from rfl, if_true]
    rw [if_neg (by simp), Cursor.advance_eq_past h (by decide), hi rfl, Cursor.past_past,
      Nat.add_comm 1 k]
    exact congrArg (blanks indent n · _) (Quoted.Blanks.addSpaces_succ b k)

theorem blanks_break (h : c.rest = '\n' :: rest) (hb : ¬b.broken) :
    blanks indent (n + 1) b c =
      blanks indent n { b with broken := true } ⟨rest, c.index + 1, c.line + 1, 0⟩ := by
  rw [blanks, Cursor.peek?_eq_some_iff.mpr ⟨_, h⟩]
  simp [show isGap '\n' = false from rfl, show isBreak '\n' = true from rfl, hb,
    Cursor.skipBreak_eq h]

-- Words, with spaces between them.
inductive IsText : List Char → Prop
  | word {word : List Char} (ne_nil : word ≠ []) (inner : ∀ x ∈ word, IsInner x) : IsText word
  | spaced {word more : List Char} (k : Nat) (ne_nil : word ≠ []) (inner : ∀ x ∈ word, IsInner x)
    (text : IsText more) : IsText (word ++ (List.replicate (k + 1) ' ' ++ more))

namespace IsText

theorem cons (hx : IsInner x) (h : IsText cs) : IsText (x :: cs) := by
  cases h with
  | word _ hi => exact .word (List.cons_ne_nil _ _) (List.forall_mem_cons.mpr ⟨hx, hi⟩)
  | spaced k _ hi ht =>
    exact .spaced k (List.cons_ne_nil _ _) (List.forall_mem_cons.mpr ⟨hx, hi⟩) ht

theorem ne_nil (h : IsText cs) : cs ≠ [] := by
  cases h with
  | word hn => exact hn
  | spaced _ hn => simp [hn]

theorem head (h : IsText cs) : ∀ x ∈ cs.head?, IsInner x := by
  cases h with
  | word hn hi => exact fun x hx => hi x (List.mem_of_mem_head? hx)
  | spaced k hn hi =>
    rw [List.head?_append_of_ne_nil _ hn]
    exact fun x hx => hi x (List.mem_of_mem_head? hx)

theorem mem (h : IsText cs) : ∀ x ∈ cs, x = ' ' ∨ IsInner x := by
  induction h with
  | word _ hi => exact fun x hx => .inr (hi x hx)
  | spaced k _ hi _ ih =>
    simp only [List.forall_mem_append]
    exact ⟨fun x hx => .inr (hi x hx), fun x hx => .inl (List.eq_of_mem_replicate hx), ih⟩

theorem of_chars (hn : cs ≠ []) (hi : ∀ x ∈ cs, x = ' ' ∨ IsInner x) (hh : cs.head? ≠ some ' ')
    (hl : cs.getLast? ≠ some ' ') : IsText cs := by
  induction hlen : cs.length using Nat.strongRecOn generalizing cs with
  | ind n ih =>
    obtain ⟨x, cs, rfl⟩ := List.exists_cons_of_ne_nil hn
    have hx : IsInner x := (hi x List.mem_cons_self).resolve_left fun h => hh (by simp [h])
    obtain ⟨k, more, rfl, hs⟩ := exists_spaces cs
    have hi : ∀ y ∈ more, y = ' ' ∨ IsInner y := fun y hy => hi y (by simp [hy])
    by_cases hcs : more = []
    case pos =>
      subst hcs
      cases k with
      | zero => exact .word hn (by simpa using hx)
      | succ k => exact absurd hl (by simp [List.replicate_succ', List.getLast?_cons])
    case neg =>
      rw [← List.cons_append, List.getLast?_append_of_ne_nil _ hcs] at hl
      have ht : IsText more := ih more.length (by simp at hlen; omega) hcs hi hs hl rfl
      cases k with
      | zero => exact cons hx ht
      | succ k => exact IsText.spaced k (List.cons_ne_nil x []) (by simpa using hx) ht

end IsText

variable {text word : List Char}

theorem scan_go_word (hw : word ≠ []) (hi : ∀ x ∈ word, IsInner x) (hr : c.rest = word ++ rest)
    (hm : ¬c.atDocumentMark) (hs : run false rest = []) (hc : rest.head? ≠ some '#') :
    scan.go false indent (n + 1) text b c =
      scan.go false indent (n + 1) (word.reverse ++ (b.fold false ++ text)) { broken := false }
        (c.past word.length rest) := by
  have hrun : run false c.rest = word := by rw [hr, run_append hi, hs, List.append_nil]
  have hpast : c.advanceBy word.length = c.past word.length rest :=
    Cursor.advanceBy_eq_past hr fun hn => (hi _ hn).2.1 rfl
  have hstart : ¬(c.atDocumentMark ∨ c.peek? = some '#') := by
    obtain ⟨x, cs, rfl⟩ := List.exists_cons_of_ne_nil hw
    rw [Cursor.peek?_eq_head?, hr]
    simpa [hm] using (hi x List.mem_cons_self).2.2.2.1
  have hend : ¬((c.past word.length rest).atDocumentMark ∨
      (c.past word.length rest).peek? = some '#') := by
    have hl := List.length_pos_of_ne_nil hw
    rw [Cursor.peek?_eq_head?]
    simp only [not_or]
    exact ⟨Cursor.not_atDocumentMark (by simp; omega), hc⟩
  rw [scan.go, if_neg hstart, scan.go, if_neg hend, hrun, Cursor.rest_past, hs]
  simp [hpast, hw, Cursor.advanceBy]

-- Where a blank follows, what is behind the blanks decides.
theorem scan_go_blank {b' : Quoted.Blanks} {c' : Cursor} (hr : c.rest = x :: rest)
    (hx : isGap x || isBreak x) (hm : ¬c.atDocumentMark)
    (hb : blanks indent (c.rest.length + 1) b c = .ok (b', c')) :
    scan.go false indent (n + 1) text b c =
      if c'.column < indent then .ok (.ofList text.reverse, b'.broken, c')
      else scan.go false indent n text b' c' := by
  have hp : c.peek? = some x := Cursor.peek?_eq_some_iff.mpr ⟨_, hr⟩
  have hrun : run false c.rest = [] := by rw [hr, run, if_pos (by simp [hx])]
  have hstart : ¬(c.atDocumentMark ∨ c.peek? = some '#') := by
    rw [hp]
    rintro (h | h)
    · exact hm h
    · exact absurd (Option.some.inj h ▸ hx) (by decide)
  rw [scan.go, if_neg hstart, hrun]
  simp [Cursor.advanceBy, hp, hx, hb, bind, Except.bind]

theorem scan_go_spaces (hr : c.rest = List.replicate k ' ' ++ rest) (hk : 0 < k)
    (hs : ∀ x ∈ rest.head?, ¬isGap x ∧ ¬isBreak x) (hm : ¬c.atDocumentMark)
    (hi : indent ≤ c.column + k) :
    scan.go false indent (n + 1) text { broken := false } c =
      scan.go false indent n text { gaps := List.replicate k ' ', broken := false }
        (c.past k rest) := by
  have hb : blanks indent (c.rest.length + 1) { broken := false } c =
      .ok ({ gaps := List.replicate k ' ', broken := false }, c.past k rest) := by
    have hl : c.rest.length + 1 = (rest.length + 1) + k := by rw [hr]; simp; omega
    rw [hl, blanks_spaces hr, blanks_stop hs]
    simp [Quoted.Blanks.addSpaces]
  obtain ⟨j, rfl⟩ : ∃ j, k = j + 1 := ⟨k - 1, by omega⟩
  rw [scan_go_blank hr (by decide) hm hb, if_neg]
  simpa using hi

-- A scalar ends at a line break, if what comes next is not indented as deep.
theorem scan_go_line (hr : c.rest = '\n' :: (List.replicate k ' ' ++ rest))
    (hs : ∀ x ∈ rest.head?, ¬isGap x ∧ ¬isBreak x) (hm : ¬c.atDocumentMark) (hi : k < indent) :
    scan.go false indent (n + 1) text { broken := false } c =
      .ok (.ofList text.reverse, true, ⟨rest, c.index + 1 + k, c.line + 1, k⟩) := by
  have hb : blanks indent (c.rest.length + 1) { broken := false } c =
      .ok ({ broken := true }, ⟨rest, c.index + 1 + k, c.line + 1, k⟩) := by
    have hl : c.rest.length + 1 = (rest.length + 1) + k + 1 := by rw [hr]; simp; omega
    rw [hl, blanks_break hr (by simp), blanks_spaces rfl, blanks_stop hs]
    simp [Quoted.Blanks.addSpaces, Cursor.past]
  rw [scan_go_blank hr (by decide) hm hb, if_pos hi]

-- It ends at the end of the text, and at a colon that a blank follows.
theorem scan_go_stop (hs : run false c.rest = []) (hb : ∀ x ∈ c.rest.head?, ¬isGap x ∧ ¬isBreak x) :
    scan.go false indent (n + 1) text b c = .ok (.ofList text.reverse, b.broken, c) := by
  have hp : ¬c.peek?.any fun x => isGap x || isBreak x := by
    rw [Cursor.peek?_eq_head?]
    cases h : c.rest.head? with
    | none => simp
    | some x => simpa using hb x h
  rw [scan.go]
  split
  · rfl
  · simp [hs, Cursor.advanceBy, hp]

theorem scan_go (text : List Char) (hu : IsText cs) (hr : c.rest = cs ++ tail)
    (hc : indent ≤ c.column + 1) (hm : ¬c.atDocumentMark) (hs : run false tail = [])
    (ht : tail.head? ≠ some '#') (hb : ¬b.broken) (hn : cs.length < n) :
    ∃ m, scan.go false indent n text b c =
      scan.go false indent (m + 1) (cs.reverse ++ (b.gaps ++ text)) { broken := false }
        (c.past cs.length tail) := by
  obtain ⟨n, rfl⟩ : ∃ k, n = k + 1 := ⟨n - 1, by omega⟩
  have hfold : b.fold false = b.gaps := by simp [Quoted.Blanks.fold, hb]
  induction hu generalizing c n text b with
  | word hw hi => exact ⟨n, by rw [scan_go_word hw hi hr hm hs ht, hfold]⟩
  | @spaced word more k hw hi hmore ih =>
    have hpos := List.length_pos_of_ne_nil hw
    have hg := hmore.head
    obtain ⟨x, more', rfl⟩ := List.exists_cons_of_ne_nil hmore.ne_nil
    have hx := hg x rfl
    simp only [List.append_assoc] at hr
    rw [scan_go_word hw hi hr hm rfl (by simp [List.replicate_succ]), hfold,
      scan_go_spaces rfl (by omega) (by simp [hx.1, hx.2.1])
        (Cursor.not_atDocumentMark (by simp; omega)) (by simp; omega)]
    simp only [List.length_append, List.length_cons] at hn
    obtain ⟨n, rfl⟩ : ∃ k, n = k + 1 := ⟨n - 1, by omega⟩
    obtain ⟨m, he⟩ := ih (word.reverse ++ (b.gaps ++ text))
      (c := (c.past word.length _).past (k + 1) _)
      (b := { gaps := List.replicate (k + 1) ' ', broken := false }) rfl (by simp; omega)
      (Cursor.not_atDocumentMark (by simp only [Cursor.column_past]; omega)) (by simp) n
      (by simp only [List.length_cons]; omega) (by simp [Quoted.Blanks.fold])
    refine ⟨m, he.trans ?_⟩
    simp [Cursor.past_past, Nat.add_assoc]

-- A scalar ends before a colon that a blank follows, and at the end of the text.
theorem scan_eq_of_stop (hu : IsText cs) (hr : c.rest = cs ++ tail) (hc : indent ≤ c.column + 1)
    (hm : ¬c.atDocumentMark) (hs : run false tail = [])
    (ht : ∀ x ∈ tail.head?, ¬isGap x ∧ ¬isBreak x ∧ x ≠ '#') :
    scan false indent c = .ok (.ofList cs, false, c.past cs.length tail) := by
  obtain ⟨m, he⟩ := scan_go [] hu (b := { broken := false }) hr hc hm hs
    (fun h => (ht _ h).2.2 rfl) nofun (n := c.rest.length + 1)
    (by rw [hr, List.length_append]; omega)
  rw [scan, he, scan_go_stop hs fun x hx => ⟨(ht x hx).1, (ht x hx).2.1⟩]
  simp

-- It ends at a line break as well, if what comes next is not indented as deep.
theorem scan_eq_of_line (hu : IsText cs)
    (hr : c.rest = cs ++ '\n' :: (List.replicate k ' ' ++ rest)) (hc : indent ≤ c.column + 1)
    (hm : ¬c.atDocumentMark) (hk : k < indent) (hs : ∀ x ∈ rest.head?, ¬isGap x ∧ ¬isBreak x) :
    scan false indent c =
      .ok (.ofList cs, true, ⟨rest, c.index + cs.length + 1 + k, c.line + 1, k⟩) := by
  have hpos := List.length_pos_of_ne_nil hu.ne_nil
  obtain ⟨m, he⟩ := scan_go [] hu (b := { broken := false }) hr hc hm rfl (by simp) nofun
    (n := c.rest.length + 1) (by rw [hr, List.length_append]; omega)
  rw [scan, he, scan_go_line rfl hs (Cursor.not_atDocumentMark (by simp; omega)) hk]
  simp

end Plain

namespace Quoted

open Printer (escape)

-- The digits of a character's number.
def codeDigits (n : Nat) : List Char :=
  ['0', '0', Text.hexChar (n / 16), Text.hexChar (n % 16)]

-- A character in quotes is a backslash and a letter, or one and the character's number, or stands
-- for itself.
theorem escape_cases (x : Char) :
    (∃ letter, escape x = ['\\', letter] ∧ escapes.lookup letter = some x ∧ ¬isBreak letter) ∨
    (escape x = '\\' :: 'u' :: codeDigits x.toNat ∧ x.toNat < 128) ∨
    (escape x = [x] ∧ x ≠ '"' ∧ x ≠ '\\' ∧ ¬isBreak x ∧ x ≠ '\t') := by
  unfold escape
  split
  case h_8 hq hb _ ht hn _ hr =>
    split
    case isTrue h => exact .inr (.inl ⟨rfl, by rcases h with h | rfl <;> [omega; decide]⟩)
    case isFalse => exact .inr (.inr ⟨rfl, hq, hb, by simpa [isBreak] using ⟨hn, hr⟩, ht⟩)
  all_goals exact .inl ⟨_, rfl, rfl, by decide⟩

theorem codeDigits_spec : ∀ n < 128, (codeDigits n).all Text.isHexDigit ∧
    Text.ofHex (codeDigits n) = n ∧ n.isValidChar ∧ '\n' ∉ codeDigits n ∧
    '\x00' ∉ codeDigits n := by
  decide

theorem escaped_letter {y : Char} (h : c.rest = x :: rest) (hl : escapes.lookup x = some y)
    (hx : ¬isBreak x) : escaped c = .ok (y, c.past 1 rest) := by
  rw [escaped, Cursor.peek?_eq_some_iff.mpr ⟨_, h⟩]
  simp only [hl]
  rw [Cursor.advance_eq_past h (by rintro rfl; exact hx rfl)]

theorem escaped_number (hn : n < 128) (h : c.rest = 'u' :: (codeDigits n ++ rest)) :
    escaped c = .ok (.ofNat n, c.past 5 rest) := by
  obtain ⟨hd, hx, hv, hb, -⟩ := codeDigits_spec n hn
  have hrest : c.advance.rest.take 4 = codeDigits n := by
    rw [Cursor.rest_advance, h]
    rfl
  have hpast : c.advanceBy 5 = c.past 5 rest :=
    Cursor.advanceBy_eq_past (show c.rest = ('u' :: codeDigits n) ++ rest from h) (by simp [hb])
  rw [escaped, Cursor.peek?_eq_some_iff.mpr ⟨_, h⟩]
  simp only [show escapes.lookup 'u' = none from rfl, show codeLength? 'u' = some 4 from rfl, hrest]
  simp only [hx]
  rw [if_pos ⟨rfl, hd, hv⟩, hpast]

variable {text word : List Char} {b : Blanks}

-- A backslash before anything but a break begins an escape.
theorem run_backslash (h : c.rest = '\\' :: x :: rest) (hx : ¬isBreak x) :
    run '"' (n + 1) text c = (do
      let (meaning, c) ← escaped (c.past 1 (x :: rest))
      run '"' n (meaning :: text) c) := by
  rw [run, Cursor.peek?_eq_some_iff.mpr ⟨_, h⟩, Cursor.advance_eq_past h (by decide)]
  have hp : ¬(c.peek? 1).any isBreak := by rwa [Cursor.peek?, h]
  dsimp only
  rw [if_neg (by decide), if_neg (by decide), if_pos ⟨rfl, rfl⟩, if_neg hp]

-- Each character between quotes is read as itself.
theorem run_escape (h : c.rest = escape x ++ rest) (hx : x ≠ ' ') :
    run '"' (n + 1) text c = run '"' n (x :: text) (c.past (escape x).length rest) := by
  rcases escape_cases x with ⟨letter, he, hl, hb⟩ | ⟨he, hlt⟩ | ⟨he, hq, hs, hb, ht⟩
  case inl =>
    rw [he] at h ⊢
    rw [run_backslash h hb, escaped_letter rfl hl hb]
    rfl
  case inr.inl =>
    rw [he] at h ⊢
    rw [run_backslash h (by decide), escaped_number hlt rfl]
    simp [bind, Except.bind, Cursor.past_past, codeDigits]
  case inr.inr =>
    rw [he] at h ⊢
    have hg : ¬(isGap x || isBreak x) := by simp [isGap, hx, ht, hb]
    rw [run, Cursor.peek?_eq_some_iff.mpr ⟨_, h⟩,
      Cursor.advance_eq_past h (by rintro rfl; exact hb rfl)]
    simp [hg, hq, hs]

theorem run_append (h : c.rest = word.flatMap escape ++ rest) (hw : ' ' ∉ word) :
    run '"' (n + word.length) text c =
      run '"' n (word.reverse ++ text) (c.past (word.flatMap escape).length rest) := by
  induction word generalizing c text with
  | nil => exact congrArg (run '"' n text) (Cursor.past_zero h).symm
  | cons x word hi =>
    rw [List.mem_cons, not_or] at hw
    rw [List.flatMap_cons, List.append_assoc] at h
    rw [List.length_cons, ← Nat.add_assoc, run_escape h (Ne.symm hw.1), hi rfl hw.2]
    simp [Cursor.past_past]

theorem run_quote (h : c.rest = '"' :: rest) :
    run '"' (n + 1) text c = .ok (.quote, text, c.past 1 rest) := by
  rw [run, Cursor.peek?_eq_some_iff.mpr ⟨_, h⟩, Cursor.advance_eq_past h (by decide)]
  rfl

theorem run_space (h : c.rest = ' ' :: rest) : run '"' (n + 1) text c = .ok (.blank, text, c) := by
  rw [run, Cursor.peek?_eq_some_iff.mpr ⟨_, h⟩]
  rfl

theorem blanks_stop (h : ∀ x ∈ c.rest.head?, ¬isGap x ∧ ¬isBreak x) :
    blanks false n b c = (b, c) := by
  cases n with
  | zero => rfl
  | succ n =>
    rw [blanks, Cursor.peek?_eq_head?]
    cases hr : c.rest.head? with
    | none => rfl
    | some x =>
      obtain ⟨hg, hb⟩ := h x hr
      simp [hg, hb]

theorem blanks_spaces (h : c.rest = List.replicate k ' ' ++ rest) :
    blanks false (n + k) b c = blanks false n (b.addSpaces k) (c.past k rest) := by
  induction k generalizing b c with
  | zero =>
    rw [Cursor.past_zero (show c.rest = rest from h), Blanks.addSpaces_zero]
    rfl
  | succ k hi =>
    rw [List.replicate_succ, List.cons_append] at h
    rw [← Nat.add_assoc, blanks, Cursor.peek?_eq_some_iff.mpr ⟨_, h⟩]
    simp only [show isGap ' ' from rfl, if_true]
    rw [Cursor.advance_eq_past h (by decide), hi rfl, Cursor.past_past, Nat.add_comm 1 k]
    exact congrArg (blanks false n · _) (Blanks.addSpaces_succ b k)

theorem head_flatMap_escape (h : cs.head? ≠ some ' ') :
    ∀ x ∈ (cs.flatMap escape ++ '"' :: rest).head?, ¬isGap x ∧ ¬isBreak x := by
  cases cs with
  | nil => simp [isGap, isBreak]
  | cons x cs =>
    rcases escape_cases x with ⟨letter, he, -⟩ | ⟨he, -⟩ | ⟨he, -, -, hb, ht⟩
    · simp [he, isGap, isBreak]
    · simp [he, isGap, isBreak]
    · simp [he, isGap, ht, hb] at h ⊢
      exact h

-- A text is a word, or a word and a text behind spaces.
theorem exists_word (cs : List Char) : ∃ word, ' ' ∉ word ∧
    (cs = word ∨ ∃ k more, more.head? ≠ some ' ' ∧
      cs = word ++ (List.replicate (k + 1) ' ' ++ more)) := by
  induction cs with
  | nil => exact ⟨[], nofun, .inl rfl⟩
  | cons x cs hi =>
    by_cases hx : x = ' '
    case pos =>
      obtain ⟨k, more, rfl, hh⟩ := exists_spaces cs
      exact ⟨[], nofun, .inr ⟨k, more, hh, by rw [hx]; rfl⟩⟩
    case neg =>
      obtain ⟨word, hw, he⟩ := hi
      refine ⟨x :: word, by simp [hw, Ne.symm hx], ?_⟩
      rcases he with rfl | ⟨k, more, hh, rfl⟩
      · exact .inl rfl
      · exact .inr ⟨k, more, hh, rfl⟩

theorem nul_not_mem_escape (x : Char) : '\x00' ∉ escape x := by
  rcases escape_cases x with ⟨letter, he, hl, -⟩ | ⟨he, hlt⟩ | ⟨he, -⟩
  case inl =>
    rw [he]
    intro hm
    obtain rfl : '\x00' = letter := by simpa using hm
    exact nomatch (rfl : escapes.lookup '\x00' = none).symm.trans hl
  case inr.inl =>
    rw [he]
    simpa using (codeDigits_spec x.toNat hlt).2.2.2.2
  case inr.inr =>
    rw [he, List.mem_singleton]
    rintro rfl
    exact absurd he (by decide)

theorem escape_ne_nil (x : Char) : escape x ≠ [] := by
  rcases escape_cases x with ⟨_, he, -⟩ | ⟨he, -⟩ | ⟨he, -⟩ <;> simp [he]

theorem length_le_flatMap_escape (cs : List Char) : cs.length ≤ (cs.flatMap escape).length := by
  induction cs with
  | nil => exact Nat.le_refl _
  | cons x cs hi =>
    have := List.length_pos_of_ne_nil (escape_ne_nil x)
    simp only [List.flatMap_cons, List.length_append, List.length_cons]
    omega

theorem flatMap_escape_spaces (k : Nat) :
    (List.replicate k ' ').flatMap escape = List.replicate k ' ' := by
  induction k with
  | zero => rfl
  | succ k hi => rw [List.replicate_succ, List.flatMap_cons, hi]; rfl

theorem scan_go (h : c.rest = cs.flatMap escape ++ '"' :: rest) (hc : 0 < c.column)
    (hn : cs.length < n) :
    scan.go '"' n text c =
      .ok (.ofList (text.reverse ++ cs), c.past ((cs.flatMap escape).length + 1) rest) := by
  induction n generalizing c cs text with
  | zero => omega
  | succ n hi =>
    have hstart : ¬(c.atDocumentMark ∨ c.rest.isEmpty) := by
      simp [Cursor.not_atDocumentMark hc, h]
    have hfuel {word more : List Char} (hw : c.rest = word.flatMap escape ++ more) :
        ∃ m, c.rest.length + 1 = m + 1 + word.length := by
      have := length_le_flatMap_escape word
      exact ⟨c.rest.length - word.length, by rw [hw, List.length_append]; omega⟩
    rw [scan.go, if_neg hstart]
    obtain ⟨word, hw, rfl | ⟨k, more, hh, rfl⟩⟩ := exists_word cs
    case inl =>
      obtain ⟨m, hm⟩ := hfuel h
      rw [hm, run_append h hw, run_quote rfl]
      simp [bind, Except.bind, Cursor.past_past]
    case inr =>
      simp only [List.flatMap_append, List.append_assoc, flatMap_escape_spaces] at h
      simp only [List.length_append, List.length_replicate] at hn
      obtain ⟨m, hm⟩ := hfuel h
      rw [hm, run_append h hw, run_space rfl]
      have hblanks (c' : Cursor)
          (hr : c'.rest = List.replicate (k + 1) ' ' ++ (more.flatMap escape ++ '"' :: rest)) :
          blanks false (c'.rest.length + 1) { broken := false } c' =
            ({ gaps := List.replicate (k + 1) ' ', broken := false },
              c'.past (k + 1) (more.flatMap escape ++ '"' :: rest)) := by
        have hl : c'.rest.length + 1 =
            (more.flatMap escape ++ '"' :: rest).length + 1 + (k + 1) := by
          rw [hr, List.length_append, List.length_replicate]
          omega
        rw [hl, blanks_spaces hr, blanks_stop (head_flatMap_escape hh)]
        simp [Blanks.addSpaces]
      simp only [bind, Except.bind]
      rw [hblanks _ rfl]
      dsimp only
      rw [hi rfl (by simp only [Cursor.column_past]; omega) (by omega)]
      simp [Cursor.past_past, Blanks.fold, flatMap_escape_spaces, Nat.add_assoc]

-- A text between quotes is read as it was.
theorem scan_eq (h : c.rest = cs.flatMap escape ++ '"' :: rest) (hc : 0 < c.column) :
    scan '"' c = .ok (.ofList cs, c.past ((cs.flatMap escape).length + 1) rest) := by
  have hl := length_le_flatMap_escape cs
  rw [scan, scan_go h hc]
  · rfl
  · rw [h, List.length_append]
    omega

end Quoted

-- The characters that begin something else than a text without quotes.
def indicators : List Char :=
  "[]\x7b\x7d,*&!'\"%@\x60?|>".toList

-- How a text without quotes may begin, so that it is taken for nothing else.
def StartsPlain : List Char → Prop
  | [] => False
  | x :: cs => x ∉ indicators ∧
    (x = '-' → cs.head?.any fun y => Plain.IsInner y ∧ y ≠ '-') ∧
    (x = '.' → cs.head?.any fun y => y ≠ '.')

instance : DecidablePred StartsPlain
  | [] => inferInstanceAs (Decidable False)
  | x :: cs => inferInstanceAs (Decidable (x ∉ indicators ∧
    (x = '-' → cs.head?.any fun y => Plain.IsInner y ∧ y ≠ '-') ∧
    (x = '.' → cs.head?.any fun y => y ≠ '.')))

-- The texts of scalars, with the tokens that they are read as.
inductive IsScalar : List Char → Token → Prop where
  | plain (cs : List Char) (text : Plain.IsText cs) (start : StartsPlain cs) :
    IsScalar cs (.scalar (.ofList cs) true)
  | quoted (cs : List Char) :
    IsScalar ('"' :: (cs.flatMap Printer.escape ++ ['"'])) (.scalar (.ofList cs) false)

-- Whether a token can begin with `x`.
def IsStart (x : Char) : Prop :=
  ¬isGap x ∧ ¬isBreak x ∧ x ≠ '#'

instance : Decidable (IsStart x) :=
  inferInstanceAs (Decidable (¬isGap x ∧ ¬isBreak x ∧ x ≠ '#'))

namespace IsScalar

variable {token : Token}

theorem exists_cons (hw : IsScalar cs token) : ∃ x cs', cs = x :: cs' ∧ IsStart x := by
  cases hw with
  | plain _ text =>
    obtain ⟨x, cs', rfl⟩ := List.exists_cons_of_ne_nil text.ne_nil
    have hx := text.head x rfl
    exact ⟨x, cs', rfl, hx.1, hx.2.1, hx.2.2.2.1⟩
  | quoted _ => exact ⟨_, _, rfl, by decide, by decide, by decide⟩

theorem nul_not_mem (hw : IsScalar cs token) : '\x00' ∉ cs := by
  cases hw with
  | plain _ text => exact fun hm => (text.mem _ hm).elim (by decide) fun hi => hi.2.2.2.2 rfl
  | quoted _ => simp [Quoted.nul_not_mem_escape]

end IsScalar

end StaticSite.Yaml
