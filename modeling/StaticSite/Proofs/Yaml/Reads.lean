import Mathlib.Data.List.TakeWhile
import StaticSite.Proofs.Yaml.Document
import StaticSite.Proofs.Yaml.Scalars
/-!
How the lexer gets from place to place in block collections (`Reads`), where a place is known by
what has been read and which blocks are open as a token begins (`At`). Main statements: a token is
read there as the blocks around it are (`At.step`), and a text that is read to its end has the
tokens that were read (`ofText_of_reads`).
-/
namespace StaticSite.Yaml.Lexer

variable {s s' : Lexer} {c : Cursor} {x : Char} {rest tail : List Char} {n : Nat} {allowed : Bool}
  {tokens : List Token} {column i : Int} {indents blocks : List Int} {q : Nat}

-- Reading goes on from `s'`, at least as many steps later as characters have been read.
def Steps (s s' : Lexer) : Prop :=
  ∃ k, k + s'.cursor.rest.length ≤ s.cursor.rest.length ∧ ∀ n, run (n + k) s = run n s'

-- Reading comes upon a key that is not allowed.
def Fails (s : Lexer) : Prop :=
  ∃ k ≤ s.cursor.rest.length, ∀ n, run (n + k) s = .error .notAllowedHere

theorem Steps.refl (s : Lexer) : Steps s s :=
  ⟨0, by simp, fun _ => rfl⟩

theorem Steps.trans {s'' : Lexer} (h : Steps s s') (h' : Steps s' s'') : Steps s s'' := by
  obtain ⟨j, hj, hs⟩ := h
  obtain ⟨k, hk, hs'⟩ := h'
  exact ⟨k + j, by omega, fun n => by rw [← Nat.add_assoc, hs, hs']⟩

theorem Steps.fails (h : Steps s s') (h' : Fails s') : Fails s := by
  obtain ⟨j, hj, hs⟩ := h
  obtain ⟨k, hk, hs'⟩ := h'
  exact ⟨k + j, by omega, fun n => by rw [← Nat.add_assoc, hs, hs']⟩

-- Reading comes to where `goal` holds, if it `fits`, and fails otherwise.
def Reads (fits : Prop) (s : Lexer) (goal : Lexer → Prop) : Prop :=
  (fits → ∃ s', Steps s s' ∧ goal s') ∧ (¬fits → Fails s)

variable {p p' : Prop} {goal goal' : Lexer → Prop}

theorem Reads.pure (h : goal s) (hp : p) : Reads p s goal :=
  ⟨fun _ => ⟨s, .refl s, h⟩, fun hn => absurd hp hn⟩

theorem Reads.bind (h : Reads p s goal) (h' : ∀ s', goal s' → Reads p' s' goal') :
    Reads (p ∧ p') s goal' := by
  by_cases hp : p
  case pos =>
    obtain ⟨s', hs, hg⟩ := h.1 hp
    refine ⟨fun hp => ?_, fun hn => ?_⟩
    · obtain ⟨s'', hs', hg'⟩ := (h' s' hg).1 hp.2
      exact ⟨s'', hs.trans hs', hg'⟩
    · exact hs.fails ((h' s' hg).2 fun hp' => hn ⟨hp, hp'⟩)
  case neg => exact ⟨fun h => absurd h.1 hp, fun _ => h.2 hp⟩

theorem Reads.mono (h : Reads p s goal) (hp : p ↔ p') (hg : ∀ s', goal s' → goal' s') :
    Reads p' s goal' := by
  refine ⟨fun h' => ?_, fun h' => h.2 (mt hp.mp h')⟩
  obtain ⟨s', hs, hgoal⟩ := h.1 (hp.mpr h')
  exact ⟨s', hs, hg s' hgoal⟩

theorem Steps.reads (h : Steps s s') (h' : Reads p s' goal) : Reads p s goal :=
  ⟨fun hp => let ⟨s'', hs, hg⟩ := h'.1 hp; ⟨s'', h.trans hs, hg⟩, fun hn => h.fails (h'.2 hn)⟩

theorem atToken_of_isStart (h : s.cursor.rest = x :: rest) (hx : IsStart x) : s.AtToken := by
  obtain ⟨hg, hb, hc⟩ := hx
  simp only [isGap, Bool.or_eq_true, beq_iff_eq, not_or] at hg
  intro y hy
  rw [Cursor.peek?_eq_head?, h] at hy
  cases hy
  exact ⟨hg.1, hb, hc, fun ht => absurd ht hg.2⟩

variable {candidates : List (Option Candidate)} {indent : Int} {inner outer opened : List Int}

-- The blocks deeper than `column` are closed, and marked as such.
theorem closeBlocks_go_eq (h : indent :: outer = opened ++ i :: indents)
    (ho : ∀ j ∈ opened, column < j) (hi : indents = [] ∨ i ≤ column) :
    closeBlocks.go column ⟨c, tokens.toArray, candidates, allowed, indent, inner, q⟩ outer =
      ⟨c, (tokens ++ List.replicate opened.length Token.blockEnd).toArray, candidates, allowed, i,
        indents, q⟩ := by
  induction opened generalizing tokens indent inner outer with
  | nil =>
    obtain ⟨rfl, rfl⟩ := List.cons.inj h
    cases outer with
    | nil => simp [closeBlocks.go]
    | cons j outer =>
      have : ¬column < indent := by simpa using hi
      simp [closeBlocks.go, this]
  | cons j opened ih =>
    obtain ⟨rfl, hn⟩ := List.cons.inj h
    rw [List.forall_mem_cons] at ho
    cases outer with
    | nil => simp at hn
    | cons j outer =>
      rw [closeBlocks.go, if_pos ho.1]
      simp only [push, List.push_toArray]
      rw [ih (List.cons.inj h).2 ho.2]
      simp [List.replicate_succ]

-- Closing all blocks can be done in two steps.
theorem closeBlocks_go_all {k : Option Candidate} (tokens : List Token) (column : Int)
    (inner : List Int) (h : indent :: outer = opened ++ [-1]) (ho : ∀ j ∈ opened, -1 < j) :
    ∃ (before : List Token) (indent' : Int) (indents' : List Int),
      closeBlocks.go column ⟨c, tokens.toArray, [k], allowed, indent, inner, q⟩ outer =
        ⟨c, before.toArray, [k], allowed, indent', indents', q⟩ ∧
      closeBlocks.go (-1) ⟨c, before.toArray, [k], allowed, indent', indents', q⟩ indents' =
        ⟨c, (tokens ++ List.replicate opened.length Token.blockEnd).toArray, [k], allowed, -1, [],
          q⟩ := by
  induction opened generalizing tokens indent inner outer with
  | nil =>
    obtain ⟨rfl, rfl⟩ := List.cons.inj h
    exact ⟨tokens, -1, [], rfl, by simp [closeBlocks.go]⟩
  | cons j opened hi =>
    obtain ⟨rfl, hn⟩ := List.cons.inj h
    cases outer with
    | nil => simp at hn
    | cons o outer =>
      by_cases hj : column < indent
      case pos =>
        obtain ⟨before, indent', indents', he, he'⟩ :=
          hi (tokens ++ [.blockEnd]) inner hn (List.forall_mem_cons.mp ho).2
        refine ⟨before, indent', indents', ?_, ?_⟩
        · rw [closeBlocks.go, if_pos hj]
          simpa [push] using he
        · rw [he']
          simp [List.replicate_succ]
      case neg =>
        refine ⟨tokens, indent, o :: outer, ?_, closeBlocks_go_eq h ho (.inl rfl)⟩
        rw [closeBlocks.go, if_neg hj]

-- The blanks before `rest` skipped, the next token is at `column`, and may begin a key if
-- `allowed`. As soon as the blocks deeper than that are closed, the tokens read are `tokens`, and
-- the open blocks `blocks`. At the end of the text, the column is -1.
inductive At (s : Lexer) (rest : List Char) (column : Int) (allowed : Bool) (tokens : List Token)
    (blocks : List Int) : Prop where
  | intro (c : Cursor) (before : List Token) (k : Option Candidate) (a : Bool) (indent : Int)
    (indents opened : List Int) (q : Nat)
    (settled : s.skipBlanks.dropStale = .ok ⟨c, before.toArray, [k], a, indent, indents, q⟩)
    (rest_eq : c.rest = rest) (length_le : rest.length ≤ s.cursor.rest.length)
    (required : ∀ y ∈ k, ¬y.required)
    (blocks_eq : indent :: indents = opened ++ blocks) (deeper : ∀ j ∈ opened, column < j)
    (tokens_eq : tokens = before ++ List.replicate opened.length .blockEnd)
    (place : rest ≠ [] → k = none ∧ (c.column : Int) = column ∧ a = allowed)

namespace At

-- A block that is deeper than what comes next is closed.
theorem close (h : At s rest column allowed tokens (i :: blocks)) (hi : column < i) :
    At s rest column allowed (tokens ++ [.blockEnd]) blocks := by
  obtain ⟨c, before, k, a, indent, indents, opened, q, hs, hr, hl, hq, hb, hd, rfl, hp⟩ := h
  refine ⟨c, before, k, a, indent, indents, opened ++ [i], q, hs, hr, hl, hq, ?_, ?_, ?_, hp⟩
  · simp [hb]
  · simpa [or_imp, forall_and] using ⟨hd, hi⟩
  · simp [List.replicate_succ']

-- How the next token is read.
theorem step (h : At s (x :: rest) column allowed tokens (i :: indents)) (hi : i ≤ column)
    (hx : ∀ c q, c.rest = x :: rest → (c.column : Int) = column → ∃ s',
      next ⟨c, tokens.toArray, [none], allowed, i, indents, q⟩ x = .ok s' ∧
        s'.cursor.rest.length ≤ rest.length ∧ Reads p s' goal) : Reads p s goal := by
  obtain ⟨c, before, k, a, indent, inner, opened, q, hs, hr, hl, -, hb, hd, rfl, hp⟩ := h
  obtain ⟨rfl, hcol, rfl⟩ := hp (List.cons_ne_nil _ _)
  obtain ⟨s', hn, hlen, hreads⟩ := hx c q hr hcol
  refine Steps.reads ⟨1, ?_, fun n => ?_⟩ hreads
  · simp only [List.length_cons] at hl
    omega
  · have hclose : closeBlocks ⟨c, before.toArray, [none], a, indent, inner, q⟩ c.column =
        ⟨c, (before ++ List.replicate opened.length Token.blockEnd).toArray, [none], a, i, indents,
          q⟩ := by
      rw [hcol]
      exact closeBlocks_go_eq hb hd (.inr hi)
    rw [run, hs]
    simp only [bind, Except.bind, hclose]
    rw [Cursor.peek?_eq_some_iff.mpr ⟨_, hr⟩]
    simp only [hn]

-- How the end is read. The blocks that are deeper than the last column are closed first.
theorem finish (h : At s [] (-1) allowed tokens [-1]) (n : Nat) :
    ∃ s', run (n + 1) s = .ok s' ∧ s'.tokens.toList = tokens ++ [.streamEnd] := by
  obtain ⟨c, before, k, a, indent, inner, opened, q, hs, hr, -, hk, hb, hd, rfl, -⟩ := h
  obtain ⟨before', indent', indents', he, he'⟩ := closeBlocks_go_all before c.column inner hb hd
  rw [run, hs]
  have hclose : closeBlocks ⟨c, before.toArray, [k], a, indent, inner, q⟩ c.column = _ := he
  have hclose' : closeBlocks ⟨c, before'.toArray, [k], a, indent', indents', q⟩ (-1) = _ := he'
  simp only [bind, Except.bind, hclose]
  rw [Cursor.peek?_eq_head?, hr]
  simp only [List.head?_nil, streamEnd, hclose', bind, Except.bind]
  cases k with
  | none => exact ⟨_, rfl, by simp [push]⟩
  | some y =>
    have hy : ¬y.required := hk y rfl
    simp only [dropCandidate, List.head?_cons, if_neg hy]
    exact ⟨_, rfl, by simp [push, setCandidate]⟩

end At

theorem skipBlanks_of_spaces (h : s.cursor.rest = List.replicate n ' ' ++ rest) :
    s.skipBlanks = { s with cursor := s.cursor.past n rest }.skipBlanks := by
  induction n generalizing s with
  | zero => rw [Cursor.past_zero (show s.cursor.rest = rest from h)]
  | succ n hi =>
    rw [List.replicate_succ, List.cons_append] at h
    rw [skipBlanks_of_space h, Cursor.advance_eq_past h (by decide), hi rfl]
    simp [Cursor.past_past, Nat.add_comm]

-- A candidate that nothing depends on.
def IsLoose (k : Option Candidate) (line : Nat) : Prop :=
  ∀ y ∈ k, ¬y.required ∧ y.line ≤ line

-- What is at the next place: the end of the text, or a line that begins with a token.
inductive Leads : List Char → List Char → Int → Prop where
  | here : Leads [] [] (-1)
  | behindBreak : Leads ['\n'] [] (-1)
  | line (column : Nat) (x : Char) (rest : List Char) (start : IsStart x) :
    Leads ('\n' :: (List.replicate column ' ' ++ x :: rest)) (x :: rest) column

variable {k : Option Candidate}

theorem IsLoose.lt {line line' : Nat} (h : IsLoose k line) (hl : line < line') :
    ∀ y ∈ k, ¬y.required ∧ y.line < line' :=
  fun y hy => ⟨(h y hy).1, Nat.lt_of_le_of_lt (h y hy).2 hl⟩

theorem IsLoose.mono {line line' : Nat} (h : IsLoose k line) (hl : line ≤ line') :
    IsLoose k line' :=
  fun y hy => ⟨(h y hy).1, Nat.le_trans (h y hy).2 hl⟩

theorem dropStale_loose (tokens : List Token) (allowed : Bool) (h : IsLoose k c.line) :
    ∃ k', IsLoose k' c.line ∧ dropStale ⟨c, tokens.toArray, [k], allowed, indent, indents, q⟩ =
      .ok ⟨c, tokens.toArray, [k'], allowed, indent, indents, q⟩ := by
  cases k with
  | none => exact ⟨none, h, rfl⟩
  | some y =>
    have hy := (h y rfl).1
    by_cases hs : y.line < c.line ∨ y.index + 1024 < c.index
    · refine ⟨none, nofun, ?_⟩
      simp [dropStale, hs, hy, bind, Except.bind, pure, Except.pure]
    · refine ⟨some y, h, ?_⟩
      simp [dropStale, hs, bind, Except.bind, pure, Except.pure]

theorem dropStale_stale (h : ∀ y ∈ k, ¬y.required ∧ y.line < c.line) :
    dropStale ⟨c, tokens.toArray, [k], allowed, indent, indents, q⟩ =
      .ok ⟨c, tokens.toArray, [none], allowed, indent, indents, q⟩ := by
  cases k with
  | none => rfl
  | some y => simp [dropStale, h y rfl, bind, Except.bind, pure, Except.pure]

namespace At

theorem of_token (hr : c.rest = x :: rest) (hx : IsStart x)
    (hk : ∀ y ∈ k, ¬y.required ∧ y.line < c.line) :
    At ⟨c, tokens.toArray, [k], allowed, indent, indents, q⟩ (x :: rest) c.column allowed tokens
      (indent :: indents) := by
  refine ⟨c, tokens, none, allowed, indent, indents, [], q, ?_, hr, ?_, nofun, rfl, nofun, by simp,
    fun _ => ⟨rfl, rfl, rfl⟩⟩
  · rw [skipBlanks_of_atToken (atToken_of_isStart hr hx), dropStale_stale hk]
  · simp [hr]

theorem of_space (hr : c.rest = ' ' :: x :: rest) (hx : IsStart x) :
    At ⟨c, tokens.toArray, [none], allowed, indent, indents, q⟩ (x :: rest) (c.column + 1) allowed
      tokens (indent :: indents) := by
  refine ⟨c.past 1 (x :: rest), tokens, none, allowed, indent, indents, [], q, ?_, rfl, ?_, nofun,
    rfl, nofun, by simp, fun _ => ⟨rfl, rfl, rfl⟩⟩
  · rw [skipBlanks_of_space hr, Cursor.advance_eq_past hr (by decide),
      skipBlanks_of_atToken (atToken_of_isStart rfl hx)]
    rfl
  · simp [hr]

-- The end of the text.
theorem of_end (hr : c.rest = []) (hk : IsLoose k c.line) :
    At ⟨c, tokens.toArray, [k], allowed, indent, indents, q⟩ [] (-1) true tokens
      (indent :: indents) := by
  obtain ⟨k', hk', hs⟩ := dropStale_loose tokens allowed hk
  refine ⟨c, tokens, k', allowed, indent, indents, [], q, ?_, hr, by simp, fun y hy => (hk' y hy).1,
    rfl, nofun, by simp, fun hn => absurd rfl hn⟩
  rw [skipBlanks_of_atToken (by simp [AtToken, Cursor.peek?_eq_head?, hr]), hs]

theorem of_skipBlanks_eq (h : s.skipBlanks = s'.skipBlanks)
    (hl : s'.cursor.rest.length ≤ s.cursor.rest.length)
    (h' : At s' rest column allowed tokens blocks) : At s rest column allowed tokens blocks := by
  obtain ⟨c, before, k, a, indent, indents, opened, q, hs, hr, hle, hq, hb, hd, ht, hp⟩ := h'
  exact ⟨c, before, k, a, indent, indents, opened, q, h ▸ hs, hr, Nat.le_trans hle hl, hq, hb, hd,
    ht, hp⟩

theorem of_leads (hl : Leads c.rest rest column) (hk : IsLoose k c.line) :
    At ⟨c, tokens.toArray, [k], allowed, indent, indents, q⟩ rest column true tokens
      (indent :: indents) := by
  generalize hr : c.rest = tail at hl
  have hbreak {more : List Char} (hr : c.rest = '\n' :: more)
      (h : At ⟨⟨more, c.index + 1, c.line + 1, 0⟩, tokens.toArray, [k], true, indent, indents, q⟩
        rest column true tokens (indent :: indents)) :
      At ⟨c, tokens.toArray, [k], allowed, indent, indents, q⟩ rest column true tokens
        (indent :: indents) := by
    refine of_skipBlanks_eq (skipBlanks_of_break hr rfl)
      (Nat.le_of_lt (Cursor.length_skipBreak_lt hr rfl)) ?_
    simp only [Cursor.skipBreak_eq hr]
    have ha : (allowed || !inFlow ⟨c, tokens.toArray, [k], allowed, indent, indents, q⟩) = true :=
      by cases allowed <;> rfl
    rwa [ha]
  cases hl with
  | here => exact of_end hr hk
  | behindBreak => exact hbreak hr (of_end rfl (hk.mono (Nat.le_succ _)))
  | line column x rest hx =>
    refine hbreak hr (of_skipBlanks_eq (skipBlanks_of_spaces rfl) (by simp) ?_)
    have hcol : (column : Int) = (Cursor.past ⟨List.replicate column ' ' ++ x :: rest, c.index + 1,
      c.line + 1, 0⟩ column (x :: rest)).column := by simp
    rw [hcol]
    exact of_token rfl hx (hk.lt (Nat.lt_succ_self _))

end At

-- Once all of a text has been read, so have its tokens.
theorem ofText_of_reads {text : String}
    (h : Reads p { cursor := Cursor.ofText text } (At · [] (-1) allowed tokens [-1])) :
    (p → Token.ofText text = .ok (tokens ++ [.streamEnd])) ∧
      (¬p → Token.ofText text = .error .notAllowedHere) := by
  refine ⟨fun hp => ?_, fun hn => ?_⟩
  case refine_1 =>
    obtain ⟨s, ⟨k, hk, hs⟩, h⟩ := h.1 hp
    dsimp only at hk
    obtain ⟨n, hn⟩ : ∃ n, (Cursor.ofText text).rest.length + 2 = n + 1 + k :=
      ⟨(Cursor.ofText text).rest.length + 1 - k, by omega⟩
    obtain ⟨s', hs', ht⟩ := h.finish n
    rw [Token.ofText]
    rw [hn, hs, hs']
    simp [bind, Except.bind, ht, pure, Except.pure]
  case refine_2 =>
    obtain ⟨k, hk, hs⟩ := h.2 hn
    dsimp only at hk
    obtain ⟨n, hn⟩ : ∃ n, (Cursor.ofText text).rest.length + 2 = n + k :=
      ⟨(Cursor.ofText text).rest.length + 2 - k, by omega⟩
    rw [Token.ofText]
    rw [hn, hs]
    rfl

theorem rest_ofText {text : String} (h : '\x00' ∉ text.toList) :
    (Cursor.ofText text).rest = text.toList := by
  refine List.takeWhile_eq_self_iff.mpr fun x hx => ?_
  simpa using fun hn : x = '\x00' => h (hn ▸ hx)

-- The mark before a document.
theorem steps_documentStart (hr : c.rest = '-' :: '-' :: '-' :: '\n' :: rest) (hc : c.column = 0) :
    Steps { cursor := c }
      ⟨c.past 3 ('\n' :: rest), #[.documentStart], [none], false, -1, [], 0⟩ := by
  have hm : c.atDocumentMark := by
    simp [Cursor.atDocumentMark, hc, hr, Cursor.peek?, endsWord, isBreak]
  refine ⟨1, by simp [hr]; omega, fun n => ?_⟩
  have hs : skipBlanks { cursor := c } = { cursor := c } :=
    skipBlanks_of_atToken (atToken_of_isStart hr (by decide))
  have ht : c.advanceBy 3 = c.past 3 ('\n' :: rest) :=
    Cursor.advanceBy_eq_past (show c.rest = ['-', '-', '-'] ++ '\n' :: rest from hr) (by decide)
  rw [run, hs]
  simp [dropStale, closeBlocks, closeBlocks.go, bind, Except.bind, pure, Except.pure, inFlow,
    flowLevel, Cursor.peek?, hr, next, hm, documentMark, dropCandidate, allowKey, take, push, ht]

end StaticSite.Yaml.Lexer
