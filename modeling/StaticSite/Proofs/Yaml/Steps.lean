import StaticSite.Proofs.Yaml.Reads
/-!
How the lexer reads what block collections consist of. Main statements: it gets over a scalar
(`reads_scalar`), over a key with its colon, if that is near enough (`reads_key`), and over an empty
collection (`reads_brackets`).
-/
namespace StaticSite.Yaml.Lexer

variable {s : Lexer} {c : Cursor} {x : Char} {cs rest tail : List Char} {n : Nat} {allowed : Bool}
  {tokens tokens' : List Token} {token start stop : Token} {column column' i : Int}
  {indents indents' : List Int} {q : Nat} {k : Option Candidate}

-- Whether a block collection that begins with `start` has an entry at `column`: the first, or one
-- of those behind. Before the entry, the tokens are `tokens`, and then `tokens'`.
inductive Opens (start : Token) (column : Int) (tokens : List Token) :
    List Int → List Token → List Int → Prop where
  | first (i : Int) (indents : List Int) (deeper : i < column) :
    Opens start column tokens (i :: indents) (tokens ++ [start]) (column :: i :: indents)
  | next (indents : List Int) :
    Opens start column tokens (column :: indents) tokens (column :: indents)

theorem openBlock_eq {column : Nat} (allowed : Bool) (more : List Token)
    (h : Opens start column tokens (i :: indents) tokens' (column :: indents')) :
    openBlock ⟨c, (tokens ++ more).toArray, [k], allowed, i, indents, q⟩ column start
        tokens.length =
      ⟨c, (tokens' ++ more).toArray, [k], allowed, column, indents', q⟩ := by
  have hf : inFlow ⟨c, (tokens ++ more).toArray, [k], allowed, i, indents, q⟩ = false := rfl
  unfold openBlock
  rw [hf]
  cases h with
  | first _ _ hd =>
    have : ¬(column : Int) ≤ i := by omega
    simp [this, insert, Array.size]
  | next => simp

-- The marks of items, keys and values, with the tokens that open their collections.
inductive IsMark : Char → Token → Token → Prop where
  | item : IsMark '-' .blockSequenceStart .blockEntry
  | key : IsMark '?' .blockMappingStart .key
  | value : IsMark ':' .blockMappingStart .value

-- A mark on its own is read as such where a key may begin.
theorem next_mark {column : Nat} (hm : IsMark x start token) (hr : c.rest = x :: ' ' :: rest)
    (hc : c.column = column)
    (h : Opens start column tokens (i :: indents) tokens' (column :: indents')) :
    next ⟨c, tokens.toArray, [none], true, i, indents, q⟩ x =
      .ok ⟨c.past 1 (' ' :: rest), (tokens' ++ [token]).toArray, [none], true, column, indents',
        q⟩ := by
  have hd : ¬c.atDocumentMark := by cases hm <;> simp [Cursor.atDocumentMark, hr]
  have he : endsWord (c.peek? 1) := by simp [Cursor.peek?, hr, endsWord, isGap]
  have ha : c.advance = c.past 1 (' ' :: rest) :=
    Cursor.advance_eq_past hr (by cases hm <;> decide)
  have ho := openBlock_eq (c := c) (k := none) (q := q) true [] h
  simp only [List.append_nil] at ho
  cases hm <;>
    simp [next, hd, he, blockEntry, key, value, inFlow, flowLevel, hc, ho, dropCandidate, take,
      push, allowKey, Cursor.advanceBy, ha, bind, Except.bind, pure, Except.pure]

theorem next_eq_value (hr : s.cursor.rest = ':' :: rest) (ht : endsWord rest.head?) :
    s.next ':' = s.value := by
  have hd : ¬s.cursor.atDocumentMark := by simp [Cursor.atDocumentMark, hr]
  have he : endsWord (s.cursor.peek? 1) := by
    simpa [Cursor.peek?, hr, List.head?_eq_getElem?] using ht
  simp [next, hd, he]

-- A colon right behind what may be a key.
theorem next_colon_key {y : Candidate} (hr : c.rest = ':' :: rest) (ht : endsWord rest.head?)
    (hy : y.token = tokens.length)
    (h : Opens .blockMappingStart y.column tokens (i :: indents) tokens' (y.column :: indents')) :
    next ⟨c, (tokens ++ [token]).toArray, [some y], false, i, indents, q⟩ ':' =
      .ok ⟨c.past 1 rest, (tokens' ++ [.key, token, .value]).toArray, [none], false, y.column,
        indents', q⟩ := by
  have ho := openBlock_eq (c := c) (k := some y) (q := q) false [.key, token] h
  have hi : insert ⟨c, (tokens ++ [token]).toArray, [some y], false, i, indents, q⟩ tokens.length
      .key = ⟨c, (tokens ++ [.key, token]).toArray, [some y], false, i, indents, q⟩ := by
    simp [insert]
  rw [next_eq_value hr ht, value]
  simp only [List.head?_cons, hy, hi, ho]
  rw [← Cursor.advance_eq_past hr (by decide)]
  simp [take, push, setCandidate, allowKey, Cursor.advanceBy]

-- A colon that comes too late.
theorem next_colon_late (hr : c.rest = ':' :: rest) (ht : endsWord rest.head?) :
    next ⟨c, tokens.toArray, [none], false, i, indents, q⟩ ':' = .error .notAllowedHere := by
  rw [next_eq_value hr ht]
  rfl

-- The candidate that is remembered where a scalar begins.
def candidateAt (c : Cursor) (tokens : List Token) (allowed : Bool) : Option Candidate :=
  if allowed then some ⟨tokens.length, c.index, c.line, c.column, false⟩ else none

theorem saveCandidate_eq :
    saveCandidate ⟨c, tokens.toArray, [none], allowed, i, indents, q⟩ =
      .ok ⟨c, tokens.toArray, [candidateAt c tokens allowed], allowed, i, indents, q⟩ := by
  cases allowed <;> rfl

theorem isLoose_candidateAt : IsLoose (candidateAt c tokens allowed) c.line := by
  cases allowed <;> simp [IsLoose, candidateAt]

theorem not_atDocumentMark_of_startsPlain (h : StartsPlain cs) (hr : c.rest = cs ++ tail) :
    ¬c.atDocumentMark := by
  obtain _ | ⟨x, cs⟩ := cs
  · exact h.elim
  obtain ⟨-, hd, hp⟩ := h
  have hx : x = '-' ∨ x = '.' → ∃ y cs', cs = y :: cs' ∧ y ≠ x := by
    rintro (rfl | rfl)
    · cases cs with
      | nil => exact absurd (hd rfl) Bool.false_ne_true
      | cons y cs' => exact ⟨y, cs', rfl, (of_decide_eq_true (hd rfl)).2⟩
    · cases cs with
      | nil => exact absurd (hp rfl) Bool.false_ne_true
      | cons y cs' => exact ⟨y, cs', rfl, of_decide_eq_true (hp rfl)⟩
  by_cases hm : x = '-' ∨ x = '.'
  case pos =>
    obtain ⟨y, cs', rfl, hn⟩ := hx hm
    rcases hm with rfl | rfl <;> simp [Cursor.atDocumentMark, hr, hn]
  case neg =>
    rw [not_or] at hm
    simp [Cursor.atDocumentMark, hr, hm]

theorem next_eq_plain (h : StartsPlain (x :: cs)) (hi : Plain.IsInner x)
    (hr : s.cursor.rest = x :: cs ++ tail) : s.next x = s.plain := by
  have hm := not_atDocumentMark_of_startsPlain h hr
  obtain ⟨hn, hd, -⟩ := h
  unfold next
  dsimp only
  rw [if_neg (by rintro ⟨-, rfl⟩; exact absurd (by decide) hn), if_neg hm]
  split
  case h_14 =>
    cases cs with
    | nil => exact absurd (hd rfl) Bool.false_ne_true
    | cons y cs' =>
      obtain ⟨hy, -⟩ := of_decide_eq_true (hd rfl)
      rw [if_neg]
      simp [Cursor.peek?, hr, endsWord, hy.1, hy.2.1]
  case h_16 => exact absurd rfl hi.2.2.1
  case h_19 => rfl
  all_goals exact absurd (by decide) hn

theorem next_plain {text : List Char} {broken : Bool} {c' : Cursor} (hu : Plain.IsText (x :: cs))
    (hs : StartsPlain (x :: cs)) (hr : c.rest = x :: cs ++ tail)
    (hscan : Plain.scan false (i + 1) c = .ok (.ofList text, broken, c')) :
    next ⟨c, tokens.toArray, [none], allowed, i, indents, q⟩ x =
      .ok ⟨c', (tokens ++ [Token.scalar (.ofList text) true]).toArray,
        [candidateAt c tokens allowed], broken, i, indents, q⟩ := by
  have hf : inFlow ⟨c, tokens.toArray, [candidateAt c tokens allowed], allowed, i, indents, q⟩ =
    false := rfl
  rw [next_eq_plain hs (hu.head x rfl) hr, plain, saveCandidate_eq]
  simp only [bind, Except.bind]
  rw [hf, hscan]
  simp [push, allowKey, pure, Except.pure]

-- A scalar ends where what comes next cannot belong to it.
theorem next_plain_stop (hu : Plain.IsText (x :: cs)) (hs : StartsPlain (x :: cs))
    (hr : c.rest = x :: cs ++ tail) (hi : i ≤ c.column)
    (ht : Plain.run false tail = [] ∧ ∀ x ∈ tail.head?, ¬isGap x ∧ ¬isBreak x ∧ x ≠ '#') :
    next ⟨c, tokens.toArray, [none], allowed, i, indents, q⟩ x =
      .ok ⟨c.past (x :: cs).length tail,
        (tokens ++ [Token.scalar (.ofList (x :: cs)) true]).toArray,
        [candidateAt c tokens allowed], false, i, indents, q⟩ :=
  next_plain hu hs hr (Plain.scan_eq_of_stop hu hr (by omega)
    (not_atDocumentMark_of_startsPlain hs hr) ht.1 ht.2)

theorem next_plain_line (hu : Plain.IsText (x :: cs)) (hs : StartsPlain (x :: cs))
    (hr : c.rest = x :: cs ++ '\n' :: (List.replicate n ' ' ++ rest)) (hi : i ≤ c.column)
    (hn : n ≤ i) (ht : ∀ x ∈ rest.head?, ¬isGap x ∧ ¬isBreak x) :
    next ⟨c, tokens.toArray, [none], allowed, i, indents, q⟩ x =
      .ok ⟨⟨rest, c.index + (x :: cs).length + 1 + n, c.line + 1, n⟩,
        (tokens ++ [Token.scalar (.ofList (x :: cs)) true]).toArray,
        [candidateAt c tokens allowed], true, i, indents, q⟩ :=
  next_plain hu hs hr (Plain.scan_eq_of_line hu hr (by omega)
    (not_atDocumentMark_of_startsPlain hs hr) (by omega) ht)

theorem next_quoted (hr : c.rest = '"' :: (cs.flatMap Printer.escape ++ ['"']) ++ tail) :
    next ⟨c, tokens.toArray, [none], allowed, i, indents, q⟩ '"' =
      .ok ⟨c.past ('"' :: (cs.flatMap Printer.escape ++ ['"'])).length tail,
        (tokens ++ [Token.scalar (.ofList cs) false]).toArray,
        [candidateAt c tokens allowed], false, i, indents,
        c.index + ('"' :: (cs.flatMap Printer.escape ++ ['"'])).length⟩ := by
  have hm : ¬c.atDocumentMark := by simp [Cursor.atDocumentMark, hr]
  have hn : next ⟨c, tokens.toArray, [none], allowed, i, indents, q⟩ '"' =
      quoted ⟨c, tokens.toArray, [none], allowed, i, indents, q⟩ '"' := by
    simp [next, hm]
  have hr' : c.rest = '"' :: (cs.flatMap Printer.escape ++ '"' :: tail) := by simp [hr]
  have hscan : Quoted.scan '"' (c.past 1 (cs.flatMap Printer.escape ++ '"' :: tail)) = _ :=
    Quoted.scan_eq rfl (Nat.succ_pos _)
  rw [hn, quoted, saveCandidate_eq]
  simp only [bind, Except.bind, Cursor.advance_eq_past hr' (by decide), hscan]
  simp [push, allowKey, pure, Except.pure, Cursor.past, Nat.add_assoc, Nat.add_comm 1]

-- A scalar, where a colon or the end of the text follows.
theorem next_scalar (tokens : List Token) (allowed : Bool) (indents : List Int) (q : Nat)
    (hw : IsScalar (x :: cs) token) (hr : c.rest = x :: cs ++ tail) (hi : i ≤ c.column)
    (ht : Plain.run false tail = [] ∧ ∀ x ∈ tail.head?, ¬isGap x ∧ ¬isBreak x ∧ x ≠ '#') :
    ∃ q', next ⟨c, tokens.toArray, [none], allowed, i, indents, q⟩ x =
      .ok ⟨c.past (x :: cs).length tail, (tokens ++ [token]).toArray,
        [candidateAt c tokens allowed], false, i, indents, q'⟩ := by
  generalize hcs : x :: cs = w at *
  cases hw with
  | plain _ text start =>
    subst hcs
    exact ⟨q, next_plain_stop text start hr hi ht⟩
  | quoted cs =>
    obtain ⟨rfl, rfl⟩ := List.cons.inj hcs
    exact ⟨_, next_quoted hr⟩

theorem reads_scalar (hw : IsScalar cs token)
    (h : At s (cs ++ tail) column allowed tokens (i :: indents)) (hi : i ≤ column) (h0 : 0 ≤ i)
    (hl : Leads tail rest column') (hc : column' ≤ i) :
    Reads True s (At · rest column' true (tokens ++ [token]) (i :: indents)) := by
  obtain ⟨x, cs', hcs, -⟩ := hw.exists_cons
  subst hcs
  refine At.step h hi fun c q hr hcol => ?_
  have hi' : i ≤ c.column := by omega
  have hk : IsLoose (candidateAt c tokens allowed) c.line := isLoose_candidateAt
  cases hw with
  | quoted cs =>
    exact ⟨_, next_quoted hr, by simp; omega, .pure (.of_leads hl hk) trivial⟩
  | plain _ text start =>
    cases hl with
    | here =>
      exact ⟨_, next_plain_stop text start hr hi' ⟨rfl, nofun⟩, by simp,
        .pure (.of_end rfl hk) trivial⟩
    | behindBreak =>
      exact ⟨_, next_plain_line (n := 0) text start hr hi' h0 nofun, by simp,
        .pure (.of_end rfl (hk.mono (Nat.le_succ _))) trivial⟩
    | line n y rest hy =>
      exact ⟨_, next_plain_line text start hr hi' hc (by simp [hy.1, hy.2.1]), by simp; omega,
        .pure (.of_token rfl hy (hk.lt (Nat.lt_succ_self _))) trivial⟩

theorem closeBlocks_eq_self (hi : i ≤ column) :
    closeBlocks ⟨c, tokens.toArray, [k], allowed, i, indents, q⟩ column =
      ⟨c, tokens.toArray, [k], allowed, i, indents, q⟩ := by
  have h : closeBlocks ⟨c, tokens.toArray, [k], allowed, i, indents, q⟩ column = _ :=
    closeBlocks_go_eq (List.nil_append (i :: indents)).symm nofun (.inr hi)
  simpa using h

-- A colon makes a key of a candidate that is not too far back.
theorem reads_colon {y : Candidate} (hr : c.rest = ':' :: tail) (ht : endsWord tail.head?)
    (hy : y.token = tokens.length) (hline : y.line = c.line) (hreq : y.required = false)
    (hi : i ≤ c.column)
    (ho : Opens .blockMappingStart y.column tokens (i :: indents) tokens' (y.column :: indents')) :
    Reads (c.index ≤ y.index + 1024)
      ⟨c, (tokens ++ [token]).toArray, [some y], false, i, indents, q⟩
      (fun s' => ∃ c' q', c'.rest = tail ∧ c.column ≤ c'.column ∧
        s' = ⟨c', (tokens' ++ [.key, token, .value]).toArray, [none], false, y.column, indents',
          q'⟩) := by
  have hrun (n : Nat) :
      run (n + 1) ⟨c, (tokens ++ [token]).toArray, [some y], false, i, indents, q⟩ =
        next ⟨c, (tokens ++ [token]).toArray, [if c.index ≤ y.index + 1024 then some y else none],
          false, i, indents, q⟩ ':' >>= run n := by
    have hstale : (y.line < c.line ∨ y.index + 1024 < c.index) ↔ ¬c.index ≤ y.index + 1024 := by
      omega
    have hd : dropStale ⟨c, (tokens ++ [token]).toArray, [some y], false, i, indents, q⟩ =
        .ok ⟨c, (tokens ++ [token]).toArray, [if c.index ≤ y.index + 1024 then some y else none],
          false, i, indents, q⟩ := by
      simp only [dropStale, List.mapM_cons, List.mapM_nil, hstale]
      split <;> simp_all [bind, Except.bind, pure, Except.pure]
    rw [run, skipBlanks_of_atToken (atToken_of_isStart hr (by decide)), hd]
    simp only [bind, Except.bind, closeBlocks_eq_self hi]
    rw [Cursor.peek?_eq_some_iff.mpr ⟨_, hr⟩]
  refine ⟨fun hfit => ?_, fun hfar => ⟨1, by simp [hr], fun n => ?_⟩⟩
  · simp only [if_pos hfit] at hrun
    rw [next_colon_key hr ht hy ho] at hrun
    refine ⟨_, ⟨1, ?_, hrun⟩, c.past 1 tail, q, rfl, by simp, rfl⟩
    simp [hr]
    omega
  · rw [hrun, if_neg hfar, next_colon_late hr ht]
    rfl

theorem reads_key {column : Nat} (hw : IsScalar cs token)
    (h : At s (cs ++ ':' :: tail) column true tokens (i :: indents)) (hi : i ≤ column)
    (ht : endsWord tail.head?)
    (ho : Opens .blockMappingStart column tokens (i :: indents) tokens' (column :: indents')) :
    Reads (cs.length ≤ 1024) s (fun s' => ∃ c q, c.rest = tail ∧ column ≤ c.column ∧
      s' = ⟨c, (tokens' ++ [.key, token, .value]).toArray, [none], false, column, indents',
        q⟩) := by
  obtain ⟨x, cs, rfl, -⟩ := hw.exists_cons
  refine At.step h hi fun c q hr hcol => ?_
  obtain rfl : c.column = column := by omega
  obtain ⟨q', hn⟩ := next_scalar tokens true indents q hw hr hi
    ⟨by simp [Plain.run, Plain.endsBefore, ht], by simp [isGap, isBreak]⟩
  refine ⟨_, hn, by simp, (reads_colon rfl ht rfl rfl rfl ?_ ho).mono ?_ ?_⟩
  · simp; omega
  · simp
  · rintro s' ⟨c', q', hr, hle, rfl⟩
    exact ⟨c', q', hr, by simp at hle; omega, rfl⟩

-- The brackets of empty collections.
inductive IsBrackets : Char → Char → Token → Token → Prop where
  | sequence : IsBrackets '[' ']' .flowSequenceStart .flowSequenceEnd
  | mapping : IsBrackets '\x7b' '\x7d' .flowMappingStart .flowMappingEnd

section Brackets

variable {o e : Char} (hb : IsBrackets o e start stop)

include hb

theorem next_open (hr : c.rest = o :: rest) :
    next ⟨c, tokens.toArray, [none], allowed, i, indents, q⟩ o =
      .ok ⟨c.past 1 rest, (tokens ++ [start]).toArray, [none, candidateAt c tokens allowed], true,
        i, indents, q⟩ := by
  have hm : ¬c.atDocumentMark := by cases hb <;> simp [Cursor.atDocumentMark, hr]
  have ha : c.advanceBy 1 = c.past 1 rest :=
    Cursor.advance_eq_past hr (by cases hb <;> decide)
  have hn : next ⟨c, tokens.toArray, [none], allowed, i, indents, q⟩ o =
      openFlow ⟨c, tokens.toArray, [none], allowed, i, indents, q⟩ start := by
    cases hb <;> simp [next, hm]
  rw [hn, openFlow, saveCandidate_eq]
  simp [take, push, allowKey, bind, Except.bind, pure, Except.pure, ha, flowLevel]

theorem next_close (hr : c.rest = e :: rest) :
    next ⟨c, tokens.toArray, [none, k], true, i, indents, q⟩ e =
      .ok ⟨c.past 1 rest, (tokens ++ [stop]).toArray, [k], false, i, indents, q⟩ := by
  have hm : ¬c.atDocumentMark := by cases hb <;> simp [Cursor.atDocumentMark, hr]
  have ha : c.advanceBy 1 = c.past 1 rest :=
    Cursor.advance_eq_past hr (by cases hb <;> decide)
  have hn : next ⟨c, tokens.toArray, [none, k], true, i, indents, q⟩ e =
      closeFlow ⟨c, tokens.toArray, [none, k], true, i, indents, q⟩ stop := by
    cases hb <;> simp [next, hm]
  rw [hn, closeFlow]
  simp [take, push, allowKey, bind, Except.bind, pure, Except.pure, ha, dropCandidate, inFlow,
    flowLevel]

theorem reads_brackets (h : At s (o :: e :: tail) column allowed tokens (i :: indents))
    (hi : i ≤ column) (hl : Leads tail rest column') :
    Reads True s (At · rest column' true (tokens ++ [start, stop]) (i :: indents)) := by
  refine At.step h hi fun c q hr hcol => ⟨_, next_open hb hr, by simp, ?_⟩
  have he : IsStart e := by cases hb <;> decide
  -- Between the brackets, no candidate is forgotten, and no block is closed.
  have hsettle : dropStale ⟨c.past 1 (e :: tail), (tokens ++ [start]).toArray,
        [none, candidateAt c tokens allowed], true, i, indents, q⟩ =
      .ok ⟨c.past 1 (e :: tail), (tokens ++ [start]).toArray,
        [none, candidateAt c tokens allowed], true, i, indents, q⟩ := by
    cases allowed <;> simp [dropStale, candidateAt, bind, Except.bind, pure, Except.pure]
  have hblocks (column : Int) : closeBlocks ⟨c.past 1 (e :: tail), (tokens ++ [start]).toArray,
        [none, candidateAt c tokens allowed], true, i, indents, q⟩ column =
      ⟨c.past 1 (e :: tail), (tokens ++ [start]).toArray,
        [none, candidateAt c tokens allowed], true, i, indents, q⟩ := rfl
  have hrun (n : Nat) : run (n + 1) ⟨c.past 1 (e :: tail), (tokens ++ [start]).toArray,
        [none, candidateAt c tokens allowed], true, i, indents, q⟩ =
      run n ⟨(c.past 1 (e :: tail)).past 1 tail, (tokens ++ [start] ++ [stop]).toArray,
        [candidateAt c tokens allowed], false, i, indents, q⟩ := by
    rw [run, skipBlanks_of_atToken (atToken_of_isStart rfl he), hsettle]
    simp only [bind, Except.bind, hblocks]
    rw [Cursor.peek?_eq_head?, Cursor.rest_past, List.head?_cons]
    simp only [next_close (c := c.past 1 (e :: tail)) hb rfl]
  have hk : IsLoose (candidateAt c tokens allowed) c.line := isLoose_candidateAt
  rw [show tokens ++ [start, stop] = tokens ++ [start] ++ [stop] by simp]
  exact Steps.reads ⟨1, by simp; omega, hrun⟩
    (.pure (At.of_leads (c := (c.past 1 (e :: tail)).past 1 tail) hl hk) trivial)

end Brackets

end StaticSite.Yaml.Lexer
