import StaticSite.Proofs.Yaml.PrintedScalars
import StaticSite.Proofs.Yaml.Steps
/-!
Values as they are printed. Main statements: wherever a value can stand, its text is read as its
tokens, if no key is too long to be one (`isRead`), and so is the whole text of a collection, with
the mark of a document or without (`tokens_toText`, `tokens_text`).
-/
namespace StaticSite.Yaml.Printer

variable {v key value : Value} {level : Nat} {items : List Value} {entries : List (Value × Value)}

-- A value is a scalar, or a collection of values.
@[elab_as_elim]
theorem induction {motive : Value → Prop} (scalar : ∀ v, ¬isCollection v → motive v)
    (sequence : ∀ items, (∀ item ∈ items, motive item) → motive (.sequence items))
    (mapping : ∀ entries, (∀ e ∈ entries, motive e.1 ∧ motive e.2) → motive (.mapping entries))
    (v : Value) : motive v := by
  match v with
  | .sequence items => exact sequence items fun item hm => induction scalar sequence mapping item
  | .mapping entries =>
    exact mapping entries fun e hm =>
      ⟨induction scalar sequence mapping e.1, induction scalar sequence mapping e.2⟩
  | .null | .bool _ | .int _ | .float _ | .string _ => exact scalar _ Bool.false_ne_true
termination_by sizeOf v
decreasing_by
  · have := List.sizeOf_lt_of_mem hm
    simp only [Value.sequence.sizeOf_spec]
    omega
  all_goals
    have := List.sizeOf_lt_of_mem hm
    obtain ⟨key, value⟩ := e
    simp only [Prod.mk.sizeOf_spec, Value.mapping.sizeOf_spec] at this ⊢
    omega

mutual

-- The tokens that a value's text is read as.
def tokens : Value → List Token
  | .sequence items =>
    if items.isEmpty then [.flowSequenceStart, .flowSequenceEnd]
    else .blockSequenceStart :: (itemTokens items ++ [.blockEnd])
  | .mapping entries =>
    if entries.isEmpty then [.flowMappingStart, .flowMappingEnd]
    else .blockMappingStart :: (entryTokens entries ++ [.blockEnd])
  | .null => [.scalar (content .null) true]
  | .bool b => [.scalar (content (.bool b)) true]
  | .int n => [.scalar (content (.int n)) true]
  | .float x => [.scalar (content (.float x)) true]
  | .string s => [.scalar s (isPlain (.string s))]

def itemTokens : List Value → List Token
  | [] => []
  | item :: items => .blockEntry :: (tokens item ++ itemTokens items)

def entryTokens : List (Value × Value) → List Token
  | [] => []
  | (key, value) :: entries =>
    .key :: (tokens key ++ .value :: (tokens value ++ entryTokens entries))

end

theorem tokens_scalar (h : ¬isCollection v) : tokens v = [.scalar (content v) (isPlain v)] := by
  cases v <;> first | exact absurd rfl h | (rw [tokens]; rfl)

mutual

-- Whether no key without a mark is too long to be taken for one: the colon has to come within 1024
-- characters.
def KeysFit : Value → Prop
  | .sequence items => ItemsFit items
  | .mapping entries => EntriesFit entries
  | .null | .bool _ | .int _ | .float _ | .string _ => True

def ItemsFit : List Value → Prop
  | [] => True
  | item :: items => KeysFit item ∧ ItemsFit items

def EntriesFit : List (Value × Value) → Prop
  | [] => True
  | (key, value) :: entries =>
    ((isCollection key ∨ (text 0 key).toList.length ≤ 1024) ∧ KeysFit key ∧ KeysFit value) ∧
      EntriesFit entries

end

-- Whether an entry can be read.
def EntryFits (key value : Value) : Prop :=
  (isCollection key ∨ (text 0 key).toList.length ≤ 1024) ∧ KeysFit key ∧ KeysFit value

theorem keysFit_scalar (h : ¬isCollection v) : KeysFit v := by
  cases v <;> first | exact absurd rfl h | (rw [KeysFit]; trivial)

theorem text_scalar (h : ¬isCollection v) (level : Nat) : text level v = text 0 v := by
  cases v <;> first | exact absurd rfl h | rfl

section Text

variable {texts : List String} {keyText valueText : String}

theorem toList_newLine (level : Nat) :
    (newLine level).toList = '\n' :: List.replicate (2 * level) ' ' := by
  rw [newLine, String.toList_ofList]

-- Entries on lines of their own, behind a first one.
def moreLines (level : Nat) : List String → List Char
  | [] => []
  | texts =>
    '\n' :: (List.replicate (2 * level) ' ' ++ ((newLine level).intercalate texts).toList)

theorem toList_intercalate_cons (level : Nat) (first : String) (texts : List String) :
    ((newLine level).intercalate (first :: texts)).toList =
      first.toList ++ moreLines level texts := by
  cases texts <;> simp [moreLines, String.toList_intercalate, List.intercalate, toList_newLine]

theorem toList_item (level : Nat) (item : Value) (items : List Value) :
    ((newLine level).intercalate (itemTexts level (item :: items))).toList =
      '-' :: ' ' ::
        ((text (level + 1) item).toList ++ moreLines level (itemTexts level items)) := by
  rw [itemTexts, toList_intercalate_cons, String.toList_append]
  rfl

theorem toList_entry_scalar (h : ¬isCollection key) (level : Nat) (value : Value)
    (entries : List (Value × Value)) :
    ((newLine level).intercalate (entryTexts level ((key, value) :: entries))).toList =
      (text 0 key).toList ++ ':' ::
        ((if isEmpty value then [' '] else (newLine (level + 1)).toList) ++
          ((text (level + 1) value).toList ++ moreLines level (entryTexts level entries))) := by
  rw [entryTexts, toList_intercalate_cons, entry, if_neg h, text_scalar h]
  simp only [String.toList_append, List.append_assoc]
  split <;> rfl

theorem toList_entry_collection (h : isCollection key) (level : Nat) (value : Value)
    (entries : List (Value × Value)) :
    ((newLine level).intercalate (entryTexts level ((key, value) :: entries))).toList =
      '?' :: ' ' :: ((text (level + 1) key).toList ++ '\n' :: (List.replicate (2 * level) ' ' ++
        ':' :: ' ' :: ((text (level + 1) value).toList ++
          moreLines level (entryTexts level entries)))) := by
  rw [entryTexts, toList_intercalate_cons, entry, if_pos h]
  simp only [String.toList_append, List.append_assoc, toList_newLine]
  rfl

-- Entries begin with a token.
theorem exists_toList_items (level : Nat) (hn : items ≠ []) :
    ∃ x cs, ((newLine level).intercalate (itemTexts level items)).toList = x :: cs ∧
      IsStart x := by
  obtain ⟨item, items, rfl⟩ := List.exists_cons_of_ne_nil hn
  exact ⟨_, _, toList_item level item items, by decide⟩

theorem exists_toList_entries (level : Nat) (hn : entries ≠ []) :
    ∃ x cs, ((newLine level).intercalate (entryTexts level entries)).toList = x :: cs ∧
      IsStart x := by
  obtain ⟨⟨key, value⟩, entries, rfl⟩ := List.exists_cons_of_ne_nil hn
  by_cases h : isCollection key
  case pos => exact ⟨_, _, toList_entry_collection h level value entries, by decide⟩
  case neg =>
    obtain ⟨x, cs, hx, hs⟩ := (isScalar_text h 0).exists_cons
    exact ⟨x, _, by rw [toList_entry_scalar h, hx]; rfl, hs⟩

-- So do values.
theorem exists_toList_text (v : Value) (level : Nat) :
    ∃ x cs, (text level v).toList = x :: cs ∧ IsStart x := by
  by_cases h : isCollection v
  case neg => exact (isScalar_text h level).exists_cons
  case pos =>
    cases v with
    | sequence items =>
      rw [text]
      split
      · exact ⟨'[', [']'], rfl, by decide⟩
      case isFalse hn => exact exists_toList_items level (by simpa using hn)
    | mapping entries =>
      rw [text]
      split
      · exact ⟨'\x7b', ['\x7d'], rfl, by decide⟩
      case isFalse hn => exact exists_toList_entries level (by simpa using hn)
    | null | bool | int | float | string => exact absurd h Bool.false_ne_true

theorem itemTexts_eq_map (level : Nat) (items : List Value) :
    itemTexts level items = items.map fun item => "- " ++ text (level + 1) item := by
  induction items with
  | nil => rfl
  | cons item items hi => rw [itemTexts, hi, List.map_cons]

theorem entryTexts_eq_map (level : Nat) (entries : List (Value × Value)) :
    entryTexts level entries = entries.map fun e =>
      entry level e.1 e.2 (text (level + 1) e.1) (text (level + 1) e.2) := by
  induction entries with
  | nil => rfl
  | cons e entries hi =>
    obtain ⟨key, value⟩ := e
    rw [entryTexts, hi, List.map_cons]

-- The text of a value holds no NUL, at which reading would end.
theorem nul_not_mem_newLine (level : Nat) : '\x00' ∉ (newLine level).toList := by
  simp [toList_newLine]

theorem nul_not_mem_intercalate (h : ∀ t ∈ texts, '\x00' ∉ t.toList) :
    '\x00' ∉ ((newLine level).intercalate texts).toList := by
  induction texts with
  | nil => simp [String.intercalate]
  | cons first texts hi =>
    rw [List.forall_mem_cons] at h
    have hmore := hi h.2
    rw [toList_intercalate_cons, List.mem_append, not_or]
    refine ⟨h.1, ?_⟩
    unfold moreLines
    split <;> simp_all

theorem nul_not_mem_entry (hk : '\x00' ∉ keyText.toList) (hv : '\x00' ∉ valueText.toList) :
    '\x00' ∉ (entry level key value keyText valueText).toList := by
  have hn := nul_not_mem_newLine
  unfold entry
  split
  · simp [hk, hv, hn]
  · split <;> simp [hk, hv, hn]

theorem nul_not_mem_text (v : Value) (level : Nat) : '\x00' ∉ (text level v).toList := by
  induction v using induction generalizing level with
  | scalar v h => exact (isScalar_text h level).nul_not_mem
  | sequence items hi =>
    rw [text]
    split
    case isTrue => decide
    case isFalse =>
      refine nul_not_mem_intercalate ?_
      rw [itemTexts_eq_map, List.forall_mem_map]
      intro item hm
      simpa using hi item hm (level + 1)
  | mapping entries hi =>
    rw [text]
    split
    case isTrue => decide
    case isFalse =>
      refine nul_not_mem_intercalate ?_
      rw [entryTexts_eq_map, List.forall_mem_map]
      exact fun e hm => nul_not_mem_entry ((hi e hm).1 _) ((hi e hm).2 _)

end Text

open Lexer

variable {s : Lexer} {c : Cursor} {q : Nat} {tail rest : List Char} {column column' i : Int}
  {allowed : Bool} {before before' : List Token} {indents indents' : List Int}

-- Where a value can be read: everywhere if it is in one line, and else where a block can begin.
def CanStand (v : Value) (level : Nat) (column : Int) (allowed : Bool) (i : Int) : Prop :=
  if isEmpty v then isCollection v ∨ 0 ≤ i else column = (2 * level : Nat) ∧ allowed ∧ i < column

-- That the text of a value is read as its tokens.
def IsRead (v : Value) : Prop :=
  ∀ ⦃level : Nat⦄ ⦃s : Lexer⦄ ⦃tail rest : List Char⦄ ⦃column column' i : Int⦄ ⦃allowed : Bool⦄
    ⦃before : List Token⦄ ⦃indents : List Int⦄,
    At s ((text level v).toList ++ tail) column allowed before (i :: indents) → i ≤ column →
    CanStand v level column allowed i → Leads tail rest column' → column' ≤ i →
    Reads (KeysFit v) s (At · rest column' true (before ++ tokens v) (i :: indents))

theorem isRead_scalar (h : ¬isCollection v) : IsRead v := by
  intro level s tail rest column column' i allowed before indents hs hi hc hl hle
  have h0 : 0 ≤ i := by
    have he : isEmpty v := by cases v <;> first | rfl | exact absurd rfl h
    rw [CanStand, if_pos he] at hc
    exact hc.resolve_left h
  rw [tokens_scalar h]
  exact (reads_scalar (isScalar_text h level) hs hi h0 hl hle).mono (by simp [keysFit_scalar h])
    fun _ => id

-- Behind the mark of an item, a key or a value, the text stands two columns further.
theorem reads_marked (h : IsRead v)
    (hr : c.rest = ' ' :: ((text (level + 1) v).toList ++ tail)) (hcol : c.column = 2 * level + 1)
    (hl : Leads tail rest column') (hle : column' ≤ (2 * level : Nat)) :
    Reads (KeysFit v) ⟨c, before.toArray, [none], true, (2 * level : Nat), indents, q⟩
      (At · rest column' true (before ++ tokens v) ((2 * level : Nat) :: indents)) := by
  obtain ⟨x, cs, hx, hstart⟩ := exists_toList_text v (level + 1)
  have hs : At ⟨c, before.toArray, [none], true, (2 * level : Nat), indents, q⟩
      ((text (level + 1) v).toList ++ tail) (c.column + 1) true before
      ((2 * level : Nat) :: indents) := by
    rw [hx] at hr ⊢
    exact At.of_space hr hstart
  refine h hs (by omega) ?_ hl hle
  unfold CanStand
  split
  · exact .inr (by omega)
  · exact ⟨by omega, rfl, by omega⟩

-- So does the value behind the colon of a key without a mark, or it stands on the same line.
theorem reads_value (h : IsRead v)
    (hr : c.rest = (if isEmpty v then [' '] else (newLine (level + 1)).toList) ++
      ((text (level + 1) v).toList ++ tail)) (hcol : 2 * level ≤ c.column)
    (hl : Leads tail rest column') (hle : column' ≤ (2 * level : Nat)) :
    Reads (KeysFit v) ⟨c, before.toArray, [none], false, (2 * level : Nat), indents, q⟩
      (At · rest column' true (before ++ tokens v) ((2 * level : Nat) :: indents)) := by
  obtain ⟨x, cs, hx, hstart⟩ := exists_toList_text v (level + 1)
  split at hr
  case isTrue he =>
    have hs : At ⟨c, before.toArray, [none], false, (2 * level : Nat), indents, q⟩
        ((text (level + 1) v).toList ++ tail) (c.column + 1) false before
        ((2 * level : Nat) :: indents) := by
      rw [hx] at hr ⊢
      exact At.of_space hr hstart
    refine h hs (by omega) ?_ hl hle
    rw [CanStand, if_pos he]
    exact .inr (by omega)
  case isFalse he =>
    have hs : At ⟨c, before.toArray, [none], false, (2 * level : Nat), indents, q⟩
        ((text (level + 1) v).toList ++ tail) (2 * (level + 1) : Nat) true before
        ((2 * level : Nat) :: indents) := by
      refine At.of_leads ?_ nofun
      rw [hr, toList_newLine, hx]
      simpa using Leads.line (2 * (level + 1)) x (cs ++ tail) hstart
    refine h hs (by omega) ?_ hl hle
    rw [CanStand, if_neg he]
    exact ⟨rfl, rfl, by omega⟩

theorem leads_moreLines {texts : List String} (tail : List Char)
    (hx : ∃ x cs, ((newLine level).intercalate texts).toList = x :: cs ∧ IsStart x) :
    Leads (moreLines level texts ++ tail) (((newLine level).intercalate texts).toList ++ tail)
      (2 * level : Nat) := by
  obtain ⟨x, cs, hx, hs⟩ := hx
  have hn : texts ≠ [] := by
    rintro rfl
    simp [String.intercalate] at hx
  rw [moreLines.eq_2 _ _ hn, hx]
  simpa using Leads.line (2 * level) x (cs ++ tail) hs

theorem reads_item {item : Value} (hr : IsRead item)
    (h : At s (((newLine level).intercalate (itemTexts level (item :: items))).toList ++ tail)
      (2 * level : Nat) true before (i :: indents))
    (ho : Opens .blockSequenceStart (2 * level : Nat) before (i :: indents) before'
      ((2 * level : Nat) :: indents'))
    (hl : Leads (moreLines level (itemTexts level items) ++ tail) rest column')
    (hle : column' ≤ (2 * level : Nat)) :
    Reads (KeysFit item) s
      (At · rest column' true (before' ++ .blockEntry :: tokens item)
        ((2 * level : Nat) :: indents')) := by
  rw [toList_item, List.cons_append, List.cons_append, List.append_assoc] at h
  have hi : i ≤ (2 * level : Nat) := by cases ho <;> omega
  refine At.step h hi fun c q hc hcol => ?_
  have hcol : c.column = 2 * level := by omega
  refine ⟨_, next_mark .item hc hcol ho, by simp, ?_⟩
  refine (reads_marked hr rfl (congrArg (· + 1) hcol) hl hle).mono Iff.rfl fun s' hs => ?_
  simpa using hs

theorem reads_items (hn : items ≠ []) (hr : ∀ item ∈ items, IsRead item)
    (h : At s (((newLine level).intercalate (itemTexts level items)).toList ++ tail)
      (2 * level : Nat) true before (i :: indents))
    (ho : Opens .blockSequenceStart (2 * level : Nat) before (i :: indents) before'
      ((2 * level : Nat) :: indents'))
    (hl : Leads tail rest column') (hle : column' ≤ (2 * level : Nat)) :
    Reads (ItemsFit items) s
      (At · rest column' true (before' ++ itemTokens items) ((2 * level : Nat) :: indents')) := by
  induction items generalizing s before before' i indents with
  | nil => exact absurd rfl hn
  | cons item items ih =>
    rw [List.forall_mem_cons] at hr
    cases hitems : items with
    | nil =>
      subst hitems
      refine (reads_item hr.1 h ho hl hle).mono (by simp [ItemsFit]) fun s' hs => ?_
      simpa [itemTokens] using hs
    | cons item' items' =>
      have hne : items ≠ [] := by simp [hitems]
      have hlead := leads_moreLines tail (exists_toList_items level hne)
      rw [← hitems, ItemsFit]
      refine (reads_item hr.1 h ho hlead (Int.le_refl _)).bind fun s' hs => ?_
      refine (ih hne hr.2 hs (.next indents')).mono Iff.rfl fun s'' hs' => ?_
      simpa [itemTokens] using hs'

theorem reads_entry_scalar (hk : ¬isCollection key) (hv : IsRead value)
    (h : At s ((text 0 key).toList ++ ':' ::
        ((if isEmpty value then [' '] else (newLine (level + 1)).toList) ++
          ((text (level + 1) value).toList ++ tail)))
      (2 * level : Nat) true before (i :: indents))
    (ho : Opens .blockMappingStart (2 * level : Nat) before (i :: indents) before'
      ((2 * level : Nat) :: indents'))
    (hl : Leads tail rest column') (hle : column' ≤ (2 * level : Nat)) :
    Reads (EntryFits key value) s
      (At · rest column' true (before' ++ .key :: (tokens key ++ .value :: tokens value))
        ((2 * level : Nat) :: indents')) := by
  have hi : i ≤ (2 * level : Nat) := by cases ho <;> omega
  have hkey := reads_key (isScalar_text hk 0) h hi
    (by split <;> simp [toList_newLine, endsWord, isGap, isBreak]) ho
  have hentry : Reads (_ ∧ KeysFit value) s (At · rest column' true
      (before' ++ [.key, .scalar (content key) (isPlain key), .value] ++ tokens value)
      ((2 * level : Nat) :: indents')) := hkey.bind fun s' hs => by
    obtain ⟨c, q, hr, hcol, rfl⟩ := hs
    exact reads_value hv hr hcol hl hle
  refine hentry.mono ?_ fun s' hs => ?_
  · simp [EntryFits, hk, keysFit_scalar hk]
  · simpa [tokens_scalar hk] using hs

theorem reads_entry_collection (hc : isCollection key) (hk : IsRead key) (hv : IsRead value)
    (h : At s ('?' :: ' ' :: ((text (level + 1) key).toList ++ '\n' ::
        (List.replicate (2 * level) ' ' ++
          ':' :: ' ' :: ((text (level + 1) value).toList ++ tail))))
      (2 * level : Nat) true before (i :: indents))
    (ho : Opens .blockMappingStart (2 * level : Nat) before (i :: indents) before'
      ((2 * level : Nat) :: indents'))
    (hl : Leads tail rest column') (hle : column' ≤ (2 * level : Nat)) :
    Reads (EntryFits key value) s
      (At · rest column' true (before' ++ .key :: (tokens key ++ .value :: tokens value))
        ((2 * level : Nat) :: indents')) := by
  have hi : i ≤ (2 * level : Nat) := by cases ho <;> omega
  refine At.step h hi fun c q hr hcol => ?_
  have hcol : c.column = 2 * level := by omega
  refine ⟨_, next_mark .key hr hcol ho, by simp, ?_⟩
  refine Reads.mono (?entry : Reads (KeysFit key ∧ KeysFit value) _ (At · rest column' true
    (before' ++ [.key] ++ tokens key ++ [.value] ++ tokens value) ((2 * level : Nat) :: indents')))
    ?_ fun s' hs => ?_
  case entry =>
    have hmark := Leads.line (2 * level) ':' (' ' :: ((text (level + 1) value).toList ++ tail))
      (by decide)
    refine (reads_marked hk rfl (congrArg (· + 1) hcol) hmark (Int.le_refl _)).bind fun s' hs => ?_
    refine At.step hs (Int.le_refl _) fun c' q' hr' hcol' => ?_
    have hcol' : c'.column = 2 * level := by omega
    exact ⟨_, next_mark .value hr' hcol' (.next indents'), by simp,
      reads_marked hv rfl (congrArg (· + 1) hcol') hl hle⟩
  · simp [EntryFits, hc]
  · simpa using hs

theorem reads_entry (hk : IsRead key) (hv : IsRead value)
    (h : At s
      (((newLine level).intercalate (entryTexts level ((key, value) :: entries))).toList ++ tail)
      (2 * level : Nat) true before (i :: indents))
    (ho : Opens .blockMappingStart (2 * level : Nat) before (i :: indents) before'
      ((2 * level : Nat) :: indents'))
    (hl : Leads (moreLines level (entryTexts level entries) ++ tail) rest column')
    (hle : column' ≤ (2 * level : Nat)) :
    Reads (EntryFits key value) s
      (At · rest column' true (before' ++ .key :: (tokens key ++ .value :: tokens value))
        ((2 * level : Nat) :: indents')) := by
  by_cases hc : isCollection key
  case pos =>
    rw [toList_entry_collection hc] at h
    exact reads_entry_collection hc hk hv (by simpa using h) ho hl hle
  case neg =>
    rw [toList_entry_scalar hc] at h
    exact reads_entry_scalar hc hv (by simpa using h) ho hl hle

theorem reads_entries (hn : entries ≠ []) (hr : ∀ e ∈ entries, IsRead e.1 ∧ IsRead e.2)
    (h : At s (((newLine level).intercalate (entryTexts level entries)).toList ++ tail)
      (2 * level : Nat) true before (i :: indents))
    (ho : Opens .blockMappingStart (2 * level : Nat) before (i :: indents) before'
      ((2 * level : Nat) :: indents'))
    (hl : Leads tail rest column') (hle : column' ≤ (2 * level : Nat)) :
    Reads (EntriesFit entries) s
      (At · rest column' true (before' ++ entryTokens entries)
        ((2 * level : Nat) :: indents')) := by
  induction entries generalizing s before before' i indents with
  | nil => exact absurd rfl hn
  | cons e entries ih =>
    obtain ⟨key, value⟩ := e
    obtain ⟨⟨hk, hv⟩, hr⟩ := List.forall_mem_cons.mp hr
    cases hentries : entries with
    | nil =>
      subst hentries
      refine (reads_entry hk hv h ho hl hle).mono (by simp [EntriesFit, EntryFits])
        fun s' hs => ?_
      simpa [entryTokens] using hs
    | cons e' entries' =>
      have hne : entries ≠ [] := by simp [hentries]
      have hlead := leads_moreLines tail (exists_toList_entries level hne)
      rw [← hentries, EntriesFit]
      refine (reads_entry hk hv h ho hlead (Int.le_refl _)).bind fun s' hs => ?_
      refine (ih hne hr hs (.next indents')).mono Iff.rfl fun s'' hs' => ?_
      simpa [entryTokens] using hs'

-- What was opened for the entries of a collection is closed behind them.
theorem reads_block {p : Prop} {start : Token} {inner : List Token}
    (h : Reads p s (At · rest column' true (before ++ [start] ++ inner) (column :: i :: indents)))
    (hc : column' < column) :
    Reads p s
      (At · rest column' true (before ++ start :: (inner ++ [.blockEnd])) (i :: indents)) := by
  refine h.mono Iff.rfl fun s' hs => ?_
  simpa using hs.close hc

theorem isRead_sequence (hr : ∀ item ∈ items, IsRead item) : IsRead (.sequence items) := by
  intro level s tail rest column column' i allowed before indents hs hi hc hl hle
  cases items with
  | nil =>
    rw [text, if_pos List.isEmpty_nil] at hs
    exact (reads_brackets .sequence hs hi hl).mono (by simp [KeysFit, ItemsFit]) fun _ => id
  | cons item items =>
    obtain ⟨rfl, rfl, hi⟩ : column = (2 * level : Nat) ∧ allowed ∧ i < column := hc
    have ho : Opens .blockSequenceStart (2 * level : Nat) before (i :: indents) _ _ :=
      .first i indents hi
    exact reads_block (reads_items (List.cons_ne_nil _ _) hr hs ho hl (by omega)) (by omega)

theorem isRead_mapping (hr : ∀ e ∈ entries, IsRead e.1 ∧ IsRead e.2) :
    IsRead (.mapping entries) := by
  intro level s tail rest column column' i allowed before indents hs hi hc hl hle
  cases entries with
  | nil =>
    rw [text, if_pos List.isEmpty_nil] at hs
    exact (reads_brackets .mapping hs hi hl).mono (by simp [KeysFit, EntriesFit]) fun _ => id
  | cons e entries =>
    obtain ⟨rfl, rfl, hi⟩ : column = (2 * level : Nat) ∧ allowed ∧ i < column := hc
    have ho : Opens .blockMappingStart (2 * level : Nat) before (i :: indents) _ _ :=
      .first i indents hi
    exact reads_block (reads_entries (List.cons_ne_nil _ _) hr hs ho hl (by omega)) (by omega)

theorem isRead (v : Value) : IsRead v :=
  induction (fun _ => isRead_scalar) (fun _ => isRead_sequence) (fun _ => isRead_mapping) v

theorem canStand_of_isCollection (hc : isCollection v) : CanStand v 0 0 true (-1) := by
  unfold CanStand
  split
  · exact .inl hc
  · exact ⟨rfl, rfl, by decide⟩

-- The tokens of a collection's text.
theorem tokens_text (hc : isCollection v) :
    (KeysFit v → Token.ofText (text 0 v) = .ok (tokens v ++ [.streamEnd])) ∧
      (¬KeysFit v → Token.ofText (text 0 v) = .error .notAllowedHere) := by
  obtain ⟨x, cs, hx, hs⟩ := exists_toList_text v 0
  have hr := rest_ofText (nul_not_mem_text v 0)
  have h : At { cursor := Cursor.ofText (text 0 v) } ((text 0 v).toList ++ []) 0 true [] [-1] := by
    rw [hx] at hr ⊢
    rw [List.append_nil]
    exact At.of_token hr hs nofun
  exact ofText_of_reads (isRead v h (by decide) (canStand_of_isCollection hc) .here (by decide))

-- As a document, it has the same, behind the mark.
theorem tokens_toText (hc : isCollection v) :
    (KeysFit v → Token.ofText v.toText = .ok (.documentStart :: (tokens v ++ [.streamEnd]))) ∧
      (¬KeysFit v → Token.ofText v.toText = .error .notAllowedHere) := by
  obtain ⟨x, cs, hx, hs⟩ := exists_toList_text v 0
  have htext : v.toText.toList = '-' :: '-' :: '-' :: '\n' :: ((text 0 v).toList ++ ['\n']) := by
    simp [Value.toText]
  have hr : (Cursor.ofText v.toText).rest = _ :=
    (rest_ofText (by simp [htext, nul_not_mem_text])).trans htext
  have h : At ⟨(Cursor.ofText v.toText).past 3 ('\n' :: ((text 0 v).toList ++ ['\n'])),
      #[.documentStart], [none], false, -1, [], 0⟩ ((text 0 v).toList ++ ['\n']) 0 true
      [.documentStart] [-1] := by
    refine At.of_leads (k := none) ?_ nofun
    rw [hx]
    exact Leads.line 0 x (cs ++ ['\n']) hs
  exact ofText_of_reads ((steps_documentStart hr rfl).reads
    (isRead v h (by decide) (canStand_of_isCollection hc) .behindBreak (by decide)))

end StaticSite.Yaml.Printer
