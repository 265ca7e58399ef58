import StaticSite.Proofs.Yaml.Blanks
import StaticSite.Yaml.Node
/-!
Which texts hold no document. Reading fails for want of one only where no token comes before the end
of the stream; all else that is wrong with a text is told otherwise. Main statement: that is so if
and only if each line of the text has nothing but spaces before its end or its comment
(`ofText_eq_noDocument_iff`).
-/
namespace StaticSite.Yaml

variable {α β : Type} {e : Error}

@[grind =]
theorem bind_eq_error_iff {x : Except Error α} {f : α → Except Error β} :
    (x >>= f) = .error e ↔ x = .error e ∨ ∃ a, x = .ok a ∧ f a = .error e := by
  cases x <;> simp [bind, Except.bind]

theorem exists_of_bind_eq_ok {x : Except Error α} {f : α → Except Error β} {b : β}
    (h : (x >>= f) = .ok b) : ∃ a, x = .ok a ∧ f a = .ok b := by
  cases x with
  | error => simp [bind, Except.bind] at h
  | ok a => exact ⟨a, rfl, h⟩

@[grind =]
theorem pure_eq_ok (a : α) : (pure a : Except Error α) = .ok a :=
  rfl

-- None of the parts of the lexer that read a single token misses a document.

namespace Label

theorem name_ne_noDocument (c : Cursor) : name c ≠ .error .noDocument := by
  grind [name]

theorem handle_ne_noDocument (c : Cursor) : handle c ≠ .error .noDocument := by
  grind [handle]

theorem octet_ne_noDocument (c : Cursor) : octet c ≠ .error .noDocument := by
  grind [octet]

theorem trail_ne_noDocument (n code : Nat) (c : Cursor) :
    escapedChar.trail n code c ≠ .error .noDocument := by
  induction n generalizing code c <;> grind [escapedChar.trail, octet_ne_noDocument]

theorem escapedChar_ne_noDocument (c : Cursor) : escapedChar c ≠ .error .noDocument := by
  grind [escapedChar, octet_ne_noDocument, trail_ne_noDocument]

theorem go_ne_noDocument (n : Nat) (text : List Char) (c : Cursor) :
    uri.go n text c ≠ .error .noDocument := by
  induction n generalizing text c <;> grind [uri.go, escapedChar_ne_noDocument]

theorem uri_ne_noDocument (head : List Char) (c : Cursor) : uri head c ≠ .error .noDocument := by
  grind [uri, go_ne_noDocument]

theorem tag_ne_noDocument (c : Cursor) : tag c ≠ .error .noDocument := by
  have hv : tag.verbatim c ≠ .error .noDocument := by grind [tag.verbatim, uri_ne_noDocument]
  have hs : tag.short c ≠ .error .noDocument := by
    grind [tag.short, uri_ne_noDocument, handle_ne_noDocument]
  grind [tag]

theorem versionNumber_ne_noDocument (c : Cursor) : versionNumber c ≠ .error .noDocument := by
  grind [versionNumber]

theorem version_ne_noDocument (c : Cursor) : directive.version c ≠ .error .noDocument := by
  grind [directive.version, versionNumber_ne_noDocument]

theorem tagPrefix_ne_noDocument (c : Cursor) : directive.tagPrefix c ≠ .error .noDocument := by
  grind [directive.tagPrefix, uri_ne_noDocument, handle_ne_noDocument]

theorem directive_ne_noDocument (c : Cursor) : directive c ≠ .error .noDocument := by
  grind [directive, tagPrefix_ne_noDocument, version_ne_noDocument]

end Label

namespace Quoted

theorem escaped_ne_noDocument (c : Cursor) : escaped c ≠ .error .noDocument := by
  grind [escaped]

theorem run_ne_noDocument (quote : Char) (n : Nat) (text : List Char) (c : Cursor) :
    run quote n text c ≠ .error .noDocument := by
  induction n generalizing text c <;> grind [run, escaped_ne_noDocument]

theorem scan_ne_noDocument (quote : Char) (c : Cursor) : scan quote c ≠ .error .noDocument := by
  have hgo (n : Nat) (text : List Char) (c : Cursor) :
      scan.go quote n text c ≠ .error .noDocument := by
    induction n generalizing text c <;> grind [scan.go, run_ne_noDocument]
  exact hgo _ _ _

end Quoted

namespace Plain

theorem blanks_ne_noDocument (indent : Int) (n : Nat) (b : Quoted.Blanks) (c : Cursor) :
    blanks indent n b c ≠ .error .noDocument := by
  induction n generalizing b c <;> grind [blanks]

theorem scan_ne_noDocument (inFlow : Bool) (indent : Int) (c : Cursor) :
    scan inFlow indent c ≠ .error .noDocument := by
  have hgo (n : Nat) (text : List Char) (b : Quoted.Blanks) (c : Cursor) :
      scan.go inFlow indent n text b c ≠ .error .noDocument := by
    induction n generalizing text b c <;> grind [scan.go, blanks_ne_noDocument]
  exact hgo _ _ _ _

end Plain

namespace Block

theorem header_ne_noDocument (c : Cursor) : header c ≠ .error .noDocument := by
  have hi (c : Cursor) : indentation c ≠ .error .noDocument := by grind [indentation]
  grind [header]

theorem leading_ne_noDocument (indent n widest breaks : Nat) (c : Cursor) :
    leading indent n widest breaks c ≠ .error .noDocument := by
  induction n generalizing widest breaks c <;> grind [leading]

theorem leadingFrom_ne_noDocument (parent : Int) (indent : Nat) (c : Cursor) :
    leadingFrom parent indent c ≠ .error .noDocument := by
  grind [leadingFrom, leading_ne_noDocument]

theorem lines_ne_noDocument (literal : Bool) (chomping : Chomping) (indent n : Nat) (s : Partial)
    (c : Cursor) : scan.lines literal chomping indent n s c ≠ .error .noDocument := by
  induction n generalizing s c <;> grind [scan.lines, leading_ne_noDocument]

theorem scan_ne_noDocument (literal : Bool) (parent : Int) (c : Cursor) :
    scan literal parent c ≠ .error .noDocument := by
  grind [scan, header_ne_noDocument, leadingFrom_ne_noDocument, lines_ne_noDocument]

end Block

namespace Lexer

variable {s s' : Lexer} {t : Token} {n : Nat}

theorem dropCandidate_ne_noDocument : s.dropCandidate ≠ .error .noDocument := by
  grind [dropCandidate]

theorem saveCandidate_ne_noDocument : s.saveCandidate ≠ .error .noDocument := by
  grind [saveCandidate, dropCandidate_ne_noDocument]

theorem dropStale_ne_noDocument : s.dropStale ≠ .error .noDocument := by
  have hm {f : Option Candidate → Except Error (Option Candidate)}
      (hf : ∀ k, f k ≠ .error .noDocument) (ks : List (Option Candidate)) :
      ks.mapM f ≠ .error .noDocument := by
    induction ks <;> grind
  rw [dropStale, Ne, bind_eq_error_iff]
  rintro (he | ⟨ks, -, he⟩)
  · exact hm (by grind) _ he
  · simp [pure_eq_ok] at he

theorem tokens_of_dropCandidate (h : s.dropCandidate = .ok s') : s'.tokens = s.tokens := by
  grind [dropCandidate, setCandidate]

theorem tokens_of_saveCandidate (h : s.saveCandidate = .ok s') : s'.tokens = s.tokens := by
  rw [saveCandidate] at h
  split at h
  · obtain ⟨r, hr, he⟩ := exists_of_bind_eq_ok h
    rw [← Except.ok.inj he]
    exact (tokens_of_dropCandidate hr :)
  · rw [← Except.ok.inj h]

theorem tokens_of_dropStale (h : s.dropStale = .ok s') : s'.tokens = s.tokens := by
  obtain ⟨ks, -, he⟩ := exists_of_bind_eq_ok h
  rw [← Except.ok.inj he]

theorem tokens_skipBlanks : s.skipBlanks.tokens = s.tokens := by
  obtain ⟨c, k, he⟩ := exists_skipBlanks_eq s
  rw [he]

-- Whether there is a first token, and it is not the end of the stream.
def HasBegun (s : Lexer) : Prop :=
  ∃ t, s.tokens[0]? = some t ∧ t ≠ .streamEnd

-- Whether the next token is the first, or the stream has begun.
def CanBegin (s : Lexer) : Prop :=
  s.tokens = #[] ∨ s.HasBegun

theorem HasBegun.of_tokens (h : s.HasBegun) (he : s'.tokens = s.tokens) : s'.HasBegun := by
  rwa [HasBegun, he]

theorem HasBegun.push (h : s.HasBegun) (t : Token) : (s.push t).HasBegun := by
  obtain ⟨u, hu, hn⟩ := h
  exact ⟨u, by grind [Lexer.push], hn⟩

-- What adding an end and forgetting a block keep, closing blocks keeps.
theorem closeBlocks_induction {motive : Lexer → Prop} (column : Int) (h : motive s)
    (close : ∀ s outer, motive s → motive { s.push .blockEnd with indent := outer })
    (forget : ∀ s outer, motive s → motive { s with indents := outer }) :
    motive (s.closeBlocks column) := by
  have hgo (outer : List Int) {s : Lexer} (h : motive s) :
      motive (closeBlocks.go column s outer) := by
    induction outer generalizing s with
    | nil => exact forget s [] h
    | cons i outer hi =>
      unfold closeBlocks.go
      split
      · exact hi (close s i h)
      · exact forget s _ h
  unfold closeBlocks
  split
  · exact h
  · exact hgo _ h

theorem HasBegun.closeBlocks (h : s.HasBegun) (column : Int) : (s.closeBlocks column).HasBegun :=
  closeBlocks_induction column h (fun _ _ h => (h.push _).of_tokens rfl)
    fun _ _ h => h.of_tokens rfl

namespace CanBegin

theorem of_tokens (h : s.CanBegin) (he : s'.tokens = s.tokens) : s'.CanBegin := by
  rwa [CanBegin, HasBegun, he]

theorem push (t : Token) (h : s.CanBegin) (ht : t ≠ .streamEnd) : (s.push t).HasBegun := by
  rcases h with h | h
  · exact ⟨t, by simp [Lexer.push, h], ht⟩
  · exact h.push t

-- The token comes first if nothing is before it; else what was first stays it.
theorem insert (t : Token) (n : Nat) (h : s.CanBegin) (ht : t ≠ .streamEnd) :
    (s.insert n t).HasBegun := by
  unfold Lexer.insert
  by_cases hx : (s.tokens.extract 0 n).size = 0
  case pos =>
    refine ⟨t, ?_, ht⟩
    rw [Array.getElem?_append_left (by simp), Array.getElem?_push, if_pos hx.symm]
  case neg =>
    have hs : 0 < n ∧ s.tokens.size ≠ 0 := by
      rw [Array.size_extract] at hx
      omega
    obtain ⟨u, hu, hne⟩ := h.resolve_left fun he => hs.2 (Array.size_eq_zero_iff.mpr he)
    refine ⟨u, ?_, hne⟩
    rw [Array.getElem?_append_left (by simp), Array.getElem?_push, if_neg (Ne.symm hx),
      Array.getElem?_extract, if_pos (by omega)]
    exact hu

theorem openBlock (column : Nat) (t : Token) (n : Nat) (h : s.CanBegin) (ht : t ≠ .streamEnd) :
    (s.openBlock column t n).CanBegin := by
  unfold Lexer.openBlock
  split
  · exact h
  · exact .inr ((insert t n h ht).of_tokens rfl)

theorem closeBlocks (h : s.CanBegin) (column : Int) : (s.closeBlocks column).CanBegin :=
  closeBlocks_induction column h
    (fun _ _ h => .inr ((push .blockEnd h nofun).of_tokens rfl)) fun _ _ h => h.of_tokens rfl

end CanBegin

-- Whether reading a token succeeds and has begun the stream, or fails, but not for want of a
-- document.
def Begins (x : Except Error Lexer) : Prop :=
  x ≠ .error .noDocument ∧ ∀ s, x = .ok s → s.HasBegun

namespace Begins

theorem ok (h : s.HasBegun) : Begins (.ok s) :=
  ⟨nofun, fun _ he => Except.ok.inj he ▸ h⟩

theorem error (h : e ≠ .noDocument) : Begins (.error e) :=
  ⟨fun he => h (Except.error.inj he), nofun⟩

theorem bind {x : Except Error α} {f : α → Except Error Lexer} (hx : x ≠ .error .noDocument)
    (hf : ∀ a, x = .ok a → Begins (f a)) : Begins (x >>= f) := by
  cases x with
  | error e => exact .error fun he => hx (he ▸ rfl)
  | ok a => exact hf a rfl

-- An operation that may forget the candidate first, or remember one.
theorem dropCandidate {f : Lexer → Except Error Lexer} (h : s.CanBegin)
    (hf : ∀ s', s'.CanBegin → Begins (f s')) : Begins (s.dropCandidate >>= f) :=
  bind dropCandidate_ne_noDocument fun s' hs => hf s' (h.of_tokens (tokens_of_dropCandidate hs))

theorem saveCandidate {f : Lexer → Except Error Lexer} (h : s.CanBegin)
    (hf : ∀ s', s'.CanBegin → Begins (f s')) : Begins (s.saveCandidate >>= f) :=
  bind saveCandidate_ne_noDocument fun s' hs => hf s' (h.of_tokens (tokens_of_saveCandidate hs))

-- The token is added, and the rest of the result does not matter.
theorem push (t : Token) (h : s.CanBegin) (ht : t ≠ .streamEnd)
    (he : s'.tokens = (s.push t).tokens) : Begins (.ok s') :=
  ok ((CanBegin.push t h ht).of_tokens he)

theorem documentMark (h : s.CanBegin) (ht : t ≠ .streamEnd) : Begins (s.documentMark t) :=
  dropCandidate (h.closeBlocks _) fun _ h => push t h ht rfl

theorem openFlow (h : s.CanBegin) (ht : t ≠ .streamEnd) : Begins (s.openFlow t) := by
  refine saveCandidate h fun s' h => ?_
  split
  · exact error nofun
  · exact push t h ht rfl

theorem closeFlow (h : s.CanBegin) (ht : t ≠ .streamEnd) : Begins (s.closeFlow t) := by
  refine dropCandidate h fun s' h => ?_
  dsimp only
  split <;> exact push t h ht rfl

theorem flowEntry (h : s.CanBegin) : Begins s.flowEntry :=
  dropCandidate h fun _ h => push .flowEntry h nofun rfl

theorem blockEntry (h : s.CanBegin) : Begins s.blockEntry := by
  unfold Lexer.blockEntry
  split
  · exact error nofun
  · exact dropCandidate (.openBlock _ .blockSequenceStart _ h nofun) fun _ h =>
      push .blockEntry h nofun rfl

theorem key (h : s.CanBegin) : Begins s.key := by
  unfold Lexer.key
  split
  · exact error nofun
  · exact dropCandidate (.openBlock _ .blockMappingStart _ h nofun) fun _ h =>
      push .key h nofun rfl

theorem value (h : s.CanBegin) : Begins s.value := by
  unfold Lexer.value
  split
  · have hk (n : Nat) : (s.insert n .key).CanBegin := .inr (CanBegin.insert .key n h nofun)
    exact push .value (.openBlock _ .blockMappingStart _ (hk _) nofun) nofun rfl
  · split
    · exact error nofun
    · exact push .value (.openBlock _ .blockMappingStart _ h nofun) nofun rfl

theorem anchor {build : String → Token} (h : s.CanBegin) (hb : ∀ name, build name ≠ .streamEnd) :
    Begins (s.anchor build) :=
  saveCandidate h fun _ h => bind (Label.name_ne_noDocument _) fun a _ =>
    push (build a.1) h (hb _) rfl

theorem tag (h : s.CanBegin) : Begins s.tag :=
  saveCandidate h fun _ h => bind (Label.tag_ne_noDocument _) fun a _ => push (.tag a.1) h nofun rfl

theorem directive (h : s.CanBegin) : Begins s.directive :=
  dropCandidate (h.closeBlocks _) fun _ h =>
    bind (Label.directive_ne_noDocument _) fun _ _ => push .directive h nofun rfl

theorem blockScalar (h : s.CanBegin) (literal : Bool) : Begins (s.blockScalar literal) :=
  saveCandidate h fun _ h => bind (Block.scan_ne_noDocument _ _ _) fun a _ =>
    push (.scalar a.1 false) h nofun rfl

theorem quoted (h : s.CanBegin) (quote : Char) : Begins (s.quoted quote) :=
  saveCandidate h fun _ h => bind (Quoted.scan_ne_noDocument _ _) fun a _ =>
    push (.scalar a.1 false) h nofun rfl

theorem plain (h : s.CanBegin) : Begins s.plain :=
  saveCandidate h fun _ h => bind (Plain.scan_ne_noDocument _ _ _) fun a _ =>
    push (.scalar a.1 true) h nofun rfl

theorem next (h : s.CanBegin) (x : Char) : Begins (s.next x) := by
  unfold Lexer.next
  dsimp only
  split
  · exact directive h
  split
  · exact documentMark h (by split <;> nofun)
  split
  case h_1 | h_2 => exact openFlow h nofun
  case h_3 | h_4 => exact closeFlow h nofun
  case h_5 => exact flowEntry h
  case h_6 | h_7 => exact anchor h nofun
  case h_8 => exact tag h
  case h_9 | h_10 => exact quoted h _
  case h_11 | h_12 | h_13 => exact error nofun
  case h_14 => split <;> [exact blockEntry h; exact plain h]
  case h_15 => split <;> [exact key h; exact plain h]
  case h_16 => split <;> [exact value h; exact plain h]
  case h_17 | h_18 => split <;> [exact plain h; exact blockScalar h _]
  case h_19 => exact plain h

theorem streamEnd (h : s.HasBegun) : Begins s.streamEnd :=
  bind dropCandidate_ne_noDocument fun _ hs =>
    ok (((h.closeBlocks _).of_tokens (tokens_of_dropCandidate hs)).push _)

theorem run (h : s.HasBegun) (n : Nat) : Begins (run n s) := by
  induction n generalizing s with
  | zero => exact ok h
  | succ n hi =>
    refine bind dropStale_ne_noDocument fun s' hs => ?_
    have hb : s'.HasBegun := h.of_tokens ((tokens_of_dropStale hs).trans tokens_skipBlanks)
    have hc := hb.closeBlocks s'.cursor.column
    dsimp only
    split
    case h_1 => exact streamEnd hc
    case h_2 x _ =>
      have hx := next (.inr hc) x
      exact bind hx.1 fun s'' hs => hi (hx.2 s'' hs)

end Begins

-- How the first token is read, before which there is no candidate and no block.
theorem run_of_candidates (hc : s.candidates = [none]) (hi : s.indents = []) (n : Nat) :
    run (n + 1) s = match s.skipBlanks.cursor.peek? with
      | none => s.skipBlanks.streamEnd
      | some x => s.skipBlanks.next x >>= run n := by
  obtain ⟨c, k, hs⟩ := exists_skipBlanks_eq s
  obtain ⟨cursor, tokens, candidates, keyAllowed, indent, indents, afterQuoted⟩ := s
  cases hc
  cases hi
  rw [run, hs]
  rfl

end Lexer

open Lexer

-- Either the stream ends at once, or it is read as far as to its first token.
theorem Token.ofText_cases (text : String) :
    (HasIdleLines (Cursor.ofText text).rest ∧ Token.ofText text = .ok [.streamEnd]) ∨
      (¬HasIdleLines (Cursor.ofText text).rest ∧
        ∃ x, Begins x ∧ Token.ofText text = x.map (·.tokens.toList)) := by
  let s : Lexer := { cursor := Cursor.ofText text }
  have hr : s.skipBlanks.cursor.rest = [] ↔ HasIdleLines s.cursor.rest :=
    rest_skipBlanks_eq_nil_iff rfl nofun
  have hrun := run_of_candidates (s := s) rfl rfl (s.cursor.rest.length + 1)
  rw [Cursor.peek?_eq_head?] at hrun
  obtain ⟨c, k, hs⟩ := exists_skipBlanks_eq s
  cases hc : s.skipBlanks.cursor.rest with
  | nil =>
    rw [hc, hs] at hrun
    exact .inl ⟨hr.mp hc, congrArg (·.map (·.tokens.toList)) hrun⟩
  | cons x rest =>
    have hb : s.skipBlanks.CanBegin := .inl tokens_skipBlanks
    have hx := Begins.next hb x
    rw [hc] at hrun
    refine .inr ⟨fun hi => by simp [hr.mpr hi] at hc, _, ?_, rfl⟩
    exact hrun ▸ Begins.bind hx.1 fun s' hs => .run (hx.2 s' hs) _

namespace Node.Reading

-- Whether reading never fails with `e`.
def Spares (e : Error) (x : Reading α) : Prop :=
  ∀ s, x.run s ≠ .error e

namespace Spares

variable {n : Nat}

@[grind ←]
theorem bind {x : Reading α} {f : α → Reading β} (hx : Spares e x) (hf : ∀ a, Spares e (f a)) :
    Spares e (x >>= f) := by
  intro s
  rw [StateT.run_bind, Ne, bind_eq_error_iff]
  rintro (h | ⟨a, -, h⟩)
  · exact hx s h
  · exact hf _ _ h

@[grind ←]
theorem pure (a : α) : Spares e (Pure.pure a) :=
  fun _ => nofun

@[grind ←]
theorem throw {e' : Error} (h : e' ≠ e) : Spares e (throw e' : Reading α) :=
  fun _ he => h (Except.error.inj he)

@[grind ←]
theorem map {x : Reading α} {f : α → β} (hx : Spares e x) : Spares e (f <$> x) := by
  rw [← bind_pure_comp]
  exact hx.bind fun _ => .pure _

@[grind ←]
theorem get : Spares e (get : Reading Source) :=
  nofun

@[grind ←]
theorem set (s : Source) : Spares e (set s : Reading PUnit) :=
  nofun

@[grind ←]
theorem peek : Spares e peek :=
  nofun

@[grind ←]
theorem skip : Spares e skip :=
  nofun

@[grind ←]
theorem expect (t : Token) : Spares .noDocument (expect t) := by
  unfold Reading.expect
  grind

@[grind ←]
theorem anchor? : Spares e anchor? := by
  unfold Reading.anchor?
  grind

@[grind ←]
theorem tag? : Spares e tag? := by
  unfold Reading.tag?
  grind

@[grind ←]
theorem properties : Spares e properties := by
  unfold Reading.properties
  grind

@[grind ←]
theorem skipAll (t : Token) (n : Nat) : Spares e (skipAll t n) := by
  induction n <;> unfold Reading.skipAll <;> grind

-- That none of the parts of a tree misses a document, in `n` steps.
structure Parts (n : Nat) : Prop where
  node (block indentless : Bool) : Spares .noDocument (node block indentless n)
  nodeUnless (ends : List Token) (block indentless : Bool) :
    Spares .noDocument (nodeUnless ends block indentless n)
  blockItems : Spares .noDocument (blockItems n)
  looseItems : Spares .noDocument (looseItems n)
  blockEntries : Spares .noDocument (blockEntries n)
  blockValue : Spares .noDocument (blockValue n)
  flowEntries (first : Bool) : Spares .noDocument (flowEntries first n)
  flowValue : Spares .noDocument (flowValue n)
  flowItems (first : Bool) : Spares .noDocument (flowItems first n)
  singlePair : Spares .noDocument (singlePair n)

theorem parts (n : Nat) : Parts n := by
  induction n with
  | zero => constructor <;> intros <;> exact .throw nofun
  | succ n hi =>
    obtain ⟨_, _, _, _, _, _, _, _, _, _⟩ := hi
    constructor
    case node =>
      intro block indentless
      rw [Reading.node]
      refine .bind .peek fun t => ?_
      split
      · refine .bind .skip fun _ => .bind .get fun s => ?_
        split
        · exact .pure _
        · exact .bind (.throw nofun) fun _ => by grind
      · refine .bind .properties fun p => .bind .peek fun t => ?_
        split <;> grind
    case nodeUnless =>
      intro ends block indentless
      rw [Reading.nodeUnless]
      grind
    case blockItems => rw [Reading.blockItems]; grind
    case looseItems => rw [Reading.looseItems]; grind
    case blockEntries => rw [Reading.blockEntries]; grind
    case blockValue => rw [Reading.blockValue]; grind
    case flowEntries =>
      intro first
      rw [Reading.flowEntries]
      refine .bind .peek fun t => ?_
      split <;> [grind; (split <;> grind)]
    case flowValue => rw [Reading.flowValue]; grind
    case flowItems =>
      intro first
      rw [Reading.flowItems]
      refine .bind .peek fun t => ?_
      split <;> [grind; (split <;> grind)]
    case singlePair => rw [Reading.singlePair]; grind

end Spares

-- A document is missed only if the stream ends at once.
theorem document_ne_noDocument {s : Source} (h : s.tokens.headD .streamEnd ≠ .streamEnd) (n : Nat) :
    (document n).run s ≠ .error .noDocument := by
  obtain ⟨node, nodeUnless, _⟩ := Spares.parts n
  change (if s.tokens.headD .streamEnd = .streamEnd then _ else _ : Reading Node).run s ≠ _
  rw [if_neg h]
  refine Spares.bind .peek (fun t => ?_) s
  split <;> grind

end Node.Reading

-- A tree is read as far as to its first token, or is none.
theorem Node.ofTokens_ne_noDocument {tokens : List Token}
    (h : tokens.headD .streamEnd ≠ .streamEnd) : ofTokens tokens ≠ .error .noDocument := by
  have hd := Reading.document_ne_noDocument (s := { tokens }) h (4 * tokens.length + 16)
  rw [ofTokens, StateT.run'_eq, map_eq_pure_bind, Ne, bind_eq_error_iff]
  rintro (he | ⟨_, -, he⟩)
  · exact hd he
  · nomatch he

-- Reading fails for want of a document if and only if each line is idle.
theorem Node.ofText_eq_noDocument_iff (text : String) :
    Node.ofText text = .error .noDocument ↔ HasIdleLines (Cursor.ofText text).rest := by
  rcases Token.ofText_cases text with ⟨hi, ht⟩ | ⟨hi, x, hx, ht⟩
  · rw [Node.ofText, ht]
    exact iff_of_true rfl hi
  · rw [Node.ofText, ht, iff_false_right hi]
    cases x with
    | error e => exact fun he => hx.1 (congrArg _ (Except.error.inj he))
    | ok s =>
      obtain ⟨t, hf, hn⟩ := hx.2 s rfl
      refine ofTokens_ne_noDocument ?_
      rwa [List.headD_eq_head?_getD, List.head?_eq_getElem?, Array.getElem?_toList, hf]

end StaticSite.Yaml
