import StaticSite.Proofs.Yaml.Decoding
import StaticSite.Proofs.Yaml.Printed
/-!
The trees of printed values. Main statements: the tokens of a value are a document that is read as
the tree of the value (`ofTokens_tokens`), so that the text of a collection is read just as the
document that holds it is (`ofText_text`).
-/
namespace StaticSite.Yaml.Node.Reading

variable {α β : Type} {n : Nat} {t t' : Token} {ts ts' ts'' : List Token} {b : Bool}
  {x : Reading α} {f : α → Reading β} {a : α} {c : β} {item key value : Node} {items : List Node}
  {entries : List (Node × Node)}

-- That reading comes to `a` where the tokens `ts` are next, and takes these.
def Takes (x : Reading α) (ts : List Token) (a : α) : Prop :=
  ∀ more anchors count, x.run ⟨ts ++ more, anchors, count⟩ = .ok (a, ⟨more, anchors, count⟩)

-- The tokens that a node ends at, if it is in a block collection or a document.
def ends : List Token :=
  [.key, .value, .blockEntry, .blockEnd, .directive, .documentStart, .documentEnd, .streamEnd]

namespace Takes

theorem pure (a : α) : Takes (Pure.pure a) [] a :=
  fun _ _ _ => rfl

theorem bind (h : Takes x ts a) (h' : Takes (f a) ts' c) : Takes (x >>= f) (ts ++ ts') c := by
  intro more anchors count
  rw [StateT.run_bind, List.append_assoc, h]
  exact h' more anchors count

theorem bind_pure (h : Takes x ts a) (f : α → β) : Takes (x >>= (Pure.pure <| f ·)) ts (f a) := by
  rw [← List.append_nil ts]
  exact h.bind (.pure _)

theorem map (h : Takes x ts a) (f : α → β) : Takes (f <$> x) ts (f a) := by
  rw [← bind_pure_comp]
  exact h.bind_pure f

-- The first token decides how reading goes on.
theorem peek {f : Token → Reading β} (h : Takes (f t) (t :: ts) c) :
    Takes (Reading.peek >>= f) (t :: ts) c :=
  h

theorem skip {f : Unit → Reading β} (h : Takes (f ()) ts c) :
    Takes (Reading.skip >>= f) (t :: ts) c :=
  h

theorem scalar (text : String) (plain : Bool) :
    Takes (node true b (n + 1)) [.scalar text plain] (.scalar text plain none) := by
  intro more anchors count
  rw [Reading.node]
  rfl

theorem emptySequence :
    Takes (node true b (n + 2)) [.flowSequenceStart, .flowSequenceEnd] (.sequence []) := by
  intro more anchors count
  rw [Reading.node, Reading.flowItems]
  rfl

theorem emptyMapping :
    Takes (node true b (n + 2)) [.flowMappingStart, .flowMappingEnd] (.mapping []) := by
  intro more anchors count
  rw [Reading.node, Reading.flowEntries]
  rfl

theorem sequence (h : Takes (blockItems n) ts items) :
    Takes (node true b (n + 1)) (.blockSequenceStart :: ts) (.sequence items) := by
  intro more anchors count
  rw [Reading.node]
  exact (h.map Node.sequence).bind_pure id more anchors count

theorem mapping (h : Takes (blockEntries n) ts entries) :
    Takes (node true b (n + 1)) (.blockMappingStart :: ts) (.mapping entries) := by
  intro more anchors count
  rw [Reading.node]
  exact (h.map Node.mapping).bind_pure id more anchors count

theorem nodeUnless {stops : List Token} (h : Takes (node true b n) (t :: ts) item)
    (ht : t ∉ stops) : Takes (nodeUnless stops true b (n + 1)) (t :: ts) item := by
  rw [Reading.nodeUnless]
  refine .peek ?_
  rwa [if_neg (by simpa using ht)]

theorem blockItems_nil : Takes (blockItems (n + 1)) [.blockEnd] [] := by
  rw [Reading.blockItems]
  exact .peek (.skip (.pure _))

theorem blockItems_cons (h : Takes (node true false n) (t :: ts) item) (ht : t ∉ ends)
    (hi : Takes (blockItems (n + 1)) ts' items) :
    Takes (blockItems (n + 2)) (.blockEntry :: (t :: ts ++ ts')) (item :: items) := by
  rw [Reading.blockItems]
  refine .peek (.skip (.bind (.nodeUnless h ?_) (.map hi _)))
  simp_all [ends]

theorem blockEntries_nil : Takes (blockEntries (n + 1)) [.blockEnd] [] := by
  rw [Reading.blockEntries]
  exact .peek (.skip (.pure _))

theorem blockValue (h : Takes (node true true n) (t :: ts) value) (ht : t ∉ ends) :
    Takes (blockValue (n + 2)) (.value :: t :: ts) value := by
  rw [Reading.blockValue]
  refine .peek (.skip (.nodeUnless h ?_))
  simp_all [ends]

theorem blockEntries_cons (hk : Takes (node true true (n + 1)) (t :: ts) key) (ht : t ∉ ends)
    (hv : Takes (node true true n) (t' :: ts') value) (ht' : t' ∉ ends)
    (he : Takes (blockEntries (n + 2)) ts'' entries) :
    Takes (blockEntries (n + 3)) (.key :: (t :: ts ++ (.value :: t' :: ts' ++ ts'')))
      ((key, value) :: entries) := by
  rw [Reading.blockEntries]
  refine .peek (.skip (.bind (.nodeUnless hk ?_) (.bind (.blockValue hv ht') (.map he _))))
  simp_all [ends]

end Takes

theorem run_skipAll (ht : t ≠ t') (anchors : List (String × Nat)) (count : Nat) :
    (skipAll t' n).run ⟨t :: ts, anchors, count⟩ = .ok ((), ⟨t :: ts, anchors, count⟩) := by
  cases n with
  | zero => rfl
  | succ n =>
    rw [skipAll]
    show (if t = t' then _ else _ : Reading Unit).run _ = _
    rw [if_neg ht]
    rfl

-- What is left to do behind the node of a document.
def finish (n : Nat) (root : Node) : Reading Node := do
  skipAll .documentEnd n
  if (← Reading.peek) = .streamEnd then return root else throw .severalDocuments

theorem run_bind_finish {x : Reading Node} (h : Takes x ts item) :
    (x >>= finish n).run ⟨ts ++ [.streamEnd], [], 0⟩ = .ok (item, ⟨[.streamEnd], [], 0⟩) := by
  rw [StateT.run_bind, h]
  show (finish n item).run ⟨[.streamEnd], [], 0⟩ = _
  rw [finish, StateT.run_bind, run_skipAll (show Token.streamEnd ≠ .documentEnd from nofun)]
  rfl

theorem run_document (h : Takes (node true false n) (t :: ts) item) (ht : t ∉ ends) :
    (document n).run ⟨t :: (ts ++ [.streamEnd]), [], 0⟩ = .ok (item, ⟨[.streamEnd], [], 0⟩) := by
  have hends : t ≠ .streamEnd ∧ ¬[.directive, .documentStart].contains t := by simp_all [ends]
  rw [document]
  show (if t = .streamEnd then _ else _ : Reading Node).run _ = _
  rw [if_neg hends.1]
  show (if [.directive, .documentStart].contains t then _ else _ : Reading Node).run _ = _
  rw [if_neg hends.2]
  exact run_bind_finish h

theorem run_document_of_mark (h : Takes (node true false n) (t :: ts) item) (ht : t ∉ ends) :
    (document (n + 1)).run ⟨.documentStart :: t :: (ts ++ [.streamEnd]), [], 0⟩ =
      .ok (item, ⟨[.streamEnd], [], 0⟩) := by
  rw [document]
  show (skipAll .directive (n + 1) >>= fun _ => expect .documentStart >>= fun _ =>
    nodeUnless [.directive, .documentStart, .documentEnd, .streamEnd] true false (n + 1) >>=
      finish (n + 1)).run ⟨.documentStart :: t :: (ts ++ [.streamEnd]), [], 0⟩ = _
  rw [StateT.run_bind, run_skipAll (show Token.documentStart ≠ .directive from nofun)]
  exact run_bind_finish (.nodeUnless h (by simp_all [ends]))

theorem ofTokens_eq {s : Source} (hn : n = 4 * ts.length + 16)
    (h : (document n).run ⟨ts, [], 0⟩ = .ok (item, s)) : ofTokens ts = .ok item := by
  rw [ofTokens, StateT.run'_eq, ← hn, h]
  rfl

end StaticSite.Yaml.Node.Reading

namespace StaticSite.Yaml.Printer

open Node.Reading

mutual

-- The tree of a value, with its scalars as they are printed.
def node : Value → Node
  | .sequence items => .sequence (itemNodes items)
  | .mapping entries => .mapping (entryNodes entries)
  | .null => .scalar (content .null) true none
  | .bool b => .scalar (content (.bool b)) true none
  | .int n => .scalar (content (.int n)) true none
  | .float x => .scalar (content (.float x)) true none
  | .string s => .scalar s (isPlain (.string s)) none

def itemNodes : List Value → List Node
  | [] => []
  | item :: items => node item :: itemNodes items

def entryNodes : List (Value × Value) → List (Node × Node)
  | [] => []
  | (key, value) :: entries => (node key, node value) :: entryNodes entries

end

variable {v : Value} {n : Nat} {b : Bool} {items : List Value} {entries : List (Value × Value)}

theorem node_scalar (h : ¬isCollection v) : node v = .scalar (content v) (isPlain v) none := by
  cases v <;> first | exact absurd rfl h | (rw [node]; rfl)

-- The first token of a value ends nothing.
theorem exists_tokens_eq (v : Value) : ∃ t ts, tokens v = t :: ts ∧ t ∉ ends := by
  by_cases h : isCollection v
  case neg => exact ⟨_, [], tokens_scalar h, by simp [ends]⟩
  case pos =>
    cases v with
    | sequence items => rw [tokens]; split <;> exact ⟨_, _, rfl, by decide⟩
    | mapping entries => rw [tokens]; split <;> exact ⟨_, _, rfl, by decide⟩
    | null | bool | int | float | string => exact absurd h Bool.false_ne_true

-- That the tokens of a value are read as its tree, in as many steps as there may be calls.
def IsParsed (v : Value) : Prop :=
  ∀ ⦃n b⦄, 2 * (tokens v).length ≤ n → Takes (Node.Reading.node true b n) (tokens v) (node v)

theorem takes_items (h : ∀ item ∈ items, IsParsed item) (hn : 2 * (itemTokens items).length < n) :
    Takes (blockItems n) (itemTokens items ++ [.blockEnd]) (itemNodes items) := by
  induction items generalizing n with
  | nil =>
    obtain ⟨n, rfl⟩ : ∃ k, n = k + 1 := ⟨n - 1, by omega⟩
    exact .blockItems_nil
  | cons item items hi =>
    rw [List.forall_mem_cons] at h
    obtain ⟨t, ts, he, ht⟩ := exists_tokens_eq item
    have hitem := h.1
    simp only [IsParsed, he, itemTokens, List.length_cons, List.length_append] at hitem hn ⊢
    obtain ⟨n, rfl⟩ : ∃ k, n = k + 2 := ⟨n - 2, by omega⟩
    have := (hitem (by omega)).blockItems_cons ht (hi h.2 (n := n + 1) (by omega))
    simpa [itemNodes] using this

theorem takes_entries (h : ∀ e ∈ entries, IsParsed e.1 ∧ IsParsed e.2)
    (hn : 2 * (entryTokens entries).length < n) :
    Takes (blockEntries n) (entryTokens entries ++ [.blockEnd]) (entryNodes entries) := by
  induction entries generalizing n with
  | nil =>
    obtain ⟨n, rfl⟩ : ∃ k, n = k + 1 := ⟨n - 1, by omega⟩
    exact .blockEntries_nil
  | cons e entries hi =>
    obtain ⟨key, value⟩ := e
    obtain ⟨⟨hk, hv⟩, h⟩ := List.forall_mem_cons.mp h
    obtain ⟨t, ts, he, ht⟩ := exists_tokens_eq key
    obtain ⟨t', ts', he', ht'⟩ := exists_tokens_eq value
    simp only [IsParsed, he, he', entryTokens, List.length_cons, List.length_append] at hk hv hn ⊢
    obtain ⟨n, rfl⟩ : ∃ k, n = k + 3 := ⟨n - 3, by omega⟩
    have := (hk (by omega)).blockEntries_cons ht (hv (by omega)) ht' (hi h (n := n + 2) (by omega))
    simpa [entryNodes] using this

theorem isParsed (v : Value) : IsParsed v := by
  induction v using induction with
  | scalar v h =>
    intro n b hn
    rw [tokens_scalar h] at hn ⊢
    rw [node_scalar h]
    obtain ⟨n, rfl⟩ : ∃ k, n = k + 1 := ⟨n - 1, by simp at hn; omega⟩
    exact .scalar _ _
  | sequence items hi =>
    intro n b hn
    rw [node]
    cases items with
    | nil =>
      obtain ⟨n, rfl⟩ : ∃ k, n = k + 2 := ⟨n - 2, by simp [tokens] at hn; omega⟩
      exact .emptySequence
    | cons item items =>
      rw [tokens, if_neg (by simp)] at hn ⊢
      simp only [List.length_cons, List.length_append] at hn
      obtain ⟨n, rfl⟩ : ∃ k, n = k + 1 := ⟨n - 1, by omega⟩
      exact .sequence (takes_items hi (by omega))
  | mapping entries hi =>
    intro n b hn
    rw [node]
    cases entries with
    | nil =>
      obtain ⟨n, rfl⟩ : ∃ k, n = k + 2 := ⟨n - 2, by simp [tokens] at hn; omega⟩
      exact .emptyMapping
    | cons e entries =>
      rw [tokens, if_neg (by simp)] at hn ⊢
      simp only [List.length_cons, List.length_append] at hn
      obtain ⟨n, rfl⟩ : ∃ k, n = k + 1 := ⟨n - 1, by omega⟩
      exact .mapping (takes_entries hi (by omega))

-- The tokens of a value are a document, with a mark or without.
theorem ofTokens_tokens (v : Value) :
    Node.ofTokens (tokens v ++ [.streamEnd]) = .ok (node v) ∧
      Node.ofTokens (.documentStart :: (tokens v ++ [.streamEnd])) = .ok (node v) := by
  obtain ⟨t, ts, he, ht⟩ := exists_tokens_eq v
  have hv (n : Nat) (hn : 2 * (tokens v).length ≤ n) := isParsed v (b := false) hn
  simp only [he, List.length_cons] at hv
  rw [he, List.cons_append]
  constructor
  · exact ofTokens_eq rfl (run_document (hv _ (by simp; omega)) ht)
  · refine ofTokens_eq (n := 4 * ts.length + 27 + 1) (by simp; omega)
      (run_document_of_mark (hv _ (by omega)) ht)

-- A collection is read alike from its text and from the document that holds it.
theorem ofText_text (hc : isCollection v) : Node.ofText (text 0 v) = Node.ofText v.toText := by
  obtain ⟨ht, ht'⟩ := tokens_text hc
  obtain ⟨hd, hd'⟩ := tokens_toText hc
  obtain ⟨hn, hn'⟩ := ofTokens_tokens v
  by_cases hk : KeysFit v
  case pos => simp only [Node.ofText, ht hk, hd hk, bind, Except.bind, hn, hn']
  case neg => simp only [Node.ofText, ht' hk, hd' hk, bind, Except.bind]

-- It is read as it was if its tree has the value that was printed.
theorem ofText_toText (hc : isCollection v) (hk : KeysFit v)
    (hy : Decoding.Yields (Decoding.value Decoding.maxDepth (node v)) v) :
    Value.ofText v.toText = .ok v := by
  rw [Value.ofText, Node.ofText, (tokens_toText hc).1 hk]
  simp only [bind, Except.bind, (ofTokens_tokens v).2]
  exact hy.decode

end StaticSite.Yaml.Printer
