import Mathlib.Data.List.Forall2
import StaticSite.Yaml.Value.OfNode
/-!
What reading out of a tree comes to if it succeeds. Whether it does depends on how many aliases may
still be followed, but what it comes to does not. Main statements: an alias stands for its node
(`Gives.of_resolve`), and one for each reader of a node that says what there is to read
(`Gives.of_text`, `Gives.of_text?`, `Gives.of_entries`). Where no alias is followed, reading
succeeds as well (`Yields.decode`).
-/
namespace StaticSite.Yaml

-- The node itself, without its anchor, or the one that an alias refers to.
def Node.target? (root : Node) : Node → Option Node
  | .anchored _ node => some node
  | .reference id => root.anchors.lookup id
  | node => some node

-- Whether a node is a scalar that stands for no value.
def Node.isNull : Node → Bool
  | .scalar text plain tag => match Decoding.isAbsent text plain tag with
    | .ok absent => absent
    | .error _ => false
  | _ => false

namespace Decoding

variable {α β : Type} {root node target : Node} {x : Decoding α} {f : α → Decoding β} {a c : α}
  {b : β} {e : Error}

-- Reading succeeds with this result, if enough aliases may be followed.
def Gives (root : Node) (x : Decoding α) (a : α) : Prop :=
  ∃ n m, (x.run ⟨root.anchors⟩).run n = .ok (a, m)

namespace Gives

theorem of_decode {read : Node → Decoding α} (h : decode root read = .ok a) :
    Gives root (read root) a := by
  rw [decode, StateT.run'] at h
  cases hr : (read root).run ⟨root.anchors⟩ (root.weight * 100) with
  | error e =>
    rw [hr] at h
    exact absurd h (by simp [Functor.map, Except.map])
  | ok r =>
    rw [hr] at h
    exact ⟨_, r.2, hr.trans (congrArg Except.ok (Prod.ext (Except.ok.inj h) rfl))⟩

theorem of_pure (h : Gives root (pure a) c) : a = c := by
  obtain ⟨n, m, h⟩ := h
  exact (Prod.ext_iff.mp (Except.ok.inj h)).1

theorem not_throw : ¬Gives root (throw e : Decoding α) a := by
  rintro ⟨n, m, h⟩
  exact absurd (show Except.error e = Except.ok (a, m) from h) (by simp)

theorem of_liftM {x : Except Error α} (h : Gives root (liftM x : Decoding α) a) : x = .ok a := by
  obtain ⟨n, m, h⟩ := h
  cases x
  case error e => exact absurd (show Except.error e = Except.ok (a, m) from h) (by simp)
  case ok c => exact congrArg Except.ok (Prod.ext_iff.mp (Except.ok.inj h)).1

theorem of_bind (h : Gives root (x >>= f) b) : ∃ a, Gives root x a ∧ Gives root (f a) b := by
  obtain ⟨n, m, h⟩ := h
  rw [ReaderT.run_bind, StateT.run_bind] at h
  cases hx : (x.run ⟨root.anchors⟩).run n with
  | error e => simp [hx, bind, Except.bind] at h
  | ok r => exact ⟨r.1, ⟨n, r.2, hx⟩, r.2, m, by simpa [hx, bind, Except.bind] using h⟩

theorem run_resolve_reference {id n : Nat} :
    ((resolve (.reference id)).run ⟨root.anchors⟩).run n =
      if n = 0 then .error .tooManyAliases else match root.anchors.lookup id with
        | some node => .ok (node, n - 1)
        | none => .error .unknownAnchor := by
  cases n
  case zero => rfl
  case succ n =>
    show (match root.anchors.lookup id with
      | some node => pure node
      | none => throw .unknownAnchor : Decoding Node).run ⟨root.anchors⟩ n = _
    cases root.anchors.lookup id <;> rfl

-- Only an alias is replaced, by the node that it refers to.
theorem of_resolve (h : Gives root (resolve node) target) : root.target? node = some target := by
  cases node
  case anchored => exact congrArg some h.of_pure
  case reference id =>
    obtain ⟨n, m, h⟩ := h
    rw [run_resolve_reference] at h
    split at h
    case isTrue => simp at h
    case isFalse =>
      split at h
      case h_1 hl =>
        obtain ⟨rfl, -⟩ : _ = target ∧ n - 1 = m := by simpa using h
        exact hl
      case h_2 => simp at h
  all_goals exact congrArg some h.of_pure

-- The text of a scalar is read.
theorem of_text {text : String} (h : Gives root (Decoding.text node) text) :
    ∃ plain tag, root.target? node = some (.scalar text plain tag) := by
  obtain ⟨target, hr, h⟩ := h.of_bind
  have ht := hr.of_resolve
  split at h
  case h_1 plain tag => exact ⟨plain, tag, h.of_pure ▸ ht⟩
  case h_2 => exact absurd h not_throw

-- No text is read where a scalar stands for no value.
theorem of_text? {text : Option String} (h : Gives root (Decoding.text? node) text) :
    ∃ target, root.target? node = some target ∧ (text = none ↔ target.isNull) := by
  obtain ⟨target, hr, h⟩ := h.of_bind
  refine ⟨target, hr.of_resolve, ?_⟩
  split at h
  case h_1 scalar plain tag =>
    obtain ⟨absent, ha, h⟩ := h.of_bind
    rw [Node.isNull, ha.of_liftM, ← h.of_pure]
    cases absent <;> simp
  case h_2 => exact absurd h not_throw

theorem of_entries {entries : List (Node × Node)} (h : Gives root (Decoding.entries node) entries) :
    root.target? node = some (.mapping entries) := by
  obtain ⟨target, hr, h⟩ := h.of_bind
  have ht := hr.of_resolve
  split at h
  case h_1 => exact h.of_pure ▸ ht
  case h_2 => exact absurd h not_throw

theorem of_value {depth : Nat} {v : Value} (h : Gives root (value depth node) v) :
    ∃ target, root.target? node = some target := by
  rw [value] at h
  obtain ⟨target, hr, -⟩ := h.of_bind
  exact ⟨target, hr.of_resolve⟩

end Gives

variable {depth : Nat} {v : Value}

-- That reading comes to `a`, whatever anchors there are, and follows no alias.
def Yields (x : Decoding α) (a : α) : Prop :=
  ∀ anchors n, (x.run anchors).run n = .ok (a, n)

namespace Yields

theorem pure (a : α) : Yields (Pure.pure a) a :=
  fun _ _ => rfl

theorem bind (h : Yields x a) (h' : Yields (f a) b) : Yields (x >>= f) b := by
  intro anchors n
  rw [ReaderT.run_bind, StateT.run_bind, h]
  exact h' anchors n

theorem mapM {as : List α} {bs : List β} (h : List.Forall₂ (fun a b => Yields (f a) b) as bs) :
    Yields (as.mapM f) bs := by
  induction h with
  | nil => exact .pure []
  | cons h _ hi =>
    rw [List.mapM_cons]
    exact h.bind (hi.bind (.pure _))

theorem scalar {text : String} {plain : Bool} (h : Decoding.scalar text plain none = .ok v) :
    Yields (value depth (.scalar text plain none)) v := by
  rw [value]
  refine bind (.pure _) ?_
  simp only [h]
  exact .pure v

theorem sequence {nodes : List Node} {items : List Value}
    (h : List.Forall₂ (fun node item => Yields (value depth node) item) nodes items) :
    Yields (value (depth + 1) (.sequence nodes)) (.sequence items) := by
  rw [value]
  exact bind (.pure _) (bind (.mapM h) (.pure _))

theorem mapping {nodes : List (Node × Node)} (entries : List (Value × Value))
    (h : List.Forall₂ (fun nodes entry => Yields (value depth nodes.1) entry.1 ∧
      Yields (value depth nodes.2) entry.2) nodes entries) :
    Yields (value (depth + 1) (.mapping nodes)) (.ofEntries entries) := by
  rw [value]
  exact bind (.pure _) (bind (.mapM (h.imp fun _ _ h => h.1.bind (h.2.bind (.pure _)))) (.pure _))

theorem decode {root : Node} {read : Node → Decoding α} (h : Yields (read root) a) :
    decode root read = .ok a := by
  rw [Decoding.decode, StateT.run'_eq, h]
  rfl

end Yields

end Decoding

end StaticSite.Yaml
