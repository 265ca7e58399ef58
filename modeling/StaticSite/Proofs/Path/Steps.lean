import StaticSite.FileSystem
/-!
The steps of a path are its pieces that lead somewhere. Main statements: joining paths appends
their steps (`steps_join`), and absolute paths are the same if their steps are
(`same_iff_of_isAbsolute`).
-/
namespace StaticSite.Path

-- A name that is one piece of every path it stands in, and no idle one.
def IsStep (name : String) : Prop :=
  isIdle name = false ∧ '/' ∉ name.toList

instance (name : String) : Decidable (IsStep name) := by
  unfold IsStep; infer_instance

def steps (p : Path) : List String :=
  p.pieces.filter (! isIdle ·)

def Component.ofStep (step : String) : Component :=
  if step = ".." then .parent else .normal step

variable {p q : Path} {name : String} {ps : List String} {cs : List Char}

theorem text_inj : p.text = q.text ↔ p = q := by
  cases p; cases q; simp

@[simp]
theorem isIdle_empty : isIdle "" = true :=
  rfl

theorem isIdle_of_one_lt_length (h : 1 < name.toList.length) : isIdle name = false := by
  rw [isIdle, Bool.or_eq_false_iff, beq_eq_false_iff_ne, beq_eq_false_iff_ne]
  constructor <;> rintro rfl <;> exact absurd h (by decide)

theorem Component.ofStep_injective : Function.Injective Component.ofStep := by
  intro a b h
  unfold Component.ofStep at h
  split at h <;> split at h <;> simp_all

theorem componentOf?_of_not_isIdle (h : isIdle name = false) :
    componentOf? name = some (Component.ofStep name) := by
  simp only [componentOf?, h, Component.ofStep, Bool.false_eq_true, if_false]
  split <;> rfl

theorem filterMap_componentOf? :
    ps.filterMap componentOf? = (ps.filter (! isIdle ·)).map Component.ofStep := by
  induction ps
  case nil => rfl
  case cons step ps hi =>
    cases h : isIdle step
    case true => simp [componentOf?, h, hi]
    case false => simp [componentOf?_of_not_isIdle h, h, hi]

theorem filterMap_componentOf?_of_isIdle (h : ∀ n ∈ ps, isIdle n) :
    ps.filterMap componentOf? = [] := by
  rw [filterMap_componentOf?, List.filter_eq_nil_iff.mpr (by simpa using h), List.map_nil]

theorem components_of_isAbsolute (h : p.isAbsolute) :
    p.components = .root :: p.steps.map Component.ofStep := by
  simp [components, h, filterMap_componentOf?, steps]

theorem same_iff_of_isAbsolute (hp : p.isAbsolute) (hq : q.isAbsolute) :
    p.same q ↔ p.steps = q.steps := by
  rw [same_iff, components_of_isAbsolute hp, components_of_isAbsolute hq, List.cons_inj_right,
    List.map_inj_right (fun _ _ h => Component.ofStep_injective h)]

theorem map_ofStep_eq {names : List String} (h : ps.map Component.ofStep = names.map .normal) :
    ps = names ∧ ".." ∉ names := by
  induction ps generalizing names
  case nil => simp_all
  case cons step ps hi =>
    obtain ⟨name, names, rfl⟩ := List.exists_cons_of_ne_nil (l := names) (by rintro rfl; simp at h)
    simp only [List.map_cons, List.cons.injEq, Component.ofStep] at h
    obtain ⟨rfl, hn⟩ := hi h.2
    split at h <;> simp_all [eq_comm]

-- A relative path without dots has the steps that its components name.
theorem steps_of_components {names : List String} (h : p.components = names.map .normal) :
    p.isAbsolute = false ∧ p.steps = names ∧ ".." ∉ names := by
  unfold components at h
  rw [filterMap_componentOf?] at h
  cases hp : p.isAbsolute
  case true => cases names <;> simp [hp] at h
  case false =>
    by_cases hc : p.pieces.head? = some "."
    case pos => cases names <;> simp [hp, hc] at h
    case neg => exact ⟨rfl, map_ofStep_eq (by simpa [hp, hc, steps] using h)⟩

theorem pieces_of_isAbsolute (h : p.text.toList = '/' :: cs) :
    p.pieces = (cs.splitOn '/').map .ofList := by
  simp [pieces, isAbsolute, h]

theorem pieces_of_not_isAbsolute (h : p.isAbsolute = false) :
    p.pieces = (p.text.toList.splitOn '/').map .ofList := by
  simp [pieces, h]

theorem pieces_ne_nil : p.pieces ≠ [] := by
  simp [pieces, List.splitOn_ne_nil]

theorem isAbsolute_iff : p.isAbsolute ↔ ∃ cs, p.text.toList = '/' :: cs := by
  cases h : p.text.toList <;> simp [isAbsolute, h]

section

variable (hp : p.isAbsolute) (hq : q.isAbsolute = false)

include hp hq

theorem toList_join : (p / q).text.toList =
    if p.text.toList.getLast? = some '/' then p.text.toList ++ q.text.toList
    else p.text.toList ++ '/' :: q.text.toList := by
  obtain ⟨cs, h⟩ := isAbsolute_iff.mp hp
  have : p.text.isEmpty = false := by
    rw [← Bool.not_eq_true, String.isEmpty_iff]
    rintro h'
    simp [h'] at h
  show (p.join q).text.toList = _
  simp only [join, hq, this, Bool.false_or, beq_iff_eq, Bool.false_eq_true, if_false]
  split <;> simp

theorem isAbsolute_join : (p / q).isAbsolute := by
  obtain ⟨cs, h⟩ := isAbsolute_iff.mp hp
  rw [isAbsolute_iff, toList_join hp hq]
  split <;> simp [h]

theorem steps_join : (p / q).steps = p.steps ++ q.steps := by
  obtain ⟨cs, h⟩ := isAbsolute_iff.mp hp
  have hj := toList_join hp hq
  rw [steps, steps, steps, pieces_of_isAbsolute h, pieces_of_not_isAbsolute hq]
  split at hj
  case isFalse =>
    rw [h, List.cons_append] at hj
    rw [pieces_of_isAbsolute hj, List.splitOn_append_cons_self, List.map_append, List.filter_append]
  case isTrue hl =>
    rw [h, List.cons_append] at hj
    rw [pieces_of_isAbsolute hj]
    -- the path ends with a slash: with that of the root, or with one that an idle piece follows
    rcases List.eq_nil_or_concat cs with rfl | ⟨cs, c, rfl⟩
    · simp
    · obtain rfl : c = '/' := by
        rw [h, List.concat_eq_append, ← List.cons_append, List.getLast?_concat] at hl
        exact Option.some.inj hl
      rw [List.concat_eq_append, List.append_assoc, List.singleton_append,
        List.splitOn_append_cons_self, List.splitOn_append_cons_self]
      simp

end

end StaticSite.Path

namespace StaticSite.FileSystem.IsName

variable {name : String}

theorem isStep (h : IsName name) : Path.IsStep name := by
  obtain ⟨h₁, h₂, -, -, h₃, -⟩ := h
  simp [Path.IsStep, Path.isIdle, h₁, h₂, h₃]

theorem ne_parent (h : IsName name) : name ≠ ".." :=
  h.2.2.1

theorem size_le (h : IsName name) : name.utf8ByteSize ≤ nameLimit :=
  h.2.2.2.1

end StaticSite.FileSystem.IsName
