import StaticSite.Keyed
import StaticSite.Yaml.Value
/-!
Configuration values by key, in ascending order of the keys.

Main statements: values among which the same is found are equal (`ext_get?`); what is found after an
insertion (`get?_insert`), and where one configuration overrides another (`get?_override`).
-/
namespace StaticSite.Config

open Yaml (Value)

structure Values where
  entries : List (String × Value)
  sorted : Keyed.Sorted entries
  deriving Repr

namespace Values

variable {vs ws : Values} {j k : String} {v : Value}

def empty : Values :=
  ⟨[], .nil⟩

def get? (vs : Values) (k : String) : Option Value :=
  vs.entries.lookup k

def keys (vs : Values) : List String :=
  vs.entries.map Prod.fst

-- Sets the value of `k`.
def insert (vs : Values) (k : String) (v : Value) : Values :=
  ⟨Keyed.insert k v vs.entries, vs.sorted.insert⟩

-- The values of `vs`, replaced by those of `ws` where both have one.
def override (vs ws : Values) : Values :=
  ws.entries.foldl (fun vs e => vs.insert e.1 e.2) vs

-- Sets the value of `k` to a string, if there is one.
def insertText (vs : Values) (k : String) : Option String → Values
  | some text => vs.insert k (.string text)
  | none => vs

@[simp]
theorem get?_empty : empty.get? k = none :=
  rfl

@[ext]
theorem ext_get? (h : ∀ k, vs.get? k = ws.get? k) : vs = ws := by
  have := Keyed.eq_of_lookup vs.sorted ws.sorted h
  cases vs; cases ws; cases this; rfl

theorem mem_keys : k ∈ vs.keys ↔ (vs.get? k).isSome := by
  simp only [keys, List.mem_map, Prod.exists, exists_and_right, exists_eq_right,
    Option.isSome_iff_exists, get?, Keyed.lookup_eq_some_iff vs.sorted]

theorem get?_insert : (vs.insert j v).get? k = if k = j then some v else vs.get? k :=
  Keyed.lookup_insert

theorem get?_insertText {text : Option String} :
    (vs.insertText j text).get? k =
      if k = j then (text.map Value.string).or (vs.get? k) else vs.get? k := by
  cases text <;> simp [insertText, get?_insert]

theorem get?_override : (vs.override ws).get? k = (ws.get? k).or (vs.get? k) := by
  obtain ⟨es, h⟩ := ws
  simp only [override, get?]
  induction es generalizing vs
  case nil => simp
  case cons e es hi =>
    obtain ⟨j, w⟩ := e
    have hes := List.pairwise_cons.mp h
    rw [List.foldl_cons, hi hes.2, Keyed.lookup_cons]
    by_cases hk : k = j
    · have : es.lookup j = none := Option.eq_none_iff_forall_ne_some.mpr fun u hm =>
        Std.lt_irrefl (hes.1 (j, u) ((Keyed.lookup_eq_some_iff hes.2).mp hm))
      simp [hk, this, insert, Keyed.lookup_insert]
    · simp [hk, insert, Keyed.lookup_insert]

end Values

end StaticSite.Config
