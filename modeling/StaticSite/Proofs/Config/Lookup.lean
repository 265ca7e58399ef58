import StaticSite.Config.Effective
import StaticSite.Proofs.Yaml.PrintedEnds
/-!
Collections as they stand in a layout: written as YAML, without the mark of a document and without
the blanks at the ends. Main statement: a collection that can be read from its document can be read
from this text as well, unless one of the blanks belongs to its first key or to its last scalar
(`lookup_collection`). Blanks do where they need no quotes, as all those beyond ASCII.
-/
namespace StaticSite

open Yaml Printer

namespace Yaml.Value

variable {v : Value}

theorem display_eq (hc : isCollection v) : v.display = .ofList (Text.trim (text 0 v).toList) := by
  have ht : v.toText.toList = '-' :: '-' :: '-' :: '\n' :: ((text 0 v).toList ++ ['\n']) := by
    simp [toText]
  have hd : v.display = .ofList (Text.trim (display.dropMarks v.toText.toList)) := by
    cases v with
    | sequence | mapping => rfl
    | null | bool | int | float | string => exact absurd hc Bool.false_ne_true
  rw [hd, ht]
  show String.ofList (Text.trim ('\n' :: _)) = _
  rw [Text.trim_cons_of_isBlank (by decide), Text.trim_append_of_isBlank (by decide)]

-- Nothing of the text is lost just where no blank at its ends belongs to the collection.
theorem display_eq_text_iff (hc : isCollection v) : v.display = text 0 v ↔ HasTightEnds v := by
  rw [hasTightEnds_iff hc, display_eq hc, ← String.toList_inj, String.toList_ofList]

theorem toText_eq_iff (hc : isCollection v) :
    v.toText = "---\n" ++ v.display ++ "\n" ↔ HasTightEnds v := by
  rw [← display_eq_text_iff hc, toText, String.append_left_inj, String.append_right_inj, eq_comm]

end Yaml.Value

namespace EffectiveConfig

variable {c : EffectiveConfig} {key : String} {v : Value}

-- What is found of a collection that can be read from its document. The mark and two line breaks
-- are all that is left out if and only if the ends of the collection are tight, and then it can be
-- read from the rest.
theorem lookup_collection (hv : c.get? key = some v) (hc : isCollection v)
    (hr : Value.ofText v.toText = .ok v) :
    ∃ text, c.lookup key = some text ∧ (v.toText = "---\n" ++ text ++ "\n" ↔ HasTightEnds v) ∧
      (HasTightEnds v → Value.ofText text = .ok v) := by
  refine ⟨v.display, by rw [lookup, hv]; rfl, Value.toText_eq_iff hc, fun he => ?_⟩
  rw [(Value.display_eq_text_iff hc).mpr he, ← hr, Value.ofText, Value.ofText, ofText_text hc]

-- A sequence in a mapping, with a string in quotes at the end.
def nested : Value :=
  .mapping [(.string "a b", .sequence [.bool true, .string "c: "])]

theorem nested_lookup :
    ∃ text, lookup ⟨.insert .empty "k" nested⟩ "k" = some text ∧
      nested.toText = "---\n" ++ text ++ "\n" ∧ Value.ofText text = .ok nested := by
  have hk : KeysFit nested := by
    simp only [nested, KeysFit, EntriesFit, ItemsFit, and_true]
    decide +kernel
  have hq : needsQuotes "a b" = false ∧ needsQuotes "c: " := by decide +kernel
  have hn : node nested = .mapping [(.scalar "a b" true none,
      .sequence [.scalar "true" true none, .scalar "c: " false none])] := by
    simp [nested, node, entryNodes, itemNodes, isPlain, hq, content, text]
  have hy : Decoding.Yields (Decoding.value Decoding.maxDepth (node nested)) nested := by
    rw [hn]
    exact .mapping [(.string "a b", .sequence [.bool true, .string "c: "])]
      (.cons ⟨.scalar rfl, .sequence (.cons (.scalar rfl) (.cons (.scalar rfl) .nil))⟩ .nil)
  have hv : get? ⟨.insert .empty "k" nested⟩ "k" = some nested := rfl
  have he : HasTightEnds nested := (hasTightEnds_iff rfl).mpr (by decide +kernel)
  obtain ⟨text, hl, ht, hd⟩ := lookup_collection hv rfl (ofText_toText rfl hk hy)
  exact ⟨text, hl, ht.mpr he, hd he⟩

-- A string that ends with a no-break space, which needs no quotes.
def blankEnd : Value :=
  .sequence [.string "a\u00a0"]

theorem blankEnd_loses_blank :
    Value.ofText blankEnd.toText = .ok blankEnd ∧
      lookup ⟨.insert .empty "k" blankEnd⟩ "k" = some "- a" ∧
      Value.ofText "- a" = .ok (.sequence [.string "a"]) ∧ Value.ofText "- a" ≠ .ok blankEnd := by
  have hread {s : String} (hq : needsQuotes s = false) (hs : Yaml.Plain.value s = .ok (.string s)) :
      Value.ofText (Value.sequence [.string s]).toText = .ok (.sequence [.string s]) := by
    refine ofText_toText rfl (by simp [KeysFit, ItemsFit]) ?_
    simp only [node, itemNodes, isPlain, hq]
    exact .sequence (.cons (.scalar hs) .nil)
  have hd : Value.ofText "- a" = .ok (.sequence [.string "a"]) := by
    rw [← hread (by decide +kernel) rfl, Value.ofText, Value.ofText, ← ofText_text rfl]
    rfl
  refine ⟨hread (by decide +kernel) rfl, by decide +kernel, hd, ?_⟩
  rw [hd, blankEnd]
  simp

end EffectiveConfig

end StaticSite
