import StaticSite.Proofs.Yaml.PrintedNodes
import StaticSite.Text.Blank
/-!
What printed collections begin and end with. Main statement: there are no blanks at the ends of a
collection's text unless its first key or its last scalar is a string that has them at its own end,
and that stands without quotes (`hasTightEnds_iff`).
-/
namespace StaticSite.Yaml.Printer

open Text (isBlank)

variable {v : Value} {level : Nat} {x : Char} {pick : List Char → Option Char}

mutual

-- What a value's text ends with: a scalar, or a collection without entries.
def last : Value → Value
  | .sequence items => lastItem (.sequence []) items
  | .mapping entries => lastValue (.mapping []) entries
  | .null => .null
  | .bool b => .bool b
  | .int n => .int n
  | .float x => .float x
  | .string s => .string s

def lastItem (d : Value) : List Value → Value
  | [] => d
  | item :: items => lastItem (last item) items

def lastValue (d : Value) : List (Value × Value) → Value
  | [] => d
  | (_, value) :: entries => lastValue (last value) entries

end

-- The key that a value's text begins with.
def firstKey? : Value → Option Value
  | .mapping ((key, _) :: _) => some key
  | _ => none

-- Whether no blank at the ends of a collection's text belongs to the collection, neither to the key
-- that it begins with nor to the scalar that it ends with. Those in quotes are not at the ends.
structure HasTightEnds (v : Value) : Prop where
  first : ∀ s, firstKey? v = some (.string s) → ¬needsQuotes s → ∀ x ∈ s.toList.head?, ¬isBlank x
  last : ∀ s, last v = .string s → ¬needsQuotes s → ∀ x ∈ s.toList.getLast?, ¬isBlank x

theorem not_isBlank_of_isNumeralChar (h : isNumeralChar x) : ¬isBlank x := by
  rw [isNumeralChar, Bool.or_eq_true] at h
  rcases h with h | h
  case inl =>
    have hd : 48 ≤ x.toNat ∧ x.toNat ≤ 57 := by
      simpa [Char.isDigit, UInt32.le_iff_toNat_le] using h
    simp only [isBlank, Bool.or_eq_true, Bool.and_eq_true, decide_eq_true_eq, beq_iff_eq]
    omega
  case inr =>
    have hno : ∀ x ∈ ['.', 'e', '-'], ¬isBlank x := forall_mem_of_all (by decide)
    exact hno x (by simpa using h)

-- Only strings have blanks in their texts.
theorem not_isBlank_of_mem_text (h : ¬isCollection v) (hs : ∀ s, v ≠ .string s) :
    ∀ x ∈ (text level v).toList, ¬isBlank x := by
  have hnumeral {cs : List Char} (h : IsNumeral cs ∨ ∃ ds, IsNumeral ds ∧ cs = '-' :: ds) :
      ∀ x ∈ cs, ¬isBlank x := by
    rcases h with h | ⟨ds, h, rfl⟩
    · exact fun x hx => not_isBlank_of_isNumeralChar (h.mem x hx)
    · exact List.forall_mem_cons.mpr
        ⟨by decide, fun x hx => not_isBlank_of_isNumeralChar (h.mem x hx)⟩
  cases v with
  | null => exact forall_mem_of_all (by decide : "~".toList.all (¬isBlank ·))
  | bool b =>
    cases b
    · exact forall_mem_of_all (by decide : "false".toList.all (¬isBlank ·))
    · exact forall_mem_of_all (by decide : "true".toList.all (¬isBlank ·))
  | int n => exact hnumeral (isNumeral_int n)
  | float d =>
    change ∀ x ∈ d.mixedText.toList, ¬isBlank x
    rcases isNumeral_float d with he | he | he | hn
    case inr.inr.inr => exact hnumeral hn
    all_goals
      rw [he]
      exact forall_mem_of_all (by decide)
  | string s => exact absurd rfl (hs s)
  | sequence | mapping => exact absurd rfl h

-- Where a character is picked out of a scalar's text, it is no blank, unless it is one of a string
-- without quotes. What is picked out of quotes has to be a quotation mark.
theorem pick_text (hm : ∀ cs, ∀ x ∈ pick cs, x ∈ cs)
    (hq : ∀ cs, pick ('"' :: (cs ++ ['"'])) = some '"') (h : ¬isCollection v) :
    (∀ x ∈ pick (text level v).toList, ¬isBlank x) ↔
      ∀ s, v = .string s → ¬needsQuotes s → ∀ x ∈ pick s.toList, ¬isBlank x := by
  by_cases hs : ∃ s, v = .string s
  case neg =>
    have hs : ∀ s, v ≠ .string s := fun s he => hs ⟨s, he⟩
    exact iff_of_true (fun x hx => not_isBlank_of_mem_text h hs x (hm _ x hx))
      fun s he => absurd he (hs s)
  case pos =>
    obtain ⟨s, rfl⟩ := hs
    have ht : text level (.string s) = if needsQuotes s then quote s else s := rfl
    rw [ht]
    split
    case isTrue hn =>
      rw [quote, String.toList_ofList, hq]
      refine iff_of_true ?_ ?_
      · rintro x ⟨⟩
        decide
      · rintro s ⟨⟩ hn'
        exact absurd hn hn'
    case isFalse hn => simp [hn]

theorem text_ne_nil (v : Value) (level : Nat) : (text level v).toList ≠ [] := by
  obtain ⟨x, cs, hx, -⟩ := exists_toList_text v level
  simp [hx]

theorem getLast?_append_text (before : String) (v : Value) (level : Nat) :
    (before ++ text level v).toList.getLast? = (text level v).toList.getLast? := by
  rw [String.toList_append, List.getLast?_append_of_ne_nil _ (text_ne_nil v level)]

theorem exists_entry_eq (level : Nat) (key value : Value) (keyText valueText : String) :
    ∃ before, entry level key value keyText valueText = before ++ valueText := by
  unfold entry
  split <;> exact ⟨_, rfl⟩

-- Texts on lines of their own end like the last of them.
theorem getLast?_intercalate_cons (level : Nat) (first : String) {texts : List String}
    (hn : texts ≠ []) (hx : ((newLine level).intercalate texts).toList ≠ []) :
    ((newLine level).intercalate (first :: texts)).toList.getLast? =
      ((newLine level).intercalate texts).toList.getLast? := by
  rw [toList_intercalate_cons, moreLines.eq_2 _ _ hn, ← List.cons_append, ← List.append_assoc,
    List.getLast?_append_of_ne_nil _ hx]

theorem getLast?_items {items : List Value} {level : Nat} (hn : items ≠ [])
    (h : ∀ item ∈ items, ∀ level,
      (text level item).toList.getLast? = (text 0 (last item)).toList.getLast?) (d : Value) :
    ((newLine level).intercalate (itemTexts level items)).toList.getLast? =
      (text 0 (lastItem d items)).toList.getLast? := by
  induction items generalizing d with
  | nil => exact absurd rfl hn
  | cons item items hi =>
    rw [List.forall_mem_cons] at h
    cases items with
    | nil =>
      rw [lastItem, lastItem, ← h.1 (level + 1), ← getLast?_append_text "- "]
      rfl
    | cons item' items =>
      obtain ⟨x, cs, hx, -⟩ := exists_toList_items level (List.cons_ne_nil item' items)
      rw [lastItem, ← hi (List.cons_ne_nil _ _) h.2, itemTexts, getLast?_intercalate_cons]
      · simp [itemTexts]
      · simp [hx]

theorem getLast?_entries {entries : List (Value × Value)} {level : Nat} (hn : entries ≠ [])
    (h : ∀ e ∈ entries, ∀ level,
      (text level e.2).toList.getLast? = (text 0 (last e.2)).toList.getLast?) (d : Value) :
    ((newLine level).intercalate (entryTexts level entries)).toList.getLast? =
      (text 0 (lastValue d entries)).toList.getLast? := by
  induction entries generalizing d with
  | nil => exact absurd rfl hn
  | cons e entries hi =>
    obtain ⟨key, value⟩ := e
    rw [List.forall_mem_cons] at h
    cases entries with
    | nil =>
      obtain ⟨before, he⟩ := exists_entry_eq level key value (text (level + 1) key)
        (text (level + 1) value)
      rw [lastValue, lastValue, ← h.1 (level + 1), ← getLast?_append_text before, ← he]
      rfl
    | cons e' entries =>
      obtain ⟨x, cs, hx, -⟩ := exists_toList_entries level (List.cons_ne_nil e' entries)
      rw [lastValue, ← hi (List.cons_ne_nil _ _) h.2, entryTexts, getLast?_intercalate_cons]
      · simp [entryTexts]
      · simp [hx]

theorem getLast?_text (v : Value) (level : Nat) :
    (text level v).toList.getLast? = (text 0 (last v)).toList.getLast? := by
  induction v using induction generalizing level with
  | scalar v h =>
    rw [text_scalar h]
    cases v <;> first | rfl | exact absurd rfl h
  | sequence items hi =>
    cases items with
    | nil => simp [last, lastItem, text]
    | cons item items =>
      rw [text, if_neg (by simp), last]
      exact getLast?_items (List.cons_ne_nil _ _) hi _
  | mapping entries hi =>
    cases entries with
    | nil => simp [last, lastValue, text]
    | cons e entries =>
      rw [text, if_neg (by simp), last]
      exact getLast?_entries (List.cons_ne_nil _ _) (fun e hm => (hi e hm).2) _

theorem isEmpty_last (v : Value) : isEmpty (last v) := by
  induction v using induction with
  | scalar v h => cases v <;> first | rfl | exact absurd rfl h
  | sequence items hi =>
    have hitem (d : Value) (hd : isEmpty d) : isEmpty (lastItem d items) := by
      induction items generalizing d with
      | nil => exact hd
      | cons item items ih =>
        rw [List.forall_mem_cons] at hi
        exact ih hi.2 _ hi.1
    rw [last]
    exact hitem _ rfl
  | mapping entries hi =>
    have hvalue (d : Value) (hd : isEmpty d) : isEmpty (lastValue d entries) := by
      induction entries generalizing d with
      | nil => exact hd
      | cons e entries ih =>
        rw [List.forall_mem_cons] at hi
        exact ih hi.2 _ hi.1.2
    rw [last]
    exact hvalue _ rfl

theorem getLast?_text_of_isEmpty (level : Nat) (hc : isCollection v) (he : isEmpty v) :
    ∃ x, (text level v).toList.getLast? = some x ∧ ¬isBlank x := by
  cases v with
  | sequence items =>
    rw [text, if_pos (show items.isEmpty from he)]
    exact ⟨']', rfl, by decide⟩
  | mapping entries =>
    rw [text, if_pos (show entries.isEmpty from he)]
    exact ⟨'\x7d', rfl, by decide⟩
  | null | bool | int | float | string => exact absurd hc Bool.false_ne_true

theorem not_blankEnd_iff (v : Value) : (∀ x ∈ (text 0 v).toList.getLast?, ¬isBlank x) ↔
    ∀ s, last v = .string s → ¬needsQuotes s → ∀ x ∈ s.toList.getLast?, ¬isBlank x := by
  rw [getLast?_text]
  by_cases hc : isCollection (last v)
  case neg =>
    refine pick_text (fun _ _ => List.mem_of_mem_getLast?) (fun cs => ?_) hc
    rw [← List.cons_append, List.getLast?_concat]
  case pos =>
    obtain ⟨x, hx, hb⟩ := getLast?_text_of_isEmpty 0 hc (isEmpty_last v)
    refine iff_of_true (by simpa [hx] using hb) fun s hs => ?_
    simp [hs, isCollection] at hc

-- A collection without such a key, or with one that has a mark, begins with a mark or a bracket.
theorem head?_text (hc : isCollection v) (hk : ∀ key ∈ firstKey? v, isCollection key) :
    ∃ x, (text 0 v).toList.head? = some x ∧ ¬isBlank x := by
  cases v with
  | sequence items =>
    rw [text]
    split
    case isTrue => exact ⟨'[', rfl, by decide⟩
    case isFalse hn =>
      obtain ⟨item, items, rfl⟩ := List.exists_cons_of_ne_nil (by simpa using hn)
      exact ⟨'-', by rw [toList_item]; rfl, by decide⟩
  | mapping entries =>
    rw [text]
    split
    case isTrue => exact ⟨'\x7b', rfl, by decide⟩
    case isFalse hn =>
      obtain ⟨⟨key, value⟩, entries, rfl⟩ := List.exists_cons_of_ne_nil (by simpa using hn)
      exact ⟨'?', by rw [toList_entry_collection (hk key rfl)]; rfl, by decide⟩
  | null | bool | int | float | string => exact absurd hc Bool.false_ne_true

theorem head?_text_of_firstKey? {key : Value} (hk : firstKey? v = some key)
    (h : ¬isCollection key) : (text 0 v).toList.head? = (text 0 key).toList.head? := by
  obtain ⟨value, entries, rfl⟩ : ∃ value entries, v = .mapping ((key, value) :: entries) := by
    unfold firstKey? at hk
    split at hk
    · exact ⟨_, _, by rw [Option.some.inj hk]⟩
    · exact absurd hk nofun
  rw [text, if_neg (by simp), toList_entry_scalar h,
    List.head?_append_of_ne_nil _ (text_ne_nil _ 0)]

theorem not_blankStart_iff (hc : isCollection v) : (∀ x ∈ (text 0 v).toList.head?, ¬isBlank x) ↔
    ∀ s, firstKey? v = some (.string s) → ¬needsQuotes s → ∀ x ∈ s.toList.head?, ¬isBlank x := by
  by_cases hk : ∀ key ∈ firstKey? v, isCollection key
  case pos =>
    obtain ⟨x, hx, hb⟩ := head?_text hc hk
    exact iff_of_true (by simpa [hx] using hb) fun s hs => absurd (hk _ hs) Bool.false_ne_true
  case neg =>
    obtain ⟨key, hkey, h⟩ : ∃ key, firstKey? v = some key ∧ ¬isCollection key := by simpa using hk
    rw [head?_text_of_firstKey? hkey h,
      pick_text (fun _ _ => List.mem_of_mem_head?) (fun _ => rfl) h, hkey]
    simp

-- The text of a collection has blanks at its ends just where the value has.
theorem hasTightEnds_iff (hc : isCollection v) :
    HasTightEnds v ↔ Text.trim (text 0 v).toList = (text 0 v).toList := by
  rw [Text.trim_eq_self_iff, not_blankStart_iff hc, not_blankEnd_iff]
  exact ⟨fun h => ⟨h.first, h.last⟩, fun h => ⟨h.1, h.2⟩⟩

end StaticSite.Yaml.Printer
