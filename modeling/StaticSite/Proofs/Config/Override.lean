import StaticSite.Config.Effective
import StaticSite.Proofs.Yaml.Decoding
/-!
What a page says about itself, whatever the site says. Main statements: front matter that can be
read is a mapping with a key and a value in each entry (`exists_mem_topLevel`), each key that a page
gives gets a value of the page unless it is a field with no value (`isSome_get?_values_iff`), and
these are the keys whose values do not depend on the site (`own_keys_iff`).
-/
namespace StaticSite

open Config Yaml Decoding

namespace Config

-- The entries at the top level of a configuration text, aliases replaced.
def topLevel (text : String) : List (String × Node) :=
  if isBlank text then [] else match Node.ofText text with
    | .error _ => []
    | .ok root => match root.target? root with
      | some (.mapping entries) => entries.filterMap fun e =>
        match root.target? e.1, root.target? e.2 with
        | some (.scalar key ..), some value => some (key, value)
        | _, _ => none
      | _ => []

variable {text key : String} {names : List String} {root keyNode node value : Node}
  {s s' : Fields} {entries : List (Node × Node)} {page : PageConfig}

theorem exists_of_mem_topLevel (h : (key, value) ∈ topLevel text) :
    ¬isBlank text ∧ ∃ root, Node.ofText text = .ok root ∧
      ∃ entries, root.target? root = some (.mapping entries) ∧ ∃ e ∈ entries,
        (∃ plain tag, root.target? e.1 = some (.scalar key plain tag)) ∧
        root.target? e.2 = some value := by
  unfold topLevel at h
  split at h
  case isTrue => simp at h
  case isFalse hb =>
    refine ⟨hb, ?_⟩
    split at h
    case h_1 => simp at h
    case h_2 root hr =>
      split at h
      case h_2 => simp at h
      case h_1 entries he =>
        obtain ⟨e, hm, h⟩ := List.mem_filterMap.mp h
        refine ⟨root, hr, entries, he, e, hm, ?_⟩
        split at h
        case h_2 => simp at h
        case h_1 plain tag value' hk hv =>
          obtain ⟨rfl, rfl⟩ : _ = key ∧ value' = value := by simpa using h
          exact ⟨⟨plain, tag, hk⟩, hv⟩

theorem gives_of_decode {α : Type} {default a : α} {read : Node → Decoding α}
    (h : decode text default read = .ok a) (hb : ¬isBlank text) (hr : Node.ofText text = .ok root) :
    Gives root (read root) a := by
  rw [decode, if_neg hb, hr] at h
  exact Gives.of_decode (show Decoding.decode root read = .ok a from h)

namespace Fields

-- The fields hold an entry with this key.
def Holds (names : List String) (s : Fields) (key : String) (node : Node) : Prop :=
  if key ∈ names then s.known.lookup key = some node else (s.metadata.get? key).isSome

theorem add_cases (h : Gives root (add names s keyNode node) s') :
    ∃ key plain tag, root.target? keyNode = some (.scalar key plain tag) ∧
      ((key ∉ names ∧ (∃ value, root.target? node = some value) ∧
          ∃ v, s' = { s with metadata := s.metadata.insert key v }) ∨
        (key ∈ names ∧ s.known.lookup key = none ∧
          s' = { s with known := (key, node) :: s.known })) := by
  obtain ⟨key, hk, h⟩ := h.of_bind
  obtain ⟨plain, tag, hk⟩ := hk.of_text
  refine ⟨key, plain, tag, hk, ?_⟩
  split at h
  case isTrue hn =>
    obtain ⟨v, hv, h⟩ := h.of_bind
    exact .inl ⟨by simpa using hn, hv.of_value, v, h.of_pure.symm⟩
  case isFalse hn =>
    split at h
    case isTrue => exact absurd h Gives.not_throw
    case isFalse hl =>
      exact .inr ⟨by simpa using hn, Option.not_isSome_iff_eq_none.mp hl, h.of_pure.symm⟩

-- The fields hold an entry, which has a text for a key, and a value.
def HoldsEntry (names : List String) (root : Node) (s : Fields) (e : Node × Node) : Prop :=
  ∃ key plain tag, root.target? e.1 = some (.scalar key plain tag) ∧ s.Holds names key e.2 ∧
    (key ∉ names → ∃ value, root.target? e.2 = some value)

-- An entry that has been added is there.
theorem holdsEntry_of_add (h : Gives root (add names s keyNode node) s') :
    s'.HoldsEntry names root (keyNode, node) := by
  obtain ⟨key, plain, tag, hk, hc⟩ := add_cases h
  refine ⟨key, plain, tag, hk, ?_, fun hn => ?_⟩
  · rcases hc with ⟨hn, -, v, rfl⟩ | ⟨hn, -, rfl⟩ <;> simp [Holds, hn, Values.get?_insert]
  · rcases hc with ⟨-, hv, -⟩ | ⟨hn', -, -⟩
    · exact hv
    · exact absurd hn' hn

-- What is there stays: a field is given once only.
theorem Holds.add (hs : s.Holds names key value)
    (h : Gives root (Fields.add names s keyNode node) s') : s'.Holds names key value := by
  obtain ⟨key', plain', tag', -, hc⟩ := add_cases h
  unfold Holds at hs ⊢
  split at hs
  case isTrue hk =>
    rw [if_pos hk]
    rcases hc with ⟨-, -, v, rfl⟩ | ⟨-, hl, rfl⟩
    case inl => exact hs
    case inr =>
      have hne : key ≠ key' := by
        rintro rfl
        simp [hl] at hs
      rw [Keyed.lookup_cons, if_neg hne, hs]
  case isFalse hk =>
    rw [if_neg hk]
    rcases hc with ⟨-, -, v, rfl⟩ | ⟨-, -, rfl⟩
    case inl =>
      rw [Values.get?_insert]
      split <;> simp [hs]
    case inr => exact hs

-- Metadata is no field.
def IsApart (names : List String) (s : Fields) : Prop :=
  ∀ name ∈ names, s.metadata.get? name = none

theorem IsApart.add (hs : s.IsApart names)
    (h : Gives root (Fields.add names s keyNode node) s') : s'.IsApart names := by
  obtain ⟨key', plain', tag', -, hc⟩ := add_cases h
  intro name hn
  rcases hc with ⟨hk, -, v, rfl⟩ | ⟨-, -, rfl⟩
  case inl =>
    have hne : name ≠ key' := ne_of_mem_of_not_mem hn hk
    rw [Values.get?_insert, if_neg hne, hs name hn]
  case inr => exact hs name hn

-- Once all entries have been added, the fields hold each of them.
theorem holdsEntry_of_foldlM (h : Gives root (entries.foldlM (fun s e => add names s e.1 e.2) s) s')
    (hs : s.IsApart names) : s'.IsApart names ∧
      (∀ key node, s.Holds names key node → s'.Holds names key node) ∧
      ∀ e ∈ entries, s'.HoldsEntry names root e := by
  induction entries generalizing s
  case nil =>
    obtain rfl : s = s' := h.of_pure
    exact ⟨hs, fun _ _ => id, by simp⟩
  case cons e entries hi =>
    rw [List.foldlM_cons] at h
    obtain ⟨s₁, ha, h⟩ := h.of_bind
    obtain ⟨hapart, hkept, hall⟩ := hi h (hs.add ha)
    refine ⟨hapart, fun key node hk => hkept key node (hk.add ha), List.forall_mem_cons.mpr ?_⟩
    obtain ⟨key, plain, tag, hk, hheld, hv⟩ := holdsEntry_of_add ha
    exact ⟨⟨key, plain, tag, hk, hkept key _ hheld, hv⟩, hall⟩

theorem holdsEntry_of_ofNode (h : Gives root (ofNode names root) s) : s.IsApart names ∧
    ∃ entries, root.target? root = some (.mapping entries) ∧
      ∀ e ∈ entries, s.HoldsEntry names root e := by
  obtain ⟨entries, he, h⟩ := h.of_bind
  have hempty : IsApart names {} := fun _ _ => rfl
  obtain ⟨hapart, -, hall⟩ := holdsEntry_of_foldlM h hempty
  exact ⟨hapart, entries, he.of_entries, hall⟩

-- A field that is given has a text, unless it has no value.
theorem of_text? {name : String} {text : Option String} (h : Gives root (s.text? name) text)
    (hl : s.known.lookup name = some node) :
    ∃ value, root.target? node = some value ∧ (text.isSome ↔ ¬value.isNull) := by
  rw [text?, hl] at h
  obtain ⟨value, hv, hn⟩ := h.of_text?
  exact ⟨value, hv, by rw [← hn, Option.isSome_iff_ne_none]⟩

end Fields

end Config

namespace PageConfig

variable {text key : String} {page : PageConfig} {value : Node}

theorem exists_fields (h : ofText text = .ok page) (hb : ¬isBlank text) {root : Node}
    (hr : Node.ofText text = .ok root) : ∃ fields,
      Gives root (Fields.ofNode fieldNames root) fields ∧
      Gives root (fields.text? "title") page.title ∧
      Gives root (fields.text? "layout") page.layout ∧ page.metadata = fields.metadata := by
  obtain ⟨fields, hf, h⟩ := (gives_of_decode h hb hr).of_bind
  obtain ⟨title, ht, h⟩ := h.of_bind
  obtain ⟨layout, hl, h⟩ := h.of_bind
  obtain rfl := h.of_pure
  exact ⟨fields, hf, ht, hl, rfl⟩

-- In front matter that can be read, every entry has a key and a value.
theorem exists_mem_topLevel (h : ofText text = .ok page) (hb : ¬isBlank text) {root : Node}
    (hr : Node.ofText text = .ok root) : ∃ entries, root.target? root = some (.mapping entries) ∧
      ∀ e ∈ entries, ∃ key plain tag value, root.target? e.1 = some (.scalar key plain tag) ∧
        root.target? e.2 = some value ∧ (key, value) ∈ topLevel text := by
  obtain ⟨fields, hf, htitle, hlayout, -⟩ := exists_fields h hb hr
  obtain ⟨-, entries, he, hall⟩ := Fields.holdsEntry_of_ofNode hf
  refine ⟨entries, he, fun e hm => ?_⟩
  obtain ⟨key, plain, tag, hk, hheld, hv⟩ := hall e hm
  obtain ⟨value, hv⟩ : ∃ value, root.target? e.2 = some value := by
    by_cases hn : key ∈ fieldNames
    case neg => exact hv hn
    case pos =>
      rw [Fields.Holds, if_pos hn] at hheld
      simp only [fieldNames, List.mem_cons, List.not_mem_nil, or_false] at hn
      rcases hn with rfl | rfl
      case inl => exact (Fields.of_text? htitle hheld).imp fun _ => And.left
      case inr => exact (Fields.of_text? hlayout hheld).imp fun _ => And.left
  refine ⟨key, plain, tag, value, hk, hv, ?_⟩
  rw [topLevel, if_neg hb, hr]
  simp only [he]
  exact List.mem_filterMap.mpr ⟨e, hm, by simp only [hk, hv]⟩

-- A key that is given gets a value, unless it is a field with no value.
theorem isSome_get?_values_iff (h : ofText text = .ok page) (hk : (key, value) ∈ topLevel text) :
    (page.values.get? key).isSome ↔ ¬(key ∈ fieldNames ∧ value.isNull) := by
  obtain ⟨hb, root, hr, entries, he, e, hm, ⟨plain, tag, hkey⟩, hv⟩ := exists_of_mem_topLevel hk
  obtain ⟨fields, hf, htitle, hlayout, hmeta⟩ := exists_fields h hb hr
  obtain ⟨hapart, entries', he', hall⟩ := Fields.holdsEntry_of_ofNode hf
  obtain rfl : entries' = entries := by simpa [he] using he'.symm
  obtain ⟨key', plain', tag', hkey', hheld, -⟩ := hall e hm
  obtain ⟨rfl, -, -⟩ : key' = key ∧ plain' = plain ∧ tag' = tag := by
    simpa [hkey] using hkey'.symm
  rw [values, Values.get?_insertText, Values.get?_insertText, hmeta]
  unfold Fields.Holds at hheld
  by_cases hn : key' ∈ fieldNames
  case neg =>
    rw [if_neg hn] at hheld
    obtain ⟨ht, hl⟩ : key' ≠ "title" ∧ key' ≠ "layout" := by simpa [fieldNames] using hn
    simpa [ht, hl, hn] using hheld
  case pos =>
    rw [if_pos hn] at hheld
    have hapart := hapart key' hn
    simp only [fieldNames, List.mem_cons, List.not_mem_nil, or_false] at hn
    have hnull {text : Option String} (h : ∃ target, root.target? e.2 = some target ∧
        (text.isSome ↔ ¬target.isNull)) : text.isSome ↔ ¬value.isNull := by
      simpa [hv] using h
    rcases hn with rfl | rfl
    case inl => simpa [hapart, fieldNames] using hnull (Fields.of_text? htitle hheld)
    case inr => simpa [hapart, fieldNames] using hnull (Fields.of_text? hlayout hheld)

end PageConfig

namespace EffectiveConfig

variable {text key : String} {page : PageConfig} {value : Node} {s : SiteConfig}

theorem get?_merge : (merge s page).get? key = (page.values.get? key).or (s.values.get? key) :=
  Values.get?_override

-- What a page gives no value for is left to the site.
theorem exists_lookup_ne_of_mem_fieldNames (h : page.values.get? key = none)
    (hk : key ∈ PageConfig.fieldNames) :
    ∃ s₁ s₂ : SiteConfig, (merge s₁ page).lookup key ≠ (merge s₂ page).lookup key := by
  refine ⟨{}, { title := "x", layout := "x" }, ?_⟩
  simp only [PageConfig.fieldNames, List.mem_cons, List.not_mem_nil, or_false] at hk
  rw [lookup, lookup, get?_merge, get?_merge, h]
  rcases hk with rfl | rfl <;> decide

-- A key that a page gives does not depend on the site, unless it is a field with no value. Then it
-- has a value of the page in every site.
theorem own_keys_iff (h : PageConfig.ofText text = .ok page) (hk : (key, value) ∈ topLevel text) :
    ((∀ s₁ s₂ : SiteConfig, (merge s₁ page).lookup key = (merge s₂ page).lookup key ∧
        (key = "layout" → (merge s₁ page).layout = (merge s₂ page).layout)) ↔
      ¬(key ∈ PageConfig.fieldNames ∧ value.isNull)) ∧
    (¬(key ∈ PageConfig.fieldNames ∧ value.isNull) → ∃ v, page.values.get? key = some v ∧
      ∀ s : SiteConfig, (merge s page).get? key = some v) := by
  have hv := PageConfig.isSome_get?_values_iff h hk
  have hown (hn : ¬(key ∈ PageConfig.fieldNames ∧ value.isNull)) :
      ∃ v, page.values.get? key = some v ∧ ∀ s : SiteConfig, (merge s page).get? key = some v := by
    obtain ⟨v, hv⟩ := Option.isSome_iff_exists.mp (hv.mpr hn)
    exact ⟨v, hv, fun s => by rw [get?_merge, hv, Option.some_or]⟩
  refine ⟨⟨fun hs hn => ?_, fun hn s₁ s₂ => ?_⟩, hown⟩
  case refine_1 =>
    have hnone : page.values.get? key = none :=
      Option.not_isSome_iff_eq_none.mp fun hsome => hv.mp hsome hn
    obtain ⟨s₁, s₂, hne⟩ := exists_lookup_ne_of_mem_fieldNames hnone hn.1
    exact hne (hs s₁ s₂).1
  case refine_2 =>
    obtain ⟨v, -, hget⟩ := hown hn
    refine ⟨by rw [lookup, lookup, hget, hget], ?_⟩
    rintro rfl
    rw [layout, layout, hget, hget]

-- Front matter with a field and a key of its own, both with no value.
def nullText : String :=
  "title: ~\nauthor: ~\n"

theorem nullText_depends_on_site : ∃ page value, PageConfig.ofText nullText = .ok page ∧
    ("title", value) ∈ topLevel nullText ∧
    (merge { title := "Site" } page).lookup "title" ≠ (merge {} page).lookup "title" := by
  have hp : (PageConfig.ofText nullText).toOption.map (fun page =>
      ((merge { title := "Site" } page).lookup "title", (merge {} page).lookup "title")) =
        some (some "Site", none) := by
    decide +kernel
  have ht : ∃ x ∈ topLevel nullText, x.1 = "title" := by decide +kernel
  obtain ⟨⟨-, value⟩, hm, rfl⟩ := ht
  cases h : PageConfig.ofText nullText with
  | error => simp [h, Except.toOption] at hp
  | ok page =>
    rw [h, Except.toOption, Option.map_some, Option.some_inj, Prod.mk.injEq] at hp
    exact ⟨page, value, rfl, hm, by simp [hp]⟩

theorem nullText_own_keys_iff : ∃ page, PageConfig.ofText nullText = .ok page ∧
    (¬∀ s₁ s₂ : SiteConfig, (merge s₁ page).lookup "title" = (merge s₂ page).lookup "title" ∧
      ("title" = "layout" → (merge s₁ page).layout = (merge s₂ page).layout)) ∧
    ∃ v, page.values.get? "author" = some v ∧
      ∀ s : SiteConfig, (merge s page).get? "author" = some v := by
  have hp : (PageConfig.ofText nullText).isOk := by decide +kernel
  obtain ⟨⟨-, t⟩, ht, rfl, hnull⟩ :
      ∃ x ∈ topLevel nullText, x.1 = "title" ∧ x.2.isNull := by decide +kernel
  obtain ⟨⟨-, a⟩, ha, rfl⟩ : ∃ x ∈ topLevel nullText, x.1 = "author" := by decide +kernel
  cases h : PageConfig.ofText nullText with
  | error => simp [h, Except.isOk, Except.toBool] at hp
  | ok page =>
    refine ⟨page, rfl, mt (own_keys_iff h ht).1.mp fun hn => hn ⟨by decide, hnull⟩, ?_⟩
    exact (own_keys_iff h ha).2 fun hn => absurd hn.1 (by decide)

end EffectiveConfig

end StaticSite
