import StaticSite.Config.Effective
import StaticSite.Proofs.Config.Override
import StaticSite.Proofs.Text.Bytes
/-!
How the configurations of a site and of a page come together. Main statement: a field goes before
metadata of its name and the page before the site, whatever is set, and keys and layout follow from
that (`merge_own`).
-/
namespace StaticSite

open Config
open Yaml (Value)

namespace SiteConfig

-- The text of a field by its key. The directory of the layouts is none of the values.
def field? (c : SiteConfig) (key : String) : Option String :=
  if key = "title" then c.title
  else if key = "base_url" then c.baseUrl.map Url.toText
  else if key = "layout" then c.layout
  else none

-- What the site itself says about a key.
def own? (c : SiteConfig) (key : String) : Option Value :=
  ((c.field? key).map .string).or (c.metadata.get? key)

theorem get?_values {c : SiteConfig} {key : String} : c.values.get? key = c.own? key := by
  simp only [values, Values.get?_insertText, own?, field?]
  by_cases ht : key = "title"
  case pos => simp [ht]
  case neg =>
    by_cases hu : key = "base_url"
    case pos => simp [hu]
    case neg => by_cases hl : key = "layout" <;> simp [ht, hu, hl]

end SiteConfig

namespace PageConfig

-- The text of a field by its key.
def field? (c : PageConfig) (key : String) : Option String :=
  if key = "title" then c.title
  else if key = "layout" then c.layout
  else none

-- What the page itself says about a key.
def own? (c : PageConfig) (key : String) : Option Value :=
  ((c.field? key).map .string).or (c.metadata.get? key)

theorem get?_values {c : PageConfig} {key : String} : c.values.get? key = c.own? key := by
  simp only [values, Values.get?_insertText, own?, field?]
  by_cases ht : key = "title"
  case pos => simp [ht]
  case neg => by_cases hl : key = "layout" <;> simp [ht, hl]

end PageConfig

theorem Config.Values.nodup_keys {vs : Values} : vs.keys.Nodup :=
  List.pairwise_map.mpr (vs.sorted.imp fun {x y} (hl : x.1 < y.1) (he : x.1 = y.1) =>
    Std.lt_irrefl (he ▸ hl))

-- Keys ascend by their bytes.
theorem Config.Values.pairwise_keys {vs : Values} :
    vs.keys.Pairwise fun j k => Text.bytes j < Text.bytes k :=
  List.pairwise_map.mpr (vs.sorted.imp Text.bytes_lt_bytes)

namespace EffectiveConfig

variable {site : SiteConfig} {page : PageConfig} {key : String}

theorem get?_merge_eq_own : (merge site page).get? key = (page.own? key).or (site.own? key) := by
  rw [get?_merge, PageConfig.get?_values, SiteConfig.get?_values]

-- A layout is named by the page or by the site, but not by an empty name.
theorem layout_merge : (merge site page).layout =
    match (page.own? "layout").or (site.own? "layout") with
    | some (.string name) => if name = "" then defaultLayout else name
    | _ => defaultLayout := by
  rw [layout, get?_merge_eq_own]
  rcases (page.own? "layout").or (site.own? "layout") with _ | v
  case none => rfl
  case some => cases v <;> simp

-- What is said about a key is said by the page or else by the site. The keys are those about which
-- something is said. A page whose layout is the empty name takes the default one in every site.
theorem merge_own (site : SiteConfig) (page : PageConfig) :
    (∀ key, (merge site page).get? key = (page.own? key).or (site.own? key)) ∧
    (∀ key, key ∈ (merge site page).keys ↔ (page.own? key).isSome ∨ (site.own? key).isSome) ∧
    (merge site page).keys.Nodup ∧
    (merge site page).keys.Pairwise (fun j k => Text.bytes j < Text.bytes k) ∧
    (merge site page).layout = (match (page.own? "layout").or (site.own? "layout") with
      | some (.string name) => if name = "" then defaultLayout else name
      | _ => defaultLayout) ∧
    (merge site { page with layout := some "" }).layout = defaultLayout := by
  refine ⟨fun _ => get?_merge_eq_own, fun key => ?_, Values.nodup_keys, Values.pairwise_keys,
    layout_merge, ?_⟩
  case refine_1 =>
    have hk : key ∈ (merge site page).keys ↔ ((merge site page).get? key).isSome :=
      Values.mem_keys
    rw [hk, get?_merge_eq_own, Option.isSome_or, Bool.or_eq_true]
  case refine_2 =>
    rw [layout_merge]
    simp [PageConfig.own?, PageConfig.field?]

end EffectiveConfig

end StaticSite
