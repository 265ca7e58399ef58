import StaticSite.Config.Page
import StaticSite.Config.Site
import StaticSite.Yaml.Value.Printer
/-!
The configuration that a page is rendered with: the values of the site, replaced key by key by
those of the page. Sequences and mappings are replaced as a whole.
-/
namespace StaticSite

open Config
open Yaml (Value)

-- The text that takes the place of a value in a layout. Strings stand as they are, null is nothing,
-- and a collection is written as YAML without the mark of a document.
def Yaml.Value.display : Value → String
  | .null => ""
  | .bool b => if b then "true" else "false"
  | .int n => toString n
  | .float x => x.plainText
  | .string s => s
  | v@(.sequence _) | v@(.mapping _) => .ofList (Text.trim (dropMarks v.toText.toList))
where
  dropMarks : List Char → List Char
  | '-' :: '-' :: '-' :: rest => dropMarks rest
  | cs => cs

structure EffectiveConfig where
  values : Values

namespace EffectiveConfig

def defaultLayout : String :=
  "layout"

def merge (site : SiteConfig) (page : PageConfig) : EffectiveConfig :=
  ⟨site.values.override page.values⟩

def get? (c : EffectiveConfig) (key : String) : Option Value :=
  c.values.get? key

-- The text that takes the place of `key` in a layout, if it has a value.
def lookup (c : EffectiveConfig) (key : String) : Option String :=
  (c.get? key).map Value.display

def keys (c : EffectiveConfig) : List String :=
  c.values.keys

-- The name of the page's layout. An empty name counts as none.
def layout (c : EffectiveConfig) : String :=
  match c.get? "layout" with
  | some (.string name) => if name.isEmpty then defaultLayout else name
  | _ => defaultLayout

end EffectiveConfig

end StaticSite
