import StaticSite.Config.Fields
/-!
The configuration of one page, from its front matter.
-/
namespace StaticSite

open Config

structure PageConfig where
  title : Option String := none
  -- The name of the layout.
  layout : Option String := none
  -- All other values.
  metadata : Values := .empty
  deriving Repr

namespace PageConfig

def fieldNames : List String :=
  ["title", "layout"]

-- Reads front matter.
def ofText (text : String) : Except Yaml.Error PageConfig :=
  decode text {} fun root => do
    let fields ← Fields.ofNode fieldNames root
    return {
      title := ← fields.text? "title"
      layout := ← fields.text? "layout"
      metadata := fields.metadata }

-- All values of the page by key. A field that is set goes before metadata of its name.
def values (c : PageConfig) : Values :=
  (c.metadata.insertText "title" c.title).insertText "layout" c.layout

end PageConfig

end StaticSite
