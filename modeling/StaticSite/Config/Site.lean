import StaticSite.Config.Fields
import StaticSite.Path
import StaticSite.Url
/-!
The configuration of the whole site.
-/
namespace StaticSite

open Config

structure SiteConfig where
  title : Option String := none
  -- Where the site is published.
  baseUrl : Option Url := none
  -- The name of the layout of pages that name none.
  layout : Option String := none
  -- The directory of the layouts, as seen from the source directory.
  layouts : Path := "layouts"
  -- All other values.
  metadata : Values := .empty
  deriving Repr

namespace SiteConfig

-- The name of the configuration file in the source directory.
def fileName : Path :=
  "config.yaml"

def fieldNames : List String :=
  ["title", "base_url", "layout", "layouts"]

-- The address of the site, which has to be absolute.
def baseUrl? (fields : Fields) : Yaml.Decoding (Option Url) := do
  match ← fields.text? "base_url" with
  | none => return none
  | some text => match Url.ofText? text with
    | some url => return some url
    | none => throw .badUrl

-- The directory of the layouts. Here null is a name like any other.
def layoutsPath (fields : Fields) : Yaml.Decoding Path := do
  match fields.known.lookup "layouts" with
  | some node => return ⟨← Yaml.Decoding.text node⟩
  | none => return "layouts"

-- Reads the configuration of a site.
def ofText (text : String) : Except Yaml.Error SiteConfig :=
  decode text {} fun root => do
    let fields ← Fields.ofNode fieldNames root
    return {
      title := ← fields.text? "title"
      baseUrl := ← baseUrl? fields
      layout := ← fields.text? "layout"
      layouts := ← layoutsPath fields
      metadata := fields.metadata }

-- All values of the site by key, but for the directory of the layouts.
def values (c : SiteConfig) : Values :=
  ((c.metadata.insertText "title" c.title).insertText "base_url"
    (c.baseUrl.map Url.toText)).insertText "layout" c.layout

end SiteConfig

end StaticSite
