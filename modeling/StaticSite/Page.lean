import StaticSite.Config.Page
import StaticSite.Extension
import StaticSite.FrontMatter
import StaticSite.Markdown
/-!
Pages: the configuration in the front matter of a content file, and its body as HTML.
-/
namespace StaticSite

structure Page where
  config : PageConfig
  -- The body as HTML.
  body : String
  deriving Repr

namespace Page

inductive Error where
  -- The document has no front matter.
  | malformed (error : FrontMatter.Error)
  | frontMatter (error : Yaml.Error)
  deriving DecidableEq, Repr

-- Whether the document itself is at fault, and not what its front matter says.
def Error.isMalformed : Error → Bool
  | malformed _ => true
  | frontMatter _ => false

instance : Failure Error where
  headline
    | .malformed e => Failure.headline e
    | .frontMatter _ => .message "decoding front matter"
  causes
    | .malformed e => Failure.causes e
    | .frontMatter e => [.yaml e]

-- The HTML of a body. References to content files become references to pages.
def render (body : String) : String :=
  Markdown.toHtml (Extension.rewriteExtensions body)

-- Reads a content file.
def ofText (text : String) : Except Error Page := do
  let (frontMatter, body) ← (FrontMatter.split text).mapError .malformed
  let config ← (PageConfig.ofText frontMatter).mapError .frontMatter
  return { config, body := render body }

end Page

end StaticSite
