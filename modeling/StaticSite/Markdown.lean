import StaticSite.Markdown.Contents
import StaticSite.Markdown.Html
/-!
Markdown, turned into HTML.
-/
namespace StaticSite.Markdown

-- The HTML of a Markdown text.
def toHtml (text : String) : String :=
  Html.ofMarks (Document.ofText text).marks

end StaticSite.Markdown
