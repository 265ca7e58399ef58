import StaticSite.Cause
import StaticSite.Disk
import StaticSite.Layout.Name
import StaticSite.Layout.Template
/-!
Putting the body of a page into its layout. Main statement: a page whose layout has no valid name
is refused before any file is read (`inject_of_not_isValidName`).
-/
namespace StaticSite.Layout

inductive Error where
  | notFound (layout : String) (path page : Path)
  | invalidName (layout : String) (page : Path)
  | io (path : Path) (error : IoError)
  deriving DecidableEq, Repr

instance : Failure Error where
  headline
    | .notFound layout path page =>
      .message ("layout " ++ quoted layout ++ " requested by " ++ quoted page.text ++
        " not found (looked for " ++ quoted path.text ++ ")")
    | .invalidName layout page =>
      .message ("invalid layout name " ++ quoted layout ++ " requested by " ++ quoted page.text)
    | .io path _ => .message ("reading layout " ++ quoted path.text)
  causes
    | .notFound .. | .invalidName .. => []
    | .io _ e => [.io e]

-- What a failure to read a layout tells. A layout that is missing is named with its page.
def readError (layout : String) (path page : Path) (e : IoError) : Error :=
  if e = .notFound then .notFound layout path page else .io path e

-- The document of a page: its body in the layout that its configuration names. The page itself is
-- only named in failures.
def inject (layouts : Path) (config : EffectiveConfig) (body : String) (page : Path) :
    Action Error String := do
  let layout := config.layout
  if !isValidName layout then throw (.invalidName layout page)
  let path := Layout.path layouts layout
  let template ← (Disk.readText path).orElseThrow (readError layout path page)
  return Template.render template config body

theorem inject_of_not_isValidName {layouts page : Path} {config : EffectiveConfig}
    {body : String} (h : isValidName config.layout = false) :
    inject layouts config body page = throw (.invalidName config.layout page) := by
  simp [inject, h]

end StaticSite.Layout
