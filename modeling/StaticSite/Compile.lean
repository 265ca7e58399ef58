import StaticSite.Build.Session
import StaticSite.Layout.Inject
import StaticSite.Page
/-!
Compiling content files: each becomes a page in its layout.
-/
namespace StaticSite.Compile

inductive Error where
  | page (error : Page.Error)
  | layout (error : Layout.Error)
  | io (error : IoError)
  deriving DecidableEq, Repr

-- A failure to compile adds nothing to the failure behind it.
instance : Failure Error where
  headline
    | .page e => Failure.headline e
    | .layout e => Failure.headline e
    | .io e => .io e
  causes
    | .page e => Failure.causes e
    | .layout e => Failure.causes e
    | .io _ => []

-- The document of a content file with the given text. Its path is only named in failures.
def text (s : Session) (input : String) (path : Path) : Action Error String := do
  match Page.ofText input with
  | .error e => throw (.page e)
  | .ok page =>
    let config := EffectiveConfig.merge s.site page.config
    (Layout.inject s.layouts config page.body path).orElseThrow .layout

-- The document of the content file at a path.
def file (s : Session) (path : Path) : Action Error String := do
  text s (← (Disk.readText path).orElseThrow .io) path

-- Compiles a content file and writes its document. Nothing is written unless it compiles.
def write (s : Session) (source target : Path) : Action Error Unit := do
  let document ← file s source
  if let some dir := target.parent? then (Disk.makeDirectories dir).orElseThrow .io
  (Disk.writeText target document).orElseThrow .io

end StaticSite.Compile
