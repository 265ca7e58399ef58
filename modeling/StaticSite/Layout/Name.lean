import StaticSite.Path
/-!
Names of layouts. A valid one names a file directly inside the directory of the layouts.
-/
namespace StaticSite.Layout

-- The extension of layouts.
def fileExtension : String :=
  "html"

-- Whether a name is a single component without a slash of either kind.
def isValidName (name : String) : Bool :=
  !name.toList.any (fun c => c == '/' || c == '\\') &&
    match (Path.mk name).components with
    | [.normal _] => true
    | _ => false

-- The file of a layout.
def path (directory : Path) (name : String) : Path :=
  directory.join ⟨name ++ "." ++ fileExtension⟩

end StaticSite.Layout
