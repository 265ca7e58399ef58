import StaticSite.Cause
import StaticSite.Config.Effective
import StaticSite.Disk
import StaticSite.Layout.Name
/-!
The skeleton of a new site: a configuration, a layout and a home page.
-/
namespace StaticSite.Skeleton

inductive Error where
  | alreadyExists (path : Path)
  | io (path : Path) (error : IoError)
  deriving DecidableEq, Repr

instance : Failure Error where
  headline
    | .alreadyExists path => .message ("refusing to overwrite " ++ quoted path.text)
    | .io path _ => .message ("writing " ++ quoted path.text)
  causes
    | .alreadyExists _ => []
    | .io _ e => [.io e]

def ofLines (lines : List String) : String :=
  String.join (lines.map (· ++ "\n"))

def config : String :=
  ofLines
   ["title: My new site",
    "base_url: https://example.org/",
    "description: Built with quire"]

def layout : String :=
  ofLines
   ["<!DOCTYPE html>",
    "<html>",
    "<head>",
    "  <meta charset=\"utf-8\">",
    "  <title>\x7b\x7btitle\x7d\x7d</title>",
    "  <meta name=\"description\" content=\"\x7b\x7bdescription\x7d\x7d\">",
    "</head>",
    "<body>",
    "  <main>",
    "\x7b\x7bbody\x7d\x7d",
    "  </main>",
    "</body>",
    "</html>"]

def home : String :=
  ofLines
   ["---",
    "title: Home",
    "---",
    "# Welcome",
    "",
    "Edit \x60index.md\x60 to change this page, or add another page and link to it",
    "like [this](index.md)."]

-- The files of a new site and their texts.
def files (root : Path) : List (Path × String) :=
  [(root / SiteConfig.fileName, config),
   (Layout.path (root / "layouts") EffectiveConfig.defaultLayout, layout),
   (root / "index.md", home)]

-- Creates a file that does not exist yet, with the directories on the way to it.
def writeNew (p : Path) (text : String) : Action IoError Unit := do
  if let some dir := p.parent? then Disk.makeDirectories dir
  Disk.create p (.file text.toUTF8)

-- Creates a new site, unless one of its files exists.
def create (root : Path) : Action Error Unit := do
  let w ← get
  if let some (p, _) := (files root).find? fun (p, _) => Disk.isEntry p w then
    throw (.alreadyExists p)
  for (p, text) in files root do
    (writeNew p text).orElseThrow (.io p)
    Action.record .info ("Created " ++ quoted p.text)

end StaticSite.Skeleton
