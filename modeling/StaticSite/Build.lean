import StaticSite.Compile
import StaticSite.Config.Load
import StaticSite.FileSystem.Walk
/-!
Building a site: its source is walked, content files are compiled into pages, and all else is
copied to where it stands in the output. The first failure ends a build, and what was written
before it stays.
-/
namespace StaticSite.Build

-- What a build has done.
structure Report where
  pages : Nat := 0
  files : Nat := 0
  directories : Nat := 0
  deriving DecidableEq, Repr

inductive Error where
  | config (error : SiteConfig.LoadError)
  | compile (path : Path) (error : Compile.Error)
  | copy (source target : Path) (error : IoError)
  | makeDirectory (path : Path) (error : IoError)
  | clean (path : Path) (error : IoError)
  | outputIsSource (path : Path)
  | walk (error : Walk.Error)
  | io (path : Path) (error : IoError)
  deriving DecidableEq, Repr

namespace Error

-- What the failure is about.
def path : Error → Path
  | config e => e.path
  | walk e => e.path
  | copy source .. => source
  | compile path _ | makeDirectory path _ | clean path _ | outputIsSource path | io path _ => path

-- Failures of the configuration and of the walk stand for themselves.
instance : Failure Error where
  headline
    | .config e => Failure.headline e
    | .compile path _ => .message ("compiling " ++ quoted path.text)
    | .copy source target _ =>
      .message ("copying " ++ quoted source.text ++ " to " ++ quoted target.text)
    | .makeDirectory path _ => .message ("creating directory " ++ quoted path.text)
    | .clean path _ => .message ("cleaning directory " ++ quoted path.text)
    | .outputIsSource path =>
      .message ("output directory " ++ quoted path.text ++ " is the source directory")
    | .walk e => Failure.headline e
    | .io path _ => .message ("accessing " ++ quoted path.text)
  causes
    | .config e => Failure.causes e
    | .compile _ e => Failure.layers e
    | .copy _ _ e | .makeDirectory _ e | .clean _ e | .io _ e => [.io e]
    | .outputIsSource _ => []
    | .walk e => Failure.causes e

end Error

def makeDirectory (p : Path) : Action Error Unit :=
  (Disk.makeDirectories p).orElseThrow (.makeDirectory p)

def copy (source target : Path) : Action Error Unit := do
  if let some dir := target.parent? then makeDirectory dir
  (Disk.copy source target).orElseThrow (.copy source target)

-- Makes the part of the output that an entry of the source stands for.
def perform (s : Session) (p : Path) (isDirectory : Bool) (r : Report) :
    Action Error Report := do
  match p.stripPrefix? s.source with
  | none => return r
  | some relative =>
    let target := s.outputPath relative
    if isDirectory then
      Action.record .debug ("Creating " ++ quoted target.text)
      makeDirectory target
      return { r with directories := r.directories + 1 }
    else if Extension.isContent relative then
      Action.record .info ("Compiling " ++ quoted relative.text)
      (Compile.write s p target).orElseThrow (.compile p)
      return { r with pages := r.pages + 1 }
    else
      Action.record .debug ("Copying " ++ quoted relative.text)
      copy p target
      return { r with files := r.files + 1 }

-- Makes the part of the output that an entry stands for. An entry that is no part of the site is
-- skipped.
def visit (s : Session) : Walk.Visitor Error Report := fun p isDirectory r => do
  if s.isExcluded p then
    Action.record .debug ("Skipping " ++ quoted p.text)
    return none
  else return some (← perform s p isDirectory r)

-- Builds the site of a session.
def run (s : Session) : Action Error Report := do
  makeDirectory s.output
  let r ← Walk.run .walk (visit s) s.source {}
  Action.record .info ("Built " ++ toString r.pages ++ " pages and copied " ++ toString r.files ++
    " files into " ++ quoted s.output.text)
  return r

-- Builds the site in a source directory. Its configuration is loaded first; the directories are
-- made canonical, so that an output within the source is recognised and left alone.
def site (source output : Path) : Action Error Report := do
  let config ← (SiteConfig.loadFrom source).orElseThrow .config
  let canonicalSource ← (Disk.canonical source).orElseThrow (.io source)
  makeDirectory output
  let canonicalOutput ← (Disk.canonical output).orElseThrow (.io output)
  if canonicalSource.same canonicalOutput then throw (.outputIsSource canonicalSource)
  run (.ofConfig canonicalSource canonicalOutput config)

-- Removes the output. It is no failure if there is none.
def clean (output : Path) : Action Error Unit := do
  try
    (Disk.removeTree output).orElseThrow (.clean output)
    Action.record .info ("Removed " ++ quoted output.text)
  catch
    | .clean _ .notFound => pure ()
    | e => throw e

end StaticSite.Build
