import StaticSite.Cause
import StaticSite.FileSystem.Resolve
import StaticSite.World
/-!
Walking a tree: every entry below a directory is visited, a directory before its contents and
neighbours in the order of their names. Links are followed, but not back to a directory that the
walk is in. Main statement: a regular file is come to without looking at anything else
(`enter_file`).
-/
namespace StaticSite.Walk

open FileSystem

inductive Error where
  | io (path : Path) (error : IoError)
  | loop (child ancestor : Path)
  deriving DecidableEq, Repr

namespace Error

def path : Error → Path
  | io path _ => path
  | loop child _ => child

instance : Failure Error where
  headline
    | .io path e =>
      .message ("IO error for operation on " ++ path.text ++ ": " ++ e.message)
    | .loop child ancestor =>
      .message ("File system loop found: " ++ child.text ++ " points to an ancestor " ++
        ancestor.text)
  causes _ := []

end Error

-- A directory that the walk is in.
structure Step where
  path : Path
  location : Location

-- Where a directory is and what it holds, or why that cannot be told.
abbrev Listing := Except IoError (Location × List (String × Entry))

-- What the walk has come to. A directory is listed before it is visited.
inductive Found where
  | file
  | directory (contents : Listing)

def Found.isDirectory : Found → Bool
  | file => false
  | directory _ => true

variable (fs : FileSystem) (cwd : Location)

-- The directory that a path names, with its entries.
def list (p : Path) : Listing := do
  match ← fs.find cwd p with
  | (l, .directory) => return (l, fs.children l)
  | _ => throw .notADirectory

-- Comes to the entry at a path. `way` are the directories that the walk is in, the innermost first.
def enter (way : List Step) (p : Path) (e : Entry) : Except Error Found :=
  match e with
  | .file _ => .ok .file
  | .directory => .ok (.directory (list fs cwd p))
  | .link _ => match fs.find cwd p with
    | .error e => .error (.io p e)
    | .ok (l, .directory) => match way.find? (·.location = l) with
      | some step => .error (.loop p step.path)
      | none => .ok (.directory (list fs cwd p))
    | .ok _ => .ok .file

-- Comes to the directory that a walk starts at.
def start (p : Path) : Except Error Found :=
  match fs.resolve cwd false p with
  | .error e => .error (.io p e)
  | .ok (.vacant ..) => .error (.io p .notFound)
  | .ok (.entry _ e) => enter fs cwd [] p e

theorem enter_file {way : List Step} {p : Path} {contents : ByteArray} :
    enter fs cwd way p (.file contents) = .ok .file :=
  rfl

-- What is done on a walk with the entry at a path, which may be a directory. If it is `none`, what
-- is below the entry is left out as well.
abbrev Visitor (ε σ : Type) := Path → Bool → σ → Action ε (Option σ)

variable {ε σ : Type} (tell : Error → ε) (visit : Visitor ε σ)

def orThrow {α : Type} : Except Error α → Action ε α
  | .ok a => pure a
  | .error e => throw (tell e)

-- Visits the entries of a directory and, one level after another, of the directories in it. Every
-- level makes paths longer, so there are fewer levels than a path has bytes.
def visitBelow : Nat → List Step → Path → Listing → σ → Action ε σ
  | _, _, dir, .error e, _ => throw (tell (.io dir e))
  | 0, _, dir, .ok _, _ => throw (tell (.io dir .invalidFilename))
  | depth + 1, way, dir, .ok (location, entries), s => do
    let way := ⟨dir, location⟩ :: way
    entries.foldlM (fun s (name, e) => do
      let p := dir / ⟨name⟩
      let w ← get
      let found ← orThrow tell (enter w.files w.directory way p e)
      match ← visit p found.isDirectory s with
      | none => return s
      | some s => match found with
        | .file => return s
        | .directory contents => visitBelow depth way p contents s) s

-- Visits all that is below the directory at a path.
def run (p : Path) (s : σ) : Action ε σ := do
  let w ← get
  match ← orThrow tell (start w.files w.directory p) with
  | .file => return s
  | .directory contents => visitBelow tell visit pathLimit [] p contents s

end StaticSite.Walk
