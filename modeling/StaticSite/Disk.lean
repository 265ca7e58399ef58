import StaticSite.FileSystem.Resolve
import StaticSite.World
/-!
What the operating system does with files. Paths are resolved anew by every operation.
-/
namespace StaticSite.Disk

open FileSystem

-- Asks a question about the files, as seen from the working directory.
def ask {α : Type} (question : FileSystem → Location → Except IoError α) : Action IoError α := do
  let w ← get
  liftExcept (question w.files w.directory)
where
  liftExcept : Except IoError α → Action IoError α
    | .ok a => pure a
    | .error e => throw e

def change (f : FileSystem → FileSystem) : Action IoError Unit :=
  modify fun w => { w with files := f w.files }

-- Puts an entry in place of the one at a location.
def replace (l : Location) (e : Entry) (fs : FileSystem) : FileSystem :=
  match l.getLast? with
  | none => fs
  | some name => fs.put l.dropLast name e

-- Whether a path names an entry that satisfies `p`, links followed.
def isNamed (kind : Entry → Bool) (p : Path) (w : World) : Bool :=
  match w.files.find w.directory p with
  | .ok (_, e) => kind e
  | .error _ => false

def isEntry : Path → World → Bool :=
  isNamed fun _ => true

def isFile : Path → World → Bool :=
  isNamed fun
    | .file _ => true
    | _ => false

def isDirectory : Path → World → Bool :=
  isNamed (· = .directory)

-- The path of the same entry from the root, without links and idle steps.
def canonical (p : Path) : Action IoError Path := do
  let (l, _) ← ask (·.find · p)
  return l.toPath

def read (p : Path) : Action IoError ByteArray := do
  match ← ask (·.find · p) with
  | (_, .file contents) => return contents
  | _ => throw .isADirectory

def readText (p : Path) : Action IoError String := do
  match String.fromUTF8? (← read p) with
  | some text => return text
  | none => throw .invalidData

-- Writes a file, new or in place of the old contents.
def write (p : Path) (contents : ByteArray) : Action IoError Unit := do
  match ← ask (·.resolve · true p) with
  | .entry l (.file _) => change (replace l (.file contents))
  | .entry .. => throw .isADirectory
  | .vacant dir name isDirectory =>
    if isDirectory then throw .isADirectory else change (·.put dir name (.file contents))

def writeText (p : Path) (text : String) : Action IoError Unit :=
  write p text.toUTF8

-- Puts an entry where there is none, not even a link that leads nowhere.
def create (p : Path) (e : Entry) : Action IoError Unit := do
  match ← ask (·.resolveLast · p) with
  | .root | .relative _ => throw .alreadyExists
  | .name dir name =>
    if ((← get).files.get? (dir ++ [name])).isSome then throw .alreadyExists
    else change (·.put dir name e)

def makeDirectory (p : Path) : Action IoError Unit :=
  create p .directory

-- Makes a directory, unless there is one already.
def ensureDirectory (p : Path) : Action IoError Unit := do
  try makeDirectory p
  catch e => if isDirectory p (← get) then pure () else throw e

-- Makes the directory at the head of a list of ancestors, and those of its parents that are
-- missing.
def makeAncestors : List Path → Action IoError Unit
  | [] => throw .notFound
  | p :: parents => do
    if p.components.isEmpty then pure ()
    else
      try ensureDirectory p
      catch e =>
        if e = .notFound then
          makeAncestors parents
          ensureDirectory p
        else throw e

-- Makes a directory with its parents.
def makeDirectories (p : Path) : Action IoError Unit :=
  makeAncestors p.ancestors

-- Copies the contents of a file. The target is emptied before the source is read.
def copy (source target : Path) : Action IoError Unit := do
  match ← ask (·.find · source) with
  | (l, .file _) =>
    write target .empty
    match (← get).files.get? l with
    | some (.file contents) => write target contents
    | _ => return
  | _ => throw .invalidInput

-- Erases all in a directory.
def eraseContents (l : Location) (fs : FileSystem) : FileSystem :=
  (fs.children l).foldl (fun fs x => fs.erase (l ++ [x.1])) fs

-- Removes a directory with its contents, or a link. The contents go first.
def removeTree (p : Path) : Action IoError Unit := do
  match ← ask (·.resolve · false p) with
  | .vacant .. => throw .notFound
  | .entry l (.link _) => change (·.erase l)
  | .entry _ (.file _) => throw .notADirectory
  | .entry l .directory =>
    change (eraseContents l)
    match ← ask (·.resolveLast · p) with
    | .root => throw .resourceBusy
    | .relative step => throw (if step = ".." then .directoryNotEmpty else .invalidInput)
    | .name dir name => match (← get).files.get? (dir ++ [name]) with
      | some .directory => change (·.erase (dir ++ [name]))
      | some _ => throw .notADirectory
      | none => throw .notFound

end StaticSite.Disk
