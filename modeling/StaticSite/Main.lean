import StaticSite.CommandLine
/-!
The program. What a command may look at on the disk is read beforehand, the command runs on that,
and what it has changed is written back, also if it failed.
-/
namespace StaticSite.Main

-- What was read of the disk.
structure Snapshot where
  world : World
  -- The directories that were read with all that is below them.
  trees : List Location

abbrev Reader := StateT Snapshot IO

def put (l : Location) (e : Entry) : Reader Unit :=
  modify fun s => { s with world.files := Disk.replace l e s.world.files }

-- A target for links that lead nowhere: no entry has this name.
def nowhere : Path :=
  "\x00"

def locationOf (path : String) : Location :=
  (Path.mk path).pieces.filter (!Path.isIdle ·)

mutual

-- Reads the entry at a location with the directories on the way to it, and where a link leads.
-- `whole` asks for all that is below.
partial def readEntry (whole : Bool) (l : Location) : Reader Unit := do
  unless ((← get).world.files.get? l).isSome do
    readEntry false l.dropLast
    let p := System.mkFilePath [l.toPath.text]
    match (← p.symlinkMetadata).type with
    | .dir => put l .directory
    | .file => put l (.file (← IO.FS.readBinFile p))
    | .symlink =>
      let target ← try pure (some (← IO.FS.realPath p).toString) catch _ => pure none
      match target with
      | some target =>
        put l (.link ⟨target⟩)
        readEntry whole (locationOf target)
      | none => put l (.link nowhere)
    | .other => return
  if whole then readTree l

-- Reads all that is below a directory.
partial def readTree (l : Location) : Reader Unit := do
  unless (← get).world.files.get? l ≠ some .directory || (← get).trees.contains l do
    modify fun s => { s with trees := l :: s.trees }
    for child in ← (System.mkFilePath [l.toPath.text]).readDir do
      readEntry true (l ++ [child.fileName])

end

-- Reads what a path names, if there is such a thing.
def readPath (whole : Bool) (p : Path) : Reader Unit := do
  for q in p.ancestors.reverse do
    let w := (← get).world
    if let .ok (.vacant dir name _) := w.files.resolve w.directory false q then
      try readEntry false (dir ++ [name]) catch _ => return
  let w := (← get).world
  if let .ok (l, _) := w.files.find w.directory p then
    if whole then readTree l

-- Reads what a command may look at.
def readFor : CommandLine.Command → Reader Unit
  | .build source output => do
    readPath true source
    readPath true output
    if let (.ok site, _) := (SiteConfig.loadFrom source).run.run (← get).world then
      readPath true (Session.ofConfig source output site).layouts
  | .clean output => readPath true output
  | .new path => do
    for (p, _) in Skeleton.files path do
      readPath false p

-- Whether an entry can become another by writing at most its contents.
def isSameKind : Entry → Entry → Bool
  | .directory, .directory => true
  | .file _, .file _ => true
  | .link _, .link _ => true
  | _, _ => false

-- Writes back what has changed. Links are only ever removed.
def writeBack (before after : FileSystem) : IO Unit := do
  for (l, e) in before.entries.reverse do
    unless (after.get? l).any (isSameKind e) do
      if e = .directory then IO.FS.removeDir l.toPath.text else IO.FS.removeFile l.toPath.text
  for (l, e) in after.entries do
    unless before.get? l = some e do
      match e with
      | .directory => IO.FS.createDir l.toPath.text
      | .file contents => IO.FS.writeBinFile l.toPath.text contents
      | .link _ => pure ()

-- Tells what a command logged, but for what concerns its inner workings.
def tell (log : Log) : IO Unit :=
  for r in log do
    unless r.level = .debug do
      IO.eprintln ("[" ++ r.level.name ++ "] " ++ r.message)

-- Runs a command on the disk.
def perform (command : CommandLine.Command) : IO UInt32 := do
  let directory := locationOf (← IO.currentDir).toString
  let start : Snapshot := ⟨⟨.empty, directory, []⟩, []⟩
  let (_, before) ← (do readEntry false directory; readFor command : Reader Unit).run start
  let (result, after) := command.run.run.run before.world
  tell after.log
  writeBack before.world.files after.files
  match result with
  | .ok () => return 0
  | .error e =>
    IO.eprintln ("[ERROR] " ++ Failure.line e)
    return 1

end StaticSite.Main

def main (arguments : List String) : IO UInt32 := do
  match StaticSite.CommandLine.Command.ofArguments arguments with
  | .ok command => StaticSite.Main.perform command
  | .error refusal =>
    if refusal.isAnswer then
      IO.println refusal.message
      return 0
    else
      IO.eprintln refusal.message
      return 1
