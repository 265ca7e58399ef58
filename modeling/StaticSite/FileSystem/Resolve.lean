import StaticSite.FileSystem
/-!
What a path names. Steps are taken one by one from the root or from the working directory, and
symbolic links are followed on the way. Main statement: what a path names is there
(`get?_of_resolve`).
-/
namespace StaticSite.FileSystem

-- How many bytes a path has at most, with the one that ends it.
def pathLimit : Nat :=
  4096

-- How many links are followed on the way to one entry.
def linkLimit : Nat :=
  40

-- What a path names.
inductive Named where
  | entry (l : Location) (e : Entry)
  -- A name that a directory does not have. The path may say that it names a directory.
  | vacant (dir : Location) (name : String) (isDirectory : Bool)

variable (fs : FileSystem)

-- Takes the steps of a path from a location on, and leaves it to `jump` to go on where a link
-- leads. A link at the end is followed only if `follow` says so or the path goes on behind it, be
-- it with a slash.
def takeStepsWith (jump : Location → List String → Except IoError Named) (follow : Bool)
    (l : Location) (steps : List String) : Except IoError Named :=
  match steps, fs.get? l with
  | _, none => .error .notFound
  | [], some e => .ok (.entry l e)
  | step :: rest, some .directory =>
    if Path.isIdle step then takeStepsWith jump follow l rest
    else if step = ".." then takeStepsWith jump follow l.dropLast rest
    else if step.utf8ByteSize > nameLimit then .error .invalidFilename
    else match fs.get? (l ++ [step]) with
      | none =>
        if rest.all (· == "") then .ok (.vacant l step !rest.isEmpty) else .error .notFound
      | some (.link target) =>
        if rest.isEmpty && !follow then .ok (.entry (l ++ [step]) (.link target))
        else jump (if target.isAbsolute then [] else l) (target.pieces ++ rest)
      | some _ => takeStepsWith jump follow (l ++ [step]) rest
  | _ :: _, some _ => .error .notADirectory

-- Takes the steps of a path, with so many links on the way at most.
def takeSteps (follow : Bool) : Nat → Location → List String → Except IoError Named
  | 0, l, steps => fs.takeStepsWith (fun _ _ => .error .filesystemLoop) follow l steps
  | links + 1, l, steps => fs.takeStepsWith (takeSteps follow links) follow l steps

-- Whether a path can be handed to the operating system at all.
def checkPath (p : Path) : Except IoError Unit :=
  if '\x00' ∈ p.text.toList then .error .invalidInput
  else if p.text.isEmpty then .error .notFound
  else if p.text.utf8ByteSize ≥ pathLimit then .error .invalidFilename
  else .ok ()

-- What a path names, as seen from a working directory.
def resolve (cwd : Location) (follow : Bool) (p : Path) : Except IoError Named := do
  checkPath p
  fs.takeSteps follow linkLimit (if p.isAbsolute then [] else cwd) p.pieces

-- The entry that a path names, links followed.
def find (cwd : Location) (p : Path) : Except IoError (Location × Entry) := do
  match ← fs.resolve cwd true p with
  | .entry l e => return (l, e)
  | .vacant .. => throw .notFound

-- The last step of a path.
inductive LastStep where
  | root
  -- A step such as `.` or `..`, which names no entry of a directory.
  | relative (step : String)
  | name (dir : Location) (name : String)

-- Where the last step of a path leads from. Slashes at the end do not count, and a link there is
-- not followed.
def resolveLast (cwd : Location) (p : Path) : Except IoError LastStep := do
  checkPath p
  match (p.pieces.reverse.dropWhile (· == "")) with
  | [] => return .root
  | step :: before =>
    match ← fs.takeSteps true linkLimit (if p.isAbsolute then [] else cwd) before.reverse with
    | .entry dir .directory =>
      if Path.isIdle step || step = ".." then return .relative step
      else if step.utf8ByteSize > nameLimit then throw .invalidFilename
      else return .name dir step
    | .entry .. => throw .notADirectory
    | .vacant .. => throw .notFound

variable {fs} {cwd k l : Location} {follow : Bool} {links : Nat} {steps : List String} {e : Entry}

theorem get?_of_takeStepsWith {jump : Location → List String → Except IoError Named}
    (hj : ∀ l steps, jump l steps = .ok (.entry k e) → fs.get? k = some e)
    (h : fs.takeStepsWith jump follow l steps = .ok (.entry k e)) : fs.get? k = some e := by
  fun_induction takeStepsWith fs jump follow l steps
  case case9 => exact hj _ _ h
  all_goals simp_all

-- What the steps of a path lead to is there.
theorem get?_of_takeSteps (h : fs.takeSteps follow links l steps = .ok (.entry k e)) :
    fs.get? k = some e := by
  induction links generalizing l steps <;> rw [takeSteps] at h
  case zero => exact get?_of_takeStepsWith (fun _ _ he => by simp at he) h
  case succ hi => exact get?_of_takeStepsWith (fun _ _ => hi) h

theorem get?_of_resolve {p : Path} (h : fs.resolve cwd follow p = .ok (.entry k e)) :
    fs.get? k = some e := by
  unfold resolve at h
  cases hc : checkPath p with
  | error => simp [hc, bind, Except.bind] at h
  | ok => exact get?_of_takeSteps (by simpa [hc, bind, Except.bind] using h)

end StaticSite.FileSystem
