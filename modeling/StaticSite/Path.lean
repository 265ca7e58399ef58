/-!
Paths as they are written. Nothing is normalised: `join`, `parent?` and `withExtension` keep the
spelling of what they do not change. Two paths are `same` if they have the same components.

Main statement: an absolute path replaces what it is joined to (`join_of_isAbsolute`).
-/
namespace StaticSite

structure Path where
  text : String
  deriving DecidableEq, Repr, Inhabited

namespace Path

-- A step of a path.
inductive Component where
  | root
  | current
  | parent
  | normal (name : String)
  deriving DecidableEq, Repr

def isAbsolute (p : Path) : Bool :=
  p.text.toList.head? == some '/'

-- The texts between slashes, without the slash of the root.
def pieces (p : Path) : List String :=
  let cs := p.text.toList
  ((if p.isAbsolute then cs.tail else cs).splitOn '/').map .ofList

-- Whether a piece leads nowhere.
def isIdle (piece : String) : Bool :=
  piece == "" || piece == "."

def componentOf? (piece : String) : Option Component :=
  if isIdle piece then none
  else if piece = ".." then some .parent
  else some (.normal piece)

-- The steps of the path. A dot counts only where a relative path begins with it.
def components (p : Path) : List Component :=
  let first : List Component :=
    if p.isAbsolute then [.root] else if p.pieces.head? = some "." then [.current] else []
  first ++ p.pieces.filterMap componentOf?

-- Whether two paths have the same components.
def same (p q : Path) : Bool :=
  p.components == q.components

def ofPieces (absolute : Bool) (ps : List String) : Path :=
  ⟨(if absolute then "/" else "") ++ "/".intercalate ps⟩

-- `q` as seen from the directory `p`.
def join (p q : Path) : Path :=
  if q.isAbsolute then q
  else if p.text.isEmpty || p.text.toList.getLast? == some '/' then ⟨p.text ++ q.text⟩
  else ⟨p.text ++ "/" ++ q.text⟩

instance : Div Path := ⟨join⟩

instance : Coe String Path := ⟨Path.mk⟩

def dropIdleEnd (ps : List String) : List String :=
  (ps.reverse.dropWhile isIdle).reverse

-- The pieces up to the last that leads somewhere.
def stem (p : Path) : List String :=
  match p.isAbsolute, p.pieces with
  | false, "." :: ps => "." :: dropIdleEnd ps
  | _, ps => dropIdleEnd ps

-- The path without slashes and dots at its end.
def trimmed (p : Path) : Path :=
  ofPieces p.isAbsolute p.stem

-- The path without its last component; the root and the empty path have no parent.
def parent? (p : Path) : Option Path :=
  if p.stem.isEmpty then none
  else some (ofPieces p.isAbsolute p.stem.dropLast).trimmed

-- The path, its parent, the parent of that and so on. Each has fewer characters than the one before
-- it.
def ancestors (p : Path) : List Path :=
  go (p.text.length + 1) p
where
  go : Nat → Path → List Path
    | 0, _ => []
    | n + 1, p => p :: (p.parent?.map (go n)).getD []

-- The last component, if it is a name.
def fileName? (p : Path) : Option String :=
  match p.components.getLast? with
  | some (.normal name) => some name
  | _ => none

-- A name up to its last dot, and what follows the dot. A name that has no dot but at its start has
-- no extension.
def splitExtension (name : String) : String × Option String :=
  let cs := name.toList.reverse
  let after := cs.takeWhile (· ≠ '.')
  match cs.dropWhile (· ≠ '.') with
  | _ :: before@(_ :: _) => (.ofList before.reverse, some (.ofList after.reverse))
  | _ => (name, none)

def extension? (p : Path) : Option String :=
  p.fileName?.bind (splitExtension · |>.2)

-- Replaces all of the file name after its stem by a dot and `ext`.
def setExtension (p : Path) (ext : String) : Path :=
  match p.fileName? with
  | none => p
  | some name =>
    ofPieces p.isAbsolute (p.stem.dropLast ++ [(splitExtension name).1 ++ "." ++ ext])

-- The path with another extension. As many characters as the old one has are cut off first.
def withExtension (p : Path) (ext : String) : Path :=
  match p.extension? with
  | none => p.setExtension ext
  | some old =>
    setExtension ⟨.ofList (p.text.toList.take (p.text.length - old.length))⟩ ext

-- The pieces after the first `n` that lead somewhere.
def dropSteps : Nat → List String → List String
  | 0, ps => ps.dropWhile isIdle
  | n + 1, ps => dropSteps n (ps.dropWhile isIdle).tail

-- The rest of a path below `base`.
def stripPrefix? (p base : Path) : Option Path :=
  let steps := base.components
  if !steps.isPrefixOf p.components then none
  else if steps.isEmpty then some p.trimmed
  else
    let (n, ps) := match p.isAbsolute, p.pieces with
      | true, ps => (steps.length - 1, ps)
      | false, "." :: ps => (steps.length - 1, ps)
      | false, ps => (steps.length, ps)
    some (ofPieces false (dropIdleEnd (dropSteps n ps)))

@[simp]
theorem join_of_isAbsolute {p q : Path} (h : q.isAbsolute) : p.join q = q := by
  simp [join, h]

theorem same_refl (p : Path) : p.same p := by
  simp [same]

theorem same_iff {p q : Path} : p.same q ↔ p.components = q.components := by
  simp [same]

end Path

end StaticSite
