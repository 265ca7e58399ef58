import StaticSite.Disk
import StaticSite.Proofs.FileSystem.Growth
/-!
What operations on the disk change, whatever paths they are given. Main statements: an operation
puts at most one entry (`create_cases`, `write_cases`), and none of those that a build uses takes
anything away (`keeps_makeDirectories`, `keeps_write`, `keeps_copy`).
-/
namespace StaticSite

def World.put (w : World) (dir : Location) (name : String) (e : Entry) : World :=
  { w with files := w.files.put dir name e }

namespace World

variable {w : World} {dir : Location} {name : String}

theorem grows_put {e : Entry} (h : ∀ x, w.files.get? (dir ++ [name]) = some x → x.SameKind e) :
    w.Grows (w.put dir name e) :=
  ⟨.put h, rfl⟩

theorem addsDirectories_put (h : w.files.get? (dir ++ [name]) = none) :
    w.AddsDirectories (· = dir ++ [name]) (w.put dir name .directory) :=
  ⟨.put h, rfl⟩

end World

namespace Disk

open FileSystem Action

variable {p : Path} {w v : World} {e : Entry} {contents : ByteArray}

@[simp]
theorem exec_ask {α : Type} (question : FileSystem → Location → Except IoError α) (w : World) :
    exec (ask question) w = (question w.files w.directory, w) := by
  unfold ask
  rw [exec_bind_of_ok (exec_get w)]
  rcases question w.files w.directory with _ | _ <;> rfl

@[simp]
theorem exec_change (f : FileSystem → FileSystem) (w : World) :
    exec (change f) w = (.ok (), { w with files := f w.files }) :=
  rfl

theorem exec_ensureDirectory (p : Path) (w : World) :
    exec (ensureDirectory p) w = match exec (makeDirectory p) w with
      | (.ok (), v) => (.ok (), v)
      | (.error e, v) => if isDirectory p v then (.ok (), v) else (.error e, v) := by
  rw [ensureDirectory, exec_tryCatch]
  rcases exec (makeDirectory p) w with ⟨e | _, v⟩
  case ok => rfl
  case error =>
    dsimp only
    rw [exec_bind_of_ok (exec_get v)]
    split <;> rfl

theorem isEntry_iff : isEntry p w ↔ ∃ l e, w.files.find w.directory p = .ok (l, e) := by
  unfold isEntry isNamed
  rcases w.files.find w.directory p with _ | ⟨l, e⟩ <;> simp

theorem isDirectory_iff :
    isDirectory p w ↔ ∃ l, w.files.find w.directory p = .ok (l, .directory) := by
  unfold isDirectory isNamed
  rcases w.files.find w.directory p with _ | ⟨l, e⟩ <;> simp

theorem isFile_iff :
    isFile p w ↔ ∃ l c, w.files.find w.directory p = .ok (l, .file c) := by
  unfold isFile isNamed
  rcases w.files.find w.directory p with _ | ⟨l, _ | _ | _⟩ <;> simp

-- The canonical path of a directory is that of its location.
theorem exec_canonical_eq_ok {q : Path} {u : World} :
    exec (canonical p) w = (.ok q, u) ↔
      u = w ∧ ∃ l e, w.files.find w.directory p = .ok (l, e) ∧ q = l.toPath := by
  rw [canonical, exec_bind, exec_ask]
  rcases w.files.find w.directory p with x | ⟨l, e⟩
  case error => simp
  case ok =>
    simp only [exec_pure, Prod.mk.injEq, Except.ok.injEq]
    constructor
    · rintro ⟨rfl, rfl⟩
      exact ⟨rfl, l, e, ⟨rfl, rfl⟩, rfl⟩
    · rintro ⟨rfl, _, _, ⟨rfl, rfl⟩, rfl⟩
      exact ⟨rfl, rfl⟩

theorem exec_create (p : Path) (e : Entry) (w : World) :
    exec (create p e) w = match w.files.resolveLast w.directory p with
      | .ok (.name dir name) =>
        if (w.files.get? (dir ++ [name])).isSome then (.error .alreadyExists, w)
        else (.ok (), w.put dir name e)
      | .ok _ => (.error .alreadyExists, w)
      | .error x => (.error x, w) := by
  rw [create, exec_bind, exec_ask]
  rcases w.files.resolveLast w.directory p with x | ⟨_ | _ | ⟨dir, name⟩⟩
  case ok.name =>
    dsimp only
    rw [exec_bind_of_ok (exec_get w)]
    split <;> rfl
  all_goals rfl

theorem create_cases (p : Path) (e : Entry) (w : World) :
    (∃ x, exec (create p e) w = (.error x, w)) ∨
      ∃ dir name, w.files.resolveLast w.directory p = .ok (.name dir name) ∧
        w.files.get? (dir ++ [name]) = none ∧ exec (create p e) w = (.ok (), w.put dir name e) := by
  rw [exec_create]
  rcases w.files.resolveLast w.directory p with x | ⟨_ | _ | ⟨dir, name⟩⟩
  case ok.name =>
    cases hd : w.files.get? (dir ++ [name])
    case none => exact .inr ⟨dir, name, rfl, hd, by simp [hd]⟩
    case some => exact .inl ⟨.alreadyExists, by simp [hd]⟩
  all_goals exact .inl ⟨_, rfl⟩

theorem create_eq_error {x : IoError} (h : exec (create p e) w = (.error x, v)) :
    w.files.resolveLast w.directory p = .error x ∨ x = .alreadyExists := by
  rw [exec_create] at h
  split at h
  case h_1 => split at h <;> simp_all
  case h_2 => simp_all
  case h_3 => simp_all

theorem write_cases (p : Path) (contents : ByteArray) (w : World) :
    (∃ x, exec (write p contents) w = (.error x, w)) ∨
      ∃ dir name, ((∃ old, w.files.resolve w.directory true p =
          .ok (.entry (dir ++ [name]) (.file old))) ∨
        w.files.resolve w.directory true p = .ok (.vacant dir name false)) ∧
        exec (write p contents) w = (.ok (), w.put dir name (.file contents)) := by
  unfold write
  rw [exec_bind, exec_ask]
  rcases h : w.files.resolve w.directory true p with x | ⟨⟨l, _ | old | _⟩ | ⟨dir, name, _ | _⟩⟩
  case ok.entry.file =>
    have hl := get?_of_resolve h
    obtain rfl | ⟨dir, name, rfl⟩ := List.eq_nil_or_concat' l
    case inl => simp at hl
    case inr =>
      refine .inr ⟨dir, name, .inl ⟨old, by simp⟩, ?_⟩
      simp [replace, World.put]
  case ok.vacant.false => exact .inr ⟨dir, name, .inr rfl, rfl⟩
  all_goals exact .inl ⟨_, rfl⟩

theorem makeDirectories_of_ensureDirectory (hp : p.components.isEmpty = false)
    (h : exec (ensureDirectory p) w = (.ok (), v)) :
    exec (makeDirectories p) w = (.ok (), v) := by
  have ha : p.ancestors = p :: (p.parent?.map (Path.ancestors.go p.text.length)).getD [] := rfl
  rw [makeDirectories, ha, makeAncestors, if_neg (by simp [hp]), exec_tryCatch, h]

section

variable {R : World → World → Prop} [Std.Refl R]

theorem keeps_ask {α : Type} (question : FileSystem → Location → Except IoError α) :
    Keeps R (ask question) :=
  fun w => by simpa using Std.Refl.refl w

variable [IsTrans World R]

theorem keeps_canonical : Keeps R (canonical p) :=
  (keeps_ask _).bind fun _ => .pure _

theorem keeps_ensureDirectory (hr : Keeps R (makeDirectory p)) : Keeps R (ensureDirectory p) := by
  unfold ensureDirectory
  refine hr.tryCatch fun e => Keeps.get.bind fun w => ?_
  split
  · exact .pure ()
  · exact .throw e

theorem keeps_makeAncestors {ps : List Path} (hr : ∀ p ∈ ps, Keeps R (makeDirectory p)) :
    Keeps R (makeAncestors ps) := by
  induction ps
  case nil => exact .throw _
  case cons p ps hi =>
    have hp := keeps_ensureDirectory (hr p List.mem_cons_self)
    have hs := hi fun q hq => hr q (List.mem_cons_of_mem _ hq)
    unfold makeAncestors
    split
    · exact .pure ()
    · apply hp.tryCatch
      intro e
      split
      · exact hs.bind fun _ => hp
      · exact .throw e

end

theorem keeps_makeDirectory : Keeps (World.AddsDirectories fun _ => True) (makeDirectory p) := by
  intro w
  rcases create_cases p .directory w with ⟨x, h⟩ | ⟨dir, name, -, hn, h⟩ <;>
    rw [makeDirectory, h]
  · exact Std.Refl.refl w
  · exact ⟨(World.addsDirectories_put hn).1.mono fun _ _ => trivial, rfl⟩

theorem keeps_makeDirectories :
    Keeps (World.AddsDirectories fun _ => True) (makeDirectories p) :=
  keeps_makeAncestors fun _ _ => keeps_makeDirectory

-- A file takes the place of a file, or of nothing.
theorem keeps_write : Keeps World.Grows (write p contents) := by
  intro w
  rcases write_cases p contents w with ⟨x, h⟩ | ⟨dir, name, hr, h⟩ <;> rw [h]
  · exact Std.Refl.refl w
  · apply World.grows_put
    intro x hx
    rcases hr with ⟨old, hr⟩ | hr
    · rw [get?_of_resolve hr] at hx
      obtain rfl := Option.some.inj hx
      trivial
    · rw [(get?_of_resolve_vacant hr).2] at hx
      simp at hx

theorem keeps_copy {source target : Path} : Keeps World.Grows (copy source target) := by
  refine (keeps_ask _).bind fun x => ?_
  split
  · refine keeps_write.bind fun _ => Keeps.get.bind fun w => ?_
    split
    · exact keeps_write
    · exact .pure ()
  · exact .throw _

end Disk

end StaticSite
