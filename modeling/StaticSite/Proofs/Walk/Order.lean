import StaticSite.Proofs.FileSystem.Canonical
import StaticSite.Proofs.Walk.Visits
/-!
The order of a walk over a tree that stays as it is while the walk goes on. Main statement: entries
are visited in the order of their locations, and a directory is looked into once it has been visited
(`Steady.exec_run`).
-/
namespace StaticSite.Walk

open FileSystem Action

-- Actions that do the same where `P` holds, and keep it unless they fail.
def Agree {ε α : Type} (P : World → Prop) (x y : Action ε α) : Prop :=
  ∀ w, P w → exec x w = exec y w ∧ ∀ a u, exec x w = (.ok a, u) → P u

namespace Agree

variable {ε σ α β : Type} {P : World → Prop}

theorem pure {a : α} : Agree P (pure a : Action ε α) (pure a) := by
  refine fun w hw => ⟨rfl, fun b u h => ?_⟩
  obtain rfl : w = u := (Prod.ext_iff.mp h).2
  exact hw

theorem bind {x y : Action ε α} {f g : α → Action ε β} (h : Agree P x y)
    (hf : ∀ a, Agree P (f a) (g a)) : Agree P (x >>= f) (y >>= g) := by
  intro w hw
  obtain ⟨he, hk⟩ := h w hw
  rw [exec_bind, exec_bind, ← he]
  rcases hx : exec x w with ⟨e | a, u⟩
  case error => exact ⟨rfl, by simp⟩
  case ok => exact hf a u (hk a u hx)

-- What is done for each of some things is done part by part.
theorem foldlM_flatMap {f : σ → α → Action ε σ} {g : σ → β → Action ε σ} {parts : α → List β}
    {as : List α} (h : ∀ a ∈ as, ∀ s, Agree P (f s a) ((parts a).foldlM g s)) (s : σ) :
    Agree P (as.foldlM f s) ((as.flatMap parts).foldlM g s) := by
  induction as generalizing s
  case nil => exact .pure
  case cons a as hi =>
    rw [List.foldlM_cons, List.flatMap_cons, List.foldlM_append]
    exact (h a List.mem_cons_self s).bind (hi fun a ha => h a (List.mem_cons_of_mem _ ha))

end Agree

theorem list_toPath {fs : FileSystem} {cwd l : Location} (h : fs.get? l = some .directory) :
    list fs cwd l.toPath = (checkPath l.toPath).map fun _ => (l, fs.children l) := by
  rw [list, find, resolve_toPath_eq_map h (by simp)]
  cases checkPath l.toPath <;> rfl

variable {ε σ : Type}

-- Looks into the directory at a path.
def look (tell : Error → ε) (p : Path) : Action ε Unit := do
  let w ← get
  match list w.files w.directory p with
  | .ok _ => return
  | .error e => throw (tell (.io p e))

-- Visits an entry of a tree, and looks into it if it is a directory that is not left out.
def sweepInto (tell : Error → ε) (visit : Visitor ε σ) (s : σ) (x : Location × Entry) :
    Action ε σ := do
  match ← visit x.1.toPath (x.2 = .directory) s with
  | none => return s
  | some s =>
    if x.2 = .directory then look tell x.1.toPath
    return s

-- As long as `P` holds of the world, the directories that a walk is let into are as in `fs`, and
-- can be looked into unless their paths are too long. It is let into the directories below one of
-- them that are not to skip.
structure Steady (visit : Visitor ε σ) (fs : FileSystem) (skip : Location → Bool)
    (IsOpen : Location → Prop) (P : World → Prop) : Prop where
  linkless : fs.Linkless
  list_eq {l w} : IsOpen l → P w →
    list w.files w.directory l.toPath = (checkPath l.toPath).map fun _ => (l, fs.children l)
  isOpen_concat {l name} : IsOpen l → fs.get? (l ++ [name]) = some .directory →
    skip (l ++ [name]) = false → IsOpen (l ++ [name])
  visit {l name e s w x u} : IsOpen l → P w → fs.get? (l ++ [name]) = some e →
    exec (visit (l ++ [name]).toPath (e = .directory) s) w = (.ok x, u) →
    P u ∧ (x = none ↔ skip (l ++ [name]))

namespace Steady

variable {tell : Error → ε} {visit : Visitor ε σ} {fs : FileSystem} {skip : Location → Bool}
  {IsOpen : Location → Prop} {P : World → Prop} {l k : Location} {e : Entry} {w : World}

theorem exec_look (h : Steady visit fs skip IsOpen P) (hl : IsOpen l) (hw : P w) :
    exec (look tell l.toPath) w =
      ((checkPath l.toPath).mapError fun x => tell (.io l.toPath x), w) := by
  rw [look, exec_bind_of_ok (exec_get w), h.list_eq hl hw]
  cases checkPath l.toPath <;> rfl

theorem get?_of_list {k : Location} {p : Path} {entries : List (String × Entry)}
    (h : list fs l p = .ok (k, entries)) : fs.get? k = some .directory := by
  unfold list at h
  rcases hf : fs.find l p with x | ⟨m, _ | _ | _⟩ <;>
    simp [hf, bind, Except.bind, pure, Except.pure, throw, throwThe, MonadExceptOf.throw] at h
  exact h.1 ▸ get?_of_find hf

-- There are fewer levels than a path that can be looked into has bytes.
theorem length_lt (h : Steady visit fs skip IsOpen P) (hl : IsOpen l) (hw : P w)
    (hc : checkPath l.toPath = .ok ()) : l.length < pathLimit := by
  have hg := get?_of_list ((h.list_eq hl hw).trans (by rw [hc]; rfl))
  exact (checkPath_toPath.mp hc).2.length_lt (isStraight_of_get? hg).isPlain

-- What is done with the contents of a directory is done once that can be looked into.
theorem agree_of_look {x y : Action ε σ} (h : Steady visit fs skip IsOpen P) (hl : IsOpen l)
    (he : ∀ e, checkPath l.toPath = .error e → x = throw (tell (.io l.toPath e)))
    (hx : checkPath l.toPath = .ok () → Agree P x y) :
    Agree P x (look tell l.toPath >>= fun _ => y) := by
  intro w hw
  have hlook : exec (look tell l.toPath) w = _ := h.exec_look hl hw
  cases hc : checkPath l.toPath <;> rw [hc] at hlook
  case error e =>
    rw [he e hc, exec_bind_of_error hlook]
    exact ⟨rfl, by simp⟩
  case ok =>
    rw [exec_bind_of_ok hlook]
    exact hx hc w hw

theorem agree_visitEntry (h : Steady visit fs skip IsOpen P) (hl : IsOpen l) {depth : Nat}
    {way : List Step} {x : String × Entry} (hx : x ∈ fs.children l)
    (hi : IsOpen (l ++ [x.1]) → ∀ s, Agree P
      (visitBelow tell visit depth way (l ++ [x.1]).toPath
        ((checkPath (l ++ [x.1]).toPath).map fun _ => (l ++ [x.1], fs.children (l ++ [x.1]))) s)
      (look tell (l ++ [x.1]).toPath >>= fun _ =>
        (fs.walked skip (l ++ [x.1])).foldlM (sweepInto tell visit) s)) (s : σ) :
    Agree P (visitEntry tell visit depth way l.toPath s x)
      ((fs.walkedFrom skip l x).foldlM (sweepInto tell visit) s) := by
  intro w hw
  obtain ⟨name, e⟩ := x
  have hg := mem_children.mp hx
  have hp : l.toPath / ⟨name⟩ = (l ++ [name]).toPath :=
    (isStraight_of_get? (get?_concat hg).2).isPlain.toPath_div_name (get?_concat hg).1.isStep
  have hv (x u) := h.visit (s := s) (x := x) (u := u) hl hw hg
  rw [visitEntry, exec_bind_of_ok (exec_get w), walkedFrom, List.foldlM_cons, sweepInto, bind_assoc]
  dsimp only at hi hv ⊢
  rw [hp]
  cases e
  case link target => exact absurd hg (h.linkless _ _)
  case file contents =>
    rw [enter_file, orThrow, pure_bind, exec_bind, exec_bind]
    rcases hy : exec (visit (l ++ [name]).toPath false s) w with ⟨e | x, u⟩
    case error => simp [Found.isDirectory, hy]
    case ok =>
      obtain ⟨hu, -⟩ := hv x u hy
      have he : fs.walked skip (l ++ [name]) = [] := walked_of_not_directory (by simp [hg])
      cases x <;> simp_all [Found.isDirectory]
  case directory =>
    rw [show enter w.files w.directory way (l ++ [name]).toPath .directory =
      .ok (.directory (list w.files w.directory (l ++ [name]).toPath)) from rfl, orThrow, pure_bind,
      exec_bind, exec_bind]
    rcases hy : exec (visit (l ++ [name]).toPath true s) w with ⟨e | _ | s', u⟩
    case error => simp [Found.isDirectory, hy]
    case ok.none =>
      obtain ⟨hu, hs⟩ := hv none u hy
      have hs : skip (l ++ [name]) = true := hs.mp rfl
      simp_all [Found.isDirectory]
    case ok.some =>
      obtain ⟨hu, hs⟩ := hv (some s') u hy
      have hs : skip (l ++ [name]) = false := by simpa using hs
      have ho := h.isOpen_concat hl hg hs
      simpa [Found.isDirectory, hy, h.list_eq ho hw, hs] using hi ho s' u hu

theorem agree_visitBelow (h : Steady visit fs skip IsOpen P) (hl : IsOpen l) {depth : Nat}
    {way : List Step} (hd : pathLimit ≤ l.length + depth) (s : σ) :
    Agree P (visitBelow tell visit depth way l.toPath
        ((checkPath l.toPath).map fun _ => (l, fs.children l)) s)
      (look tell l.toPath >>= fun _ => (fs.walked skip l).foldlM (sweepInto tell visit) s) := by
  have he (depth way) (s : σ) {l} (x) (hc : checkPath l.toPath = .error x) :
      visitBelow tell visit depth way l.toPath
        ((checkPath l.toPath).map fun _ => (l, fs.children l)) s =
          throw (tell (.io l.toPath x)) := by
    rw [hc, Except.map, visitBelow]
  induction depth generalizing l way s
  case zero =>
    refine h.agree_of_look hl (he 0 way s) fun hc w hw => ?_
    exact absurd (h.length_lt hl hw hc) (Nat.not_lt.mpr hd)
  case succ depth hi =>
    refine h.agree_of_look hl (he (depth + 1) way s) fun hc => ?_
    rw [hc, walked_eq_flatMap]
    refine Agree.foldlM_flatMap (f := visitEntry tell visit depth (⟨l.toPath, l⟩ :: way) l.toPath)
      (fun x hx => h.agree_visitEntry hl hx fun ho => hi ho ?_) s
    rw [List.length_append, List.length_singleton]
    omega

-- A walk over a tree that stays as it is visits its entries one after another.
theorem exec_run (h : Steady visit fs skip IsOpen P) (hl : IsOpen l) (hw : P w) (s : σ)
    (hs : w.files.resolve w.directory false l.toPath =
      (checkPath l.toPath).map fun _ => .entry l .directory) :
    exec (run tell visit l.toPath s) w =
      exec (look tell l.toPath >>= fun _ => (fs.walked skip l).foldlM (sweepInto tell visit) s)
        w := by
  have hd : start w.files w.directory l.toPath = match checkPath l.toPath with
      | .ok _ => .ok (.directory (.ok (l, fs.children l)))
      | .error e => .error (.io l.toPath e) := by
    rw [start, hs]
    cases hc : checkPath l.toPath
    case error => rfl
    case ok =>
      have he := h.list_eq hl hw
      rw [hc] at he
      exact congrArg (fun x => Except.ok (Found.directory x)) he
  rw [run, exec_bind_of_ok (exec_get w), hd]
  have hb : Agree P (visitBelow tell visit pathLimit [] l.toPath
      ((checkPath l.toPath).map fun _ => (l, fs.children l)) s) _ :=
    h.agree_visitBelow hl (Nat.le_add_left _ _) s
  have hb := hb w hw
  cases hc : checkPath l.toPath <;> rw [hc] at hb
  case error =>
    rw [← hb.1, Except.map, visitBelow]
    rfl
  case ok => exact hb.1

end Steady

end StaticSite.Walk
