import StaticSite.FileSystem.Walk
import StaticSite.Proofs.Execution
import StaticSite.Proofs.FileSystem.Children
import StaticSite.Proofs.FileSystem.Steps
import StaticSite.Proofs.Path.Below
/-!
The visits of a walk, one after another. Main statements: they lead from the world that the walk
starts in to the one that it leaves (`course_visits`), each is below the directory that the walk
starts at, and no path is visited twice (`tidy_visits`).
-/
namespace StaticSite.Walk

open FileSystem

variable {ε σ α : Type}

-- An entry that a walk has come to, before anything is done with it.
structure Visit (σ : Type) where
  path : Path
  isDirectory : Bool
  state : σ
  world : World

def Visit.exec (visit : Visitor ε σ) (v : Visit σ) : Except ε (Option σ) × World :=
  Action.exec (visit v.path v.isDirectory v.state) v.world

section

variable (tell : Error → ε) (visit : Visitor ε σ)

-- What a walk does with one entry of a directory.
def visitEntry (depth : Nat) (way : List Step) (dir : Path) (s : σ) (x : String × Entry) :
    Action ε σ := do
  let p := dir / ⟨x.1⟩
  let w ← get
  let found ← orThrow tell (enter w.files w.directory way p x.2)
  match ← visit p found.isDirectory s with
  | none => return s
  | some s => match found with
    | .file => return s
    | .directory contents => visitBelow tell visit depth way p contents s

-- The visits that the steps of a fold make, as long as no step fails.
def visitsAlong (f : σ → α → Action ε σ) (visits : σ → World → α → List (Visit σ)) :
    List α → σ → World → List (Visit σ)
  | [], _, _ => []
  | a :: as, s, w => visits s w a ++ match Action.exec (f s a) w with
    | (.ok s, w) => visitsAlong f visits as s w
    | (.error _, _) => []

def visitsBelow : Nat → List Step → Path → Listing → σ → World → List (Visit σ)
  | depth + 1, way, dir, .ok (location, entries), s, w =>
    visitsAlong (visitEntry tell visit depth (⟨dir, location⟩ :: way) dir)
      (fun s w x => match enter w.files w.directory (⟨dir, location⟩ :: way) (dir / ⟨x.1⟩) x.2 with
        | .error _ => []
        | .ok found =>
          let v : Visit σ := ⟨dir / ⟨x.1⟩, found.isDirectory, s, w⟩
          v :: match found, v.exec visit with
            | .directory contents, (.ok (some s), w) =>
              visitsBelow depth (⟨dir, location⟩ :: way) (dir / ⟨x.1⟩) contents s w
            | _, _ => [])
      entries s w
  | _, _, _, _, _, _ => []

-- The visits of a walk that starts in the world `w`.
def visits (p : Path) (s : σ) (w : World) : List (Visit σ) :=
  match start w.files w.directory p with
  | .ok (.directory contents) => visitsBelow tell visit pathLimit [] p contents s w
  | _ => []

-- Visits each of which starts where the one before has led to. The last leads to the end, unless
-- the walk fails by itself.
inductive Course : σ → World → List (Visit σ) → Except ε σ × World → Prop
  | done {s w} : Course s w [] (.ok s, w)
  | lost {s w e} : Course s w [] (.error e, w)
  | failed {v : Visit σ} {e w} (h : v.exec visit = (.error e, w)) :
    Course v.state v.world [v] (.error e, w)
  | step {v : Visit σ} {x w vs r} (h : v.exec visit = (.ok x, w))
    (hs : Course (x.getD v.state) w vs r) : Course v.state v.world (v :: vs) r

end

variable {tell : Error → ε} {visit : Visitor ε σ} {s s' : σ} {w u : World}
  {vs vs' : List (Visit σ)} {r : Except ε σ × World}

theorem Course.append (h : Course visit s w vs (.ok s', u)) (h' : Course visit s' u vs' r) :
    Course visit s w (vs ++ vs') r := by
  generalize he : (Except.ok s', u) = x at h
  induction h
  case done =>
    obtain ⟨rfl, rfl⟩ : s' = _ ∧ u = _ := by simpa using he
    exact h'
  case lost => simp at he
  case failed => simp at he
  case step hv _ hi => exact .step hv (hi he)

theorem course_visitsAlong {f : σ → α → Action ε σ} {visits : σ → World → α → List (Visit σ)}
    (hf : ∀ s w a, Course visit s w (visits s w a) (Action.exec (f s a) w)) {as : List α} :
    Course visit s w (visitsAlong f visits as s w) (Action.exec (as.foldlM f s) w) := by
  induction as generalizing s w
  case nil => exact .done
  case cons a as hi =>
    have ha := hf s w a
    rw [List.foldlM_cons, Action.exec_bind, visitsAlong]
    rcases he : Action.exec (f s a) w with ⟨e | s', u⟩ <;> rw [he] at ha
    case error => simpa using ha
    case ok => exact ha.append hi

theorem course_visitsBelow {depth : Nat} {way : List Step} {dir : Path} {listing : Listing} :
    Course visit s w (visitsBelow tell visit depth way dir listing s w)
      (Action.exec (visitBelow tell visit depth way dir listing s) w) := by
  induction depth generalizing way dir listing s w
  case zero => rcases listing with e | ⟨l, entries⟩ <;> exact .lost
  case succ depth hi =>
    rcases listing with e | ⟨l, entries⟩
    case error => exact .lost
    case ok =>
      apply course_visitsAlong (f := visitEntry tell visit depth (⟨dir, l⟩ :: way) dir)
      intro s w ⟨name, e⟩
      rw [visitEntry, Action.exec_bind_of_ok (Action.exec_get w)]
      dsimp only
      cases he : enter w.files w.directory (⟨dir, l⟩ :: way) (dir / ⟨name⟩) e
      case error => exact .lost
      case ok found =>
        dsimp only
        rw [orThrow, Action.exec_bind_of_ok (Action.exec_pure found w), Action.exec_bind]
        generalize hv : (⟨dir / ⟨name⟩, found.isDirectory, s, w⟩ : Visit σ) = v
        have hx : Action.exec (visit (dir / ⟨name⟩) found.isDirectory s) w = v.exec visit := by
          rw [← hv]
          rfl
        obtain rfl : v.state = s := by rw [← hv]
        obtain rfl : v.world = w := by rw [← hv]
        rw [hx]
        rcases hy : v.exec visit with ⟨e | _ | s', u⟩
        case error => cases found <;> exact .failed hy
        case ok.none => cases found <;> exact .step hy .done
        case ok.some =>
          cases found
          case file => exact .step hy .done
          case directory => exact .step hy hi

theorem course_visits {p : Path} :
    Course visit s w (visits tell visit p s w) (Action.exec (run tell visit p s) w) := by
  rw [run, Action.exec_bind_of_ok (Action.exec_get w), visits]
  rcases start w.files w.directory p with e | _ | contents
  case error => exact .lost
  case ok.file => exact .done
  case ok.directory => exact course_visitsBelow

namespace Course

variable {R : World → World → Prop} [Std.Refl R] [IsTrans World R]

-- What every visit keeps, the walk keeps.
theorem keeps (h : Course visit s w vs r) (hr : ∀ v ∈ vs, R v.world (v.exec visit).2) :
    R w r.2 := by
  induction h
  case done => exact Std.Refl.refl _
  case lost => exact Std.Refl.refl _
  case failed v _ _ hv =>
    have := hr v (by simp)
    rwa [hv] at this
  case step v _ _ _ _ hv _ hi =>
    have := hr v (by simp)
    rw [hv] at this
    exact IsTrans.trans _ _ _ this (hi fun v hv => hr v (List.mem_cons_of_mem _ hv))

-- A visit is made in the world that the visits before it have led to.
theorem keeps_of_append {v : Visit σ} {done rest : List (Visit σ)}
    (h : Course visit s w (done ++ v :: rest) r)
    (hr : ∀ v ∈ done, R v.world (v.exec visit).2) : R w v.world := by
  induction done generalizing s w
  case nil =>
    cases h
    case failed => exact Std.Refl.refl _
    case step => exact Std.Refl.refl _
  case cons u done hi =>
    rw [List.cons_append] at h
    generalize he : done ++ v :: rest = vs at h
    cases h
    case failed => simp at he
    case step x t hu ht =>
      have hw := hr u List.mem_cons_self
      rw [hu] at hw
      exact IsTrans.trans _ _ _ hw (hi (he ▸ ht) fun v hv => hr v (List.mem_cons_of_mem _ hv))

-- If the walk succeeds, so do its visits, and what one leads to stays to the end.
theorem exec_of_mem {v : Visit σ} (h : Course visit s w vs (.ok s', u))
    (hr : ∀ v ∈ vs, R v.world (v.exec visit).2) (hv : v ∈ vs) :
    ∃ x t, v.exec visit = (.ok x, t) ∧ R t u := by
  generalize hx : (Except.ok s', u) = y at h
  induction h
  case done => simp at hv
  case lost => simp at hx
  case failed => simp at hx
  case step v' x t vs y he ht hi =>
    have hs := fun v hv => hr v (List.mem_cons_of_mem _ hv)
    rcases List.mem_cons.mp hv with rfl | hv
    case inl =>
      refine ⟨x, t, he, ?_⟩
      have := ht.keeps hs
      rwa [← hx] at this
    case inr => exact hi hs hv hx

-- The first visit that fails is the last, and the walk fails as it does.
theorem eq_of_exec_eq_error {v : Visit σ} {e : ε} (h : Course visit s w vs r) (hv : v ∈ vs)
    (he : v.exec visit = (.error e, u)) : r = (.error e, u) := by
  induction h
  case done => simp at hv
  case lost => simp at hv
  case failed v' e' w' hv' =>
    obtain rfl : v = v' := by simpa using hv
    obtain ⟨rfl, rfl⟩ : e' = e ∧ w' = u := by simpa using hv'.symm.trans he
    rfl
  case step v' x w' vs r hv' _ hi =>
    rcases List.mem_cons.mp hv with rfl | hv
    case inl => simp [hv'] at he
    case inr => exact hi hv

-- What grows by one with certain visits counts these in the end.
theorem countP_eq {f : σ → Nat} {p : Visit σ → Bool} (h : Course visit s w vs (.ok s', u))
    (hf : ∀ v ∈ vs, ∀ x t, v.exec visit = (.ok x, t) →
      f (x.getD v.state) = f v.state + if p v then 1 else 0) : f s' = f s + vs.countP p := by
  generalize hx : (Except.ok s', u) = y at h
  induction h
  case done s w =>
    obtain ⟨rfl, -⟩ : s' = s ∧ u = w := by simpa using hx
    simp
  case lost => simp at hx
  case failed => simp at hx
  case step v x t vs y he _ hi =>
    rw [hi (fun v hv => hf v (List.mem_cons_of_mem _ hv)) hx, hf v List.mem_cons_self x t he,
      List.countP_cons, Nat.add_assoc, Nat.add_comm (vs.countP p)]

end Course

section

variable {fs : FileSystem} {cwd l : Location} {p : Path} {entries : List (String × Entry)}
  {way : List Step} {e : Entry} {contents : Listing}

theorem list_eq_ok (h : list fs cwd p = .ok (l, entries)) :
    fs.find cwd p = .ok (l, .directory) ∧ entries = fs.children l := by
  unfold list at h
  rcases hf : fs.find cwd p with x | ⟨k, _ | _ | _⟩ <;>
    simp only [hf, bind, Except.bind, pure, Except.pure, throw, throwThe, MonadExceptOf.throw,
      reduceCtorEq, Except.ok.injEq, Prod.mk.injEq] at h
  obtain ⟨rfl, rfl⟩ := h
  exact ⟨rfl, rfl⟩

theorem enter_eq_directory (h : enter fs cwd way p e = .ok (.directory contents)) :
    contents = list fs cwd p := by
  unfold enter at h
  split at h
  case h_1 => simp at h
  case h_2 => simpa using h.symm
  case h_3 =>
    split at h
    case h_1 => simp at h
    case h_2 => split at h <;> simp_all
    case h_3 => simp at h

theorem start_eq_directory (h : start fs cwd p = .ok (.directory contents)) :
    contents = list fs cwd p := by
  unfold start at h
  split at h
  case h_1 => simp at h
  case h_2 => simp at h
  case h_3 => exact enter_eq_directory h

end

-- Visits below the entries of a directory with certain names. `P` holds of the directories that
-- stand between.
structure Tidy (P : Path → Prop) (dir : Path) (names : String → Prop)
    (vs : List (Visit σ)) : Prop where
  below : ∀ v ∈ vs, ∃ (name : String) (r : Location), names name ∧
    (∀ n ∈ name :: r, IsName n) ∧ v.path = dir / Location.toRelative (name :: r) ∧
    ∀ k, k <+: r → k ≠ r → P (dir / Location.toRelative (name :: k))
  nodup : (vs.map Visit.path).Nodup

namespace Tidy

variable {P : Path → Prop} {dir : Path} {name : String} {names names' : String → Prop}
  {v : Visit σ}

theorem nil : Tidy P dir names ([] : List (Visit σ)) where
  below := by simp
  nodup := .nil

theorem mono (h : Tidy P dir names vs) (hn : ∀ name, names name → names' name) :
    Tidy P dir names' vs where
  below v hv := by
    obtain ⟨name, r, hm, h⟩ := h.below v hv
    exact ⟨name, r, hn name hm, h⟩
  nodup := h.nodup

theorem append (h : Tidy P dir names vs) (h' : Tidy P dir names' vs')
    (hn : ∀ name, names name → ¬names' name) :
    Tidy P dir (fun name => names name ∨ names' name) (vs ++ vs') where
  below v hv := by
    cases List.mem_append.mp hv
    case inl hv => exact (h.mono fun _ => .inl).below v hv
    case inr hv => exact (h'.mono fun _ => .inr).below v hv
  nodup := by
    rw [List.map_append]
    refine List.nodup_append.mpr ⟨h.nodup, h'.nodup, ?_⟩
    simp only [List.mem_map]
    rintro - ⟨v, hv, rfl⟩ - ⟨v', hv', rfl⟩ he
    obtain ⟨name, r, hm, hs, hp, -⟩ := h.below v hv
    obtain ⟨name', r', hm', hs', hp', -⟩ := h'.below v' hv'
    rw [hp, hp', Path.below_inj (fun n hn => (hs n hn).isStep) (fun n hn => (hs' n hn).isStep)
      (by simp) (by simp), List.cons.injEq] at he
    exact hn name hm (he.1 ▸ hm')

-- A directory is visited before what is in it.
theorem cons (hn : IsName name) (hv : v.path = dir / ⟨name⟩)
    (h : Tidy P (dir / ⟨name⟩) names vs) (hp : vs ≠ [] → P (dir / ⟨name⟩)) :
    Tidy P dir (· = name) (v :: vs) where
  below u hu := by
    rcases List.mem_cons.mp hu with rfl | hu
    case inl => exact ⟨name, [], rfl, by simpa using hn, hv.trans Path.below_name, by simp⟩
    case inr =>
      obtain ⟨m, r, -, hs, hr, hk⟩ := h.below u hu
      have hs' : ∀ n ∈ name :: m :: r, IsName n := List.forall_mem_cons.mpr ⟨hn, hs⟩
      have hb (k : Location) (hk : k <+: r) : dir / ⟨name⟩ / Location.toRelative (m :: k) =
          dir / Location.toRelative (name :: m :: k) := by
        have hm : ∀ n ∈ m :: k, IsName n := fun n hn =>
          hs n (List.cons_subset_cons m hk.subset hn)
        have hn : Location.IsPlain [name] := Location.IsPlain.nil.concat hn.isStep
        have hk : Location.IsPlain (m :: k) := fun n hn => (hm n hn).isStep
        rw [Path.below_name (p := dir), Path.below_below hn hk (by simp) (by simp),
          List.singleton_append]
      refine ⟨name, m :: r, rfl, hs', hr.trans (hb r (List.prefix_refl r)), fun k hp' hne => ?_⟩
      cases k
      case nil => exact Path.below_name (p := dir) ▸ hp (List.ne_nil_of_mem hu)
      case cons n k =>
        obtain ⟨rfl, hq⟩ := List.cons_prefix_cons.mp hp'
        exact hb k hq ▸ hk k hq fun he => hne (he ▸ rfl)
  nodup := by
    refine List.nodup_cons.mpr ⟨?_, h.nodup⟩
    simp only [List.mem_map]
    rintro ⟨u, hu, he⟩
    obtain ⟨m, r, -, hs, hr, -⟩ := h.below u hu
    have hm : Location.IsPlain (m :: r) := fun n hn => (hs n hn).isStep
    have hk : Location.IsPlain [name] := Location.IsPlain.nil.concat hn.isStep
    rw [hr, hv, Path.below_name (p := dir), Path.below_below hk hm (by simp) (by simp),
      Path.below_inj (hk.append hm) hk (by simp) (by simp)] at he
    simp at he

end Tidy

theorem tidy_visitsAlong {P : Path → Prop} {dir : Path}
    {f : σ → String × Entry → Action ε σ} {visits : σ → World → String × Entry → List (Visit σ)}
    {entries : List (String × Entry)}
    (hf : ∀ s w, ∀ x ∈ entries, Tidy P dir (· = x.1) (visits s w x))
    (hn : (entries.map (·.1)).Nodup) :
    Tidy P dir (· ∈ entries.map (·.1)) (visitsAlong f visits entries s w) := by
  induction entries generalizing s w
  case nil => exact .nil
  case cons x entries hi =>
    obtain ⟨hx, hn⟩ := List.nodup_cons.mp hn
    have ha := hf s w x List.mem_cons_self
    have hs (s w) := hi (s := s) (w := w) (fun s w x hx => hf s w x (List.mem_cons_of_mem _ hx)) hn
    have hr : Tidy P dir (· ∈ entries.map (·.1)) (match Action.exec (f s x) w with
        | (.ok s, w) => visitsAlong f visits entries s w
        | (.error _, _) => []) := by
      split
      · exact hs _ _
      · exact .nil
    refine (ha.append hr ?_).mono fun name hm => by simpa using hm
    rintro name rfl
    exact hx

theorem tidy_visitsBelow {P : Path → Prop} {dir : Path}
    (hP : ∀ p d s w x u, Action.exec (visit p d s) w = (.ok (some x), u) → P p)
    {depth : Nat} {way : List Step} {fs : FileSystem} {cwd : Location} :
    Tidy P dir (fun _ => True)
      (visitsBelow tell visit depth way dir (list fs cwd dir) s w) := by
  induction depth generalizing dir way fs cwd s w
  case zero => exact .nil
  case succ depth hi =>
    rcases hl : list fs cwd dir with e | ⟨l, entries⟩
    case error => exact .nil
    case ok =>
      obtain ⟨-, rfl⟩ := list_eq_ok hl
      refine (tidy_visitsAlong (fun s w x hx => ?_) nodup_children).mono fun _ _ => trivial
      have hx : IsName x.1 := (get?_concat (mem_children.mp hx)).1
      dsimp only
      split
      case h_1 => exact .nil
      case h_2 found hf =>
        refine Tidy.cons hx rfl (?_ : Tidy P _ (fun _ => True) _) fun hv => ?_
        · split
          case h_1 =>
            obtain rfl := enter_eq_directory hf
            exact hi
          case h_2 => exact .nil
        · split at hv
          case h_1 h => exact hP _ _ _ _ _ _ h
          case h_2 => exact absurd rfl hv

-- The visits of a walk are below the directory it starts at, and no path is visited twice.
theorem tidy_visits {P : Path → Prop} {dir : Path}
    (hP : ∀ p d s w x u, Action.exec (visit p d s) w = (.ok (some x), u) → P p) :
    Tidy P dir (fun _ => True) (visits tell visit dir s w) := by
  unfold visits
  split
  case h_1 contents h =>
    obtain rfl := start_eq_directory h
    exact tidy_visitsBelow hP
  case h_2 => exact .nil

end StaticSite.Walk
