import StaticSite.Proofs.FileSystem.Links
import StaticSite.Proofs.Skeleton.Create
/-!
Creating a new site where its paths are taken. Main statement: a site is never created over what is
there, and it is refused before anything is changed unless all that is there is links that lead
nowhere (`refused_iff`).
-/
namespace StaticSite.Skeleton

open FileSystem Action

variable {root p : Path} {text : String} {x : Path × String} {xs : List (Path × String)}
  {w u v : World}

-- The name at the end of a path is taken, be it by a link that leads nowhere.
def IsOccupied (w : World) (p : Path) : Prop :=
  ∃ l e, w.files.resolve w.directory false p = .ok (.entry l e)

-- The name at the end of a path is that of a link that leads nowhere.
def IsDangling (w : World) (p : Path) : Prop :=
  (∃ l target, w.files.resolve w.directory false p = .ok (.entry l (.link target))) ∧
    ∀ l e, w.files.find w.directory p ≠ .ok (l, e)

theorem isEntry_iff_isOccupied : Disk.isEntry p w ↔ IsOccupied w p ∧ ¬IsDangling w p := by
  rw [Disk.isEntry_iff]
  constructor
  · rintro ⟨l, e, hf⟩
    refine ⟨?_, fun hd => hd.2 l e hf⟩
    rcases resolve_follow_cases w.files w.directory p with ⟨k, t, h⟩ | h
    case inl => exact ⟨k, .link t, h⟩
    case inr => exact ⟨l, e, h.trans (find_eq_ok.mp hf)⟩
  · rintro ⟨⟨l, e, ho⟩, hd⟩
    rcases resolve_follow_cases w.files w.directory p with ⟨k, t, h⟩ | h
    case inl =>
      by_contra hf
      exact hd ⟨⟨k, t, h⟩, fun l e he => hf ⟨l, e, he⟩⟩
    case inr => exact ⟨l, e, find_eq_ok.mpr (h.symm.trans ho)⟩

theorem IsOccupied.of_creates (h : IsOccupied w p) (hc : Creates xs w v) : IsOccupied v p := by
  obtain ⟨l, e, h⟩ := h
  obtain ⟨e', hv, -⟩ := hc.grows.1.resolve h
  exact ⟨l, e', hc.directory_eq ▸ hv⟩

-- A file is not created in place of anything.
theorem not_isOccupied_of_writeNew (h : exec (writeNew x.1 x.2) w = (.ok (), v)) :
    ¬IsOccupied w x.1 := by
  rw [writeNew_eq] at h
  obtain ⟨_, u, hm, hc⟩ := exec_bind_eq_ok.mp h
  intro ho
  obtain ⟨l, e, ho⟩ := ho.of_creates (creates_makeParent hm)
  obtain ⟨dir, name, hr, hn, -⟩ := Disk.create_eq_ok hc
  exact get?_ne_none_of_resolve ho hr hn

theorem not_isOccupied_of_createFile (h : exec (createFile x) w = (.ok (), v)) :
    ¬IsOccupied w x.1 := by
  obtain ⟨_, u, hw, -⟩ := exec_bind_eq_ok.mp h
  exact not_isOccupied_of_writeNew (exec_orElseThrow_eq_ok.mp hw)

theorem not_isOccupied_of_forM (hp : ∀ x ∈ xs, x.1.pieces.getLast? ≠ some "")
    (h : exec (forM xs createFile) w = (.ok (), v)) : ∀ x ∈ xs, ¬IsOccupied w x.1 := by
  induction xs generalizing w
  case nil => simp
  case cons x xs hi =>
    rw [List.forM_cons] at h
    obtain ⟨hx, hxs⟩ := List.forall_mem_cons.mp hp
    obtain ⟨_, u, hu, h⟩ := exec_bind_eq_ok.mp h
    refine List.forall_mem_cons.mpr ⟨not_isOccupied_of_createFile hu, fun y hy ho => ?_⟩
    exact hi hxs h y hy (ho.of_creates (creates_createFile hx hu).1)

-- If a file cannot be created, that is told with its path.
theorem throws_forM :
    Throws (fun e => ∃ x ∈ xs, ∃ y, e = Error.io x.1 y) (forM xs createFile) := by
  induction xs
  case nil => exact .pure ()
  case cons x xs hi =>
    rw [List.forM_cons]
    refine .bind ?_ fun _ => hi.mono fun _ ⟨y, hy, he⟩ => ⟨y, List.mem_cons_of_mem x hy, he⟩
    exact (Throws.orElseThrow fun y => ⟨x, List.mem_cons_self, y, rfl⟩).bind fun _ => .record

-- Where a path of a new site is taken, the site is not created. This is told before anything is
-- changed unless all that is there is links that lead nowhere; then one of the files fails to be
-- created, and what has come before it is left.
theorem refused_iff (h : ∃ x ∈ files root, IsOccupied w x.1) :
    ((∃ p, exec (create root) w = (.error (.alreadyExists p), w)) ↔
        ¬∀ x ∈ files root, IsOccupied w x.1 → IsDangling w x.1) ∧
      ((∀ x ∈ files root, IsOccupied w x.1 → IsDangling w x.1) →
        ∃ x ∈ files root, ∃ y, (exec (create root) w).1 = .error (.io x.1 y)) := by
  have hs : (∀ x ∈ files root, IsOccupied w x.1 → IsDangling w x.1) ↔
      (files root).find? (fun x => Disk.isEntry x.1 w) = none := by
    simp only [List.find?_eq_none, isEntry_iff_isOccupied, not_and, not_not]
  rw [hs, exec_create]
  cases hf : (files root).find? fun x => Disk.isEntry x.1 w
  case some x => exact ⟨⟨by simp, fun _ => ⟨x.1, rfl⟩⟩, by simp⟩
  case none =>
    have hx : ∃ x ∈ files root, ∃ y, (exec (forM (files root) createFile) w).1 =
        .error (.io x.1 y) := by
      rcases he : exec (forM (files root) createFile) w with ⟨y | _, v⟩
      case error =>
        obtain ⟨x, hx, z, rfl⟩ := throws_forM w y v he
        exact ⟨x, hx, z, rfl⟩
      case ok =>
        obtain ⟨x, hx, ho⟩ := h
        exact absurd ho (not_isOccupied_of_forM (fun _ => getLast?_pieces_of_mem_files) he x hx)
    refine ⟨⟨?_, by simp⟩, fun _ => hx⟩
    rintro ⟨p, hp⟩
    obtain ⟨x, -, y, hy⟩ := hx
    simp [hp] at hy

-- A directory with a link that leads nowhere in the place of the home page.
def danglingHome : World where
  files := (FileSystem.empty.put [] "s" .directory).put ["s"] "index.md" (.link "nope")
  directory := []
  log := []

theorem danglingHome_isOccupied : IsOccupied danglingHome "s/index.md" :=
  ⟨["s", "index.md"], .link "nope", rfl⟩

theorem danglingHome_changed :
    (⟨"s/index.md"⟩, home) ∈ files "s" ∧ IsOccupied danglingHome "s/index.md" ∧
      danglingHome.files.get? ["s", "config.yaml"] = none ∧
      ∃ e v, exec (create "s") danglingHome = (.error e, v) ∧
        e = .io "s/index.md" .alreadyExists ∧
        v.files.get? ["s", "config.yaml"] = some (.file config.toUTF8) := by
  refine ⟨by decide, danglingHome_isOccupied, ?_⟩
  decide +kernel

theorem danglingHome_refused_iff :
    (∃ x ∈ files "s", IsOccupied danglingHome x.1) ∧
      ((∃ p, exec (create "s") danglingHome = (.error (.alreadyExists p), danglingHome)) ↔
          ¬∀ x ∈ files "s", IsOccupied danglingHome x.1 → IsDangling danglingHome x.1) ∧
        ((∀ x ∈ files "s", IsOccupied danglingHome x.1 → IsDangling danglingHome x.1) →
          ∃ x ∈ files "s", ∃ y, (exec (create "s") danglingHome).1 = .error (.io x.1 y)) := by
  have ho : ∃ x ∈ files "s", IsOccupied danglingHome x.1 :=
    ⟨("s/index.md", home), by decide, danglingHome_isOccupied⟩
  exact ⟨ho, refused_iff ho⟩

end StaticSite.Skeleton
