import StaticSite.Proofs.Disk.Made
import StaticSite.Skeleton
/-!
Creating a new site. Main statement: no file is changed that has been there before, nothing at all
is changed if one of the files of the site has, and a site that has been created has its files with
their texts, and nothing else is new but directories on the way to them (`create_keeps`).
-/
namespace StaticSite.Skeleton

open FileSystem Action

variable {root p : Path} {text : String} {x : Path × String} {xs ys : List (Path × String)}
  {w u v : World} {l : Location} {e : Entry}

-- What stands at a location once files have been created, if nothing has stood there before.
inductive Created (xs : List (Path × String)) (w : World) (l : Location) : Prop
  | file (p : Path) (text : String) (hx : (p, text) ∈ xs)
    (h : w.files.find w.directory p = .ok (l, .file text.toUTF8))
  -- A directory is on the way to a file.
  | directory (p : Path) (text : String) (hx : (p, text) ∈ xs) (dir : Path)
    (hp : p.parent? = some dir) (h : Disk.IsNamed dir.ancestors w l)

-- Nothing changes but that files come to be and directories on the way to them.
structure Creates (xs : List (Path × String)) (w v : World) : Prop where
  directory_eq : v.directory = w.directory
  get?_cases : ∀ l, v.files.get? l = w.files.get? l ∨ w.files.get? l = none ∧ Created xs v l

namespace Creates

theorem refl (xs : List (Path × String)) (w : World) : Creates xs w w :=
  ⟨rfl, fun _ => .inl rfl⟩

theorem get? (h : Creates xs w v) (hl : w.files.get? l = some e) : v.files.get? l = some e := by
  rcases h.get?_cases l with hv | ⟨hn, -⟩
  case inl => exact hv.trans hl
  case inr => simp [hl] at hn

theorem grows (h : Creates xs w v) : w.Grows v :=
  ⟨fun _ e he => ⟨e, h.get? he, .refl e⟩, h.directory_eq⟩

theorem find (h : Creates xs w v) (hp : w.files.find w.directory p = .ok (l, e)) :
    v.files.find v.directory p = .ok (l, e) := by
  obtain ⟨e', hv, -⟩ := h.grows.find hp
  obtain rfl : e = e' := by
    simpa [h.get? (get?_of_find hp)] using get?_of_find hv
  exact hv

theorem created (h : Creates ys u v) (hl : Created xs u l) : Created xs v l := by
  cases hl
  case file p text hx hf => exact .file p text hx (h.find hf)
  case directory p text hx dir hp hd => exact .directory p text hx dir hp (hd.of_grows h.grows)

theorem mono (h : Creates xs w v) (hs : xs ⊆ ys) : Creates ys w v := by
  refine ⟨h.directory_eq, fun l => (h.get?_cases l).imp_right fun ⟨hn, hl⟩ => ⟨hn, ?_⟩⟩
  cases hl
  case file p text hx hf => exact .file p text (hs hx) hf
  case directory p text hx dir hp hd => exact .directory p text (hs hx) dir hp hd

theorem trans (h : Creates xs w u) (h' : Creates xs u v) : Creates xs w v := by
  refine ⟨h'.directory_eq.trans h.directory_eq, fun l => ?_⟩
  rcases h.get?_cases l with hu | ⟨hn, hl⟩
  case inr => exact .inr ⟨hn, h'.created hl⟩
  case inl =>
    rcases h'.get?_cases l with hv | ⟨hn, hl⟩
    case inl => exact .inl (hv.trans hu)
    case inr => exact .inr ⟨hu.symm.trans hn, hl⟩

end Creates

-- A file that has been created is there with its text.
def HasFile (w : World) (x : Path × String) : Prop :=
  ∃ l, w.files.find w.directory x.1 = .ok (l, .file x.2.toUTF8)

theorem HasFile.of_creates (h : HasFile w x) (hc : Creates xs w v) : HasFile v x :=
  h.imp fun _ => hc.find

def makeParent (p : Path) : Action IoError Unit :=
  match p.parent? with
  | none => pure ()
  | some dir => Disk.makeDirectories dir

theorem writeNew_eq (p : Path) (text : String) :
    writeNew p text = makeParent p >>= fun _ => Disk.create p (.file text.toUTF8) := by
  unfold writeNew makeParent
  cases p.parent? <;> rfl

theorem creates_makeParent {r : Except IoError Unit} (h : exec (makeParent x.1) w = (r, v)) :
    Creates [x] w v := by
  unfold makeParent at h
  cases hp : x.1.parent? <;> rw [hp] at h
  case none =>
    obtain rfl := (Prod.ext_iff.mp h).2
    exact .refl _ w
  case some dir =>
    have ha := Disk.addsDirectories_makeAncestors h
    refine ⟨ha.2, fun l => (ha.1 l).imp_right fun ⟨hl, hn, _⟩ => ⟨hn, ?_⟩⟩
    exact .directory x.1 x.2 (List.mem_singleton_self x) dir hp hl

theorem creates_create (hp : x.1.pieces.getLast? ≠ some "")
    (h : exec (Disk.create x.1 (.file x.2.toUTF8)) w = (.ok (), v)) :
    Creates [x] w v ∧ HasFile v x := by
  obtain ⟨dir, name, hr, hn, ha, rfl⟩ := Disk.create_eq_ok h
  have hg {l} : (w.put dir name (.file x.2.toUTF8)).files.get? l =
      if l = dir ++ [name] then some (.file x.2.toUTF8) else w.files.get? l := get?_put ha
  have hv : w.Grows (w.put dir name (.file x.2.toUTF8)) := World.grows_put (by simp [hn])
  have hf := find_of_resolveLast (hv.1.resolveLast hr) hp (hg.trans (if_pos rfl)) (by simp)
  refine ⟨⟨rfl, fun l => ?_⟩, dir ++ [name], hf⟩
  by_cases hl : l = dir ++ [name]
  case pos => exact .inr ⟨hl ▸ hn, .file x.1 x.2 (List.mem_singleton_self x) (hl ▸ hf)⟩
  case neg => exact .inl (hg.trans (if_neg hl))

-- Directories are made on the way to a file, and then the file is created where nothing is.
theorem creates_writeNew {r : Except IoError Unit} (hp : x.1.pieces.getLast? ≠ some "")
    (h : exec (writeNew x.1 x.2) w = (r, v)) : Creates [x] w v ∧ (r = .ok () → HasFile v x) := by
  rw [writeNew_eq] at h
  rcases hm : exec (makeParent x.1) w with ⟨y | _, u⟩
  case error =>
    obtain ⟨rfl, rfl⟩ := Prod.mk.inj ((exec_bind_of_error hm).symm.trans h)
    exact ⟨creates_makeParent hm, by simp⟩
  case ok =>
    rw [exec_bind_of_ok hm] at h
    rcases Disk.create_cases x.1 (.file x.2.toUTF8) u with ⟨y, hy⟩ | ⟨_, _, _, _, hy⟩ <;>
      obtain ⟨rfl, rfl⟩ := Prod.mk.inj (hy.symm.trans h)
    case inl => exact ⟨creates_makeParent hm, by simp⟩
    case inr =>
      obtain ⟨hc, hf⟩ := creates_create hp hy
      exact ⟨(creates_makeParent hm).trans hc, fun _ => hf⟩

-- Creates a file of a new site and tells so.
def createFile (x : Path × String) : Action Error Unit := do
  (writeNew x.1 x.2).orElseThrow (.io x.1)
  Action.record .info ("Created " ++ quoted x.1.text)

theorem creates_createFile {r : Except Error Unit} (hp : x.1.pieces.getLast? ≠ some "")
    (h : exec (createFile x) w = (r, v)) : Creates [x] w v ∧ (r = .ok () → HasFile v x) := by
  rcases hw : exec (writeNew x.1 x.2) w with ⟨y | _, u⟩ <;>
    obtain ⟨hc, hf⟩ := creates_writeNew hp hw
  case error =>
    have he : exec (createFile x) w = (.error (.io x.1 y), u) :=
      exec_bind_of_error (exec_orElseThrow_of_error hw)
    obtain ⟨rfl, rfl⟩ := Prod.mk.inj (he.symm.trans h)
    exact ⟨hc, by simp⟩
  case ok =>
    obtain ⟨log, hu⟩ : ∃ log, exec (createFile x) w = (.ok (), { u with log }) :=
      ⟨_, exec_bind_of_ok (exec_orElseThrow_of_ok hw)⟩
    obtain ⟨rfl, rfl⟩ := Prod.mk.inj (hu.symm.trans h)
    have hl : Creates [x] u { u with log } := ⟨rfl, fun _ => .inl rfl⟩
    exact ⟨hc.trans hl, fun _ => (hf rfl).of_creates hl⟩

-- Files are created one after another. If one cannot be, the files before it stay.
theorem creates_forM {r : Except Error Unit} (hp : ∀ x ∈ xs, x.1.pieces.getLast? ≠ some "")
    (h : exec (forM xs createFile) w = (r, v)) :
    Creates xs w v ∧ (r = .ok () → ∀ x ∈ xs, HasFile v x) := by
  induction xs generalizing w
  case nil =>
    obtain rfl := (Prod.ext_iff.mp h).2
    exact ⟨.refl _ w, by simp⟩
  case cons x xs hi =>
    rw [List.forM_cons] at h
    obtain ⟨hx, hxs⟩ := List.forall_mem_cons.mp hp
    rcases hu : exec (createFile x) w with ⟨y | _, u⟩ <;>
      obtain ⟨hc, hf⟩ := creates_createFile hx hu
    case error =>
      obtain ⟨rfl, rfl⟩ := Prod.mk.inj ((exec_bind_of_error hu).symm.trans h)
      exact ⟨hc.mono (by simp), by simp⟩
    case ok =>
      obtain ⟨hcs, hfs⟩ := hi hxs ((exec_bind_of_ok hu).symm.trans h)
      refine ⟨(hc.mono (by simp)).trans (hcs.mono (by simp)), fun hr => ?_⟩
      exact List.forall_mem_cons.mpr ⟨(hf rfl).of_creates hcs, hfs hr⟩

theorem exec_create (root : Path) (w : World) : exec (create root) w =
    match (files root).find? fun x => Disk.isEntry x.1 w with
    | some x => (.error (.alreadyExists x.1), w)
    | none => exec (forM (files root) createFile) w := by
  rw [create, exec_bind_of_ok (exec_get w)]
  cases h : (files root).find? fun x => Disk.isEntry x.1 w
  case some x => rfl
  case none =>
    dsimp only
    congr 1
    generalize files root = xs
    induction xs
    case nil => rfl
    case cons x xs hi =>
      rw [List.forM_cons, ← hi, createFile]
      simp only [List.forIn_cons, bind_assoc, pure_bind]

theorem getLast?_pieces_of_mem_files (h : x ∈ files root) : x.1.pieces.getLast? ≠ some "" := by
  have hb {p q : Path} (hq : q.isAbsolute = false) (hl : q.pieces.getLast? ≠ some "") :
      (p / q).pieces.getLast? ≠ some "" := by
    rwa [Path.pieces_below hq, List.getLast?_append_of_ne_nil _ Path.pieces_ne_nil]
  simp only [files, List.mem_cons, List.not_mem_nil, or_false] at h
  rcases h with rfl | rfl | rfl <;> exact hb (by decide) (by decide)

-- If one of the files is there, that is found before anything is done.
theorem exec_create_of_isEntry {before rest : List (Path × String)}
    (hx : files root = before ++ x :: rest) (hb : ∀ y ∈ before, ¬Disk.isEntry y.1 w)
    (h : Disk.isEntry x.1 w) : exec (create root) w = (.error (.alreadyExists x.1), w) := by
  have hf : (files root).find? (fun x => Disk.isEntry x.1 w) = some x := by
    rw [hx, List.find?_append, List.find?_eq_none.mpr hb, List.find?_cons, h]
    rfl
  rw [exec_create, hf]

-- No file is changed that has been there before. If one of the files of the new site is there, the
-- first of them is told and nothing is changed. A site that has been created has its files, nothing
-- else is new but directories on the way to them, and it is not created again.
theorem create_keeps (root : Path) (w : World) :
    (∀ l c, w.files.get? l = some (.file c) →
        (exec (create root) w).2.files.get? l = some (.file c)) ∧
      (∀ before x rest, files root = before ++ x :: rest →
        (∀ y ∈ before, ¬Disk.isEntry y.1 w) → Disk.isEntry x.1 w →
          exec (create root) w = (.error (.alreadyExists x.1), w)) ∧
      ∀ v, exec (create root) w = (.ok (), v) →
        (∀ x ∈ files root, HasFile v x) ∧ Creates (files root) w v ∧
          exec (create root) v = (.error (.alreadyExists (root / SiteConfig.fileName)), v) := by
  have hc {r v} (h : exec (create root) w = (r, v)) :
      Creates (files root) w v ∧ (r = .ok () → ∀ x ∈ files root, HasFile v x) := by
    rw [exec_create] at h
    split at h
    case h_1 =>
      obtain ⟨rfl, rfl⟩ := Prod.mk.inj h
      exact ⟨.refl _ w, by simp⟩
    case h_2 => exact creates_forM (fun _ => getLast?_pieces_of_mem_files) h
  refine ⟨fun l c hl => (hc rfl).1.get? hl, fun _ _ _ => exec_create_of_isEntry, fun v h => ?_⟩
  obtain ⟨hv, hf⟩ := hc h
  have hs : files root = [] ++ (root / SiteConfig.fileName, config) :: (files root).tail := rfl
  refine ⟨hf rfl, hv, exec_create_of_isEntry hs (by simp) ?_⟩
  obtain ⟨l, hl⟩ := hf rfl (root / SiteConfig.fileName, config) List.mem_cons_self
  rw [Disk.isEntry, Disk.isNamed, hl]

-- A directory with a file in it.
def oneFile : World where
  files := (FileSystem.empty.put [] "s" .directory).put ["s"] "a" (.file "b".toUTF8)
  directory := []
  log := []

theorem oneFile_create_keeps :
    ∃ v, exec (create "s") oneFile = (.ok (), v) ∧
      v.files.get? ["s", "a"] = some (.file "b".toUTF8) ∧ (∀ x ∈ files "s", HasFile v x) ∧
      Creates (files "s") oneFile v ∧
      exec (create "s") v = (.error (.alreadyExists "s/config.yaml"), v) := by
  obtain ⟨_, v, h, hv⟩ : ∃ a v, exec (create "s") oneFile = (.ok a, v) ∧
      oneFile.files.get? ["s", "a"] = some (.file "b".toUTF8) := by
    decide +kernel
  obtain ⟨hk, -, hc⟩ := create_keeps "s" oneFile
  have ha := hk ["s", "a"] "b".toUTF8 hv
  rw [h] at ha
  exact ⟨v, h, ha, hc v h⟩

end StaticSite.Skeleton
