import StaticSite.Proofs.Disk.Growth
import StaticSite.Proofs.FileSystem.Below
/-!
What operations on the disk do to paths below the path of a directory, where there are no links in
that directory. Main statements: directories are made on the way below it and nowhere else
(`keeps_makeDirectories_below`), and a file is written right there or not at all
(`keeps_write_below`, `keeps_copy_below`).
-/
namespace StaticSite.Disk

open FileSystem Action Location

-- If the path leads to a directory without links in it, directories are added where `P` says.
def AddsDirectoriesIfOpen (p : Path) (l : Location) (P : Location → Prop) (w v : World) : Prop :=
  w.files.Opens w.directory p l → w.AddsDirectories P v

-- If the path leads to a directory without links in it, files are touched where `P` says.
def TouchesIfOpen (p : Path) (l : Location) (P : Location → Prop) (w v : World) : Prop :=
  w.files.Opens w.directory p l → w.Touches P v

variable {p q : Path} {l k dir : Location} {P Q : Location → Prop} {name : String} {w v : World}
  {ps rest : List Path}

-- What is touched holds no new links.
theorem opens_of_touches (h : w.files.Opens w.directory p l) (ht : w.Touches P v) :
    v.files.Opens v.directory p l where
  find_eq := by
    obtain ⟨e, he, hk⟩ := ht.grows.find h.find_eq
    rwa [Entry.SameKind.directory_iff.mp hk] at he
  linkless k target hk := h.linkless k target (ht.1.of_link hk)

theorem touches_of_addsDirectories (h : w.AddsDirectories Q v)
    (hp : ∀ k, Q k → ∃ l, P l ∧ k <+: l) : w.Touches P v :=
  ⟨h.1.touches hp, h.2⟩

theorem opens_of_addsDirectories (h : w.files.Opens w.directory p l) (ha : w.AddsDirectories P v) :
    v.files.Opens v.directory p l :=
  opens_of_touches h (touches_of_addsDirectories ha fun k hk => ⟨k, hk, List.prefix_refl k⟩)

instance : Std.Refl (AddsDirectoriesIfOpen p l P) where
  refl w _ := Std.Refl.refl w

instance : IsTrans World (AddsDirectoriesIfOpen p l P) where
  trans _ _ _ h h' ho := IsTrans.trans _ _ _ (h ho) (h' (opens_of_addsDirectories ho (h ho)))

instance : Std.Refl (TouchesIfOpen p l P) where
  refl w _ := Std.Refl.refl w

instance : IsTrans World (TouchesIfOpen p l P) where
  trans _ _ _ h h' ho := IsTrans.trans _ _ _ (h ho) (h' (opens_of_touches ho (h ho)))

theorem AddsDirectoriesIfOpen.touches (h : AddsDirectoriesIfOpen p l Q w v)
    (hp : ∀ k, Q k → ∃ l, P l ∧ k <+: l) : TouchesIfOpen p l P w v :=
  fun ho => touches_of_addsDirectories (h ho) hp

theorem keeps_makeDirectory_below (hd : dir.IsStraight) (hn : Path.IsStep name) :
    Keeps (AddsDirectoriesIfOpen p l (· = l ++ (dir ++ [name])))
      (makeDirectory (p / toRelative (dir ++ [name]))) := by
  intro w ho
  rcases create_cases (p / toRelative (dir ++ [name])) .directory w with
    ⟨x, h⟩ | ⟨d, n, hr, hv, h⟩ <;> rw [makeDirectory, h]
  case inl => exact Std.Refl.refl w
  case inr =>
    obtain ⟨rfl, rfl, -⟩ := ho.accepts_of_resolveLast hd hn hr
    rw [← List.append_assoc]
    exact World.addsDirectories_put hv

theorem exec_ensureDirectory_eq_error {x : IoError}
    (h : exec (ensureDirectory q) w = (.error x, v)) :
    v = w ∧ exec (makeDirectory q) w = (.error x, w) := by
  rw [exec_ensureDirectory] at h
  rcases create_cases q .directory w with ⟨y, hc⟩ | ⟨d, n, -, -, hc⟩ <;>
    rw [makeDirectory, hc] at h <;> dsimp only at h
  case inl =>
    split at h
    case isTrue => simp at h
    case isFalse =>
      obtain ⟨rfl, rfl⟩ : y = x ∧ w = v := by simpa using h
      exact ⟨rfl, hc⟩
  case inr => simp at h

-- What comes after a directory whose parent is there is not looked at.
theorem exec_makeAncestors_append (h : ∀ v, exec (ensureDirectory q) w ≠ (.error .notFound, v)) :
    exec (makeAncestors (ps ++ q :: rest)) w = exec (makeAncestors (ps ++ [q])) w := by
  induction ps
  case nil =>
    rw [List.nil_append, List.nil_append, makeAncestors, makeAncestors]
    split
    case isTrue => rfl
    case isFalse =>
      rw [exec_tryCatch, exec_tryCatch]
      rcases hx : exec (ensureDirectory q) w with ⟨x | _, v⟩
      case ok => rfl
      case error =>
        have hn : x ≠ .notFound := by
          rintro rfl
          exact h v hx
        simp [hn]
  case cons p ps hi =>
    rw [List.cons_append, List.cons_append, makeAncestors, makeAncestors]
    split
    case isTrue => rfl
    case isFalse =>
      rw [exec_tryCatch, exec_tryCatch]
      rcases hx : exec (ensureDirectory p) w with ⟨x | _, v⟩
      case ok => rfl
      case error =>
        obtain ⟨rfl, -⟩ := exec_ensureDirectory_eq_error hx
        dsimp only
        split
        case isTrue => rw [exec_bind, exec_bind, hi]
        case isFalse => rfl

theorem checkPath_ne_notFound (h : q.text ≠ "") : checkPath q ≠ .error .notFound := by
  unfold checkPath
  split
  case isTrue => simp
  case isFalse =>
    rw [if_neg (by simpa using h)]
    split <;> simp

theorem lastStep_directory_ne_notFound :
    lastStep name (.entry l .directory) ≠ .error .notFound := by
  rw [lastStep]
  split
  case isTrue => simp
  case isFalse => split <;> simp

-- The parent of what is right in a directory is there.
theorem exec_ensureDirectory_ne_notFound (h : w.files.Opens w.directory p l)
    (hn : Path.IsStep name) :
    exec (ensureDirectory (p / toRelative [name])) w ≠ (.error .notFound, v) := by
  intro he
  obtain ⟨-, he⟩ := exec_ensureDirectory_eq_error he
  have hp : IsPlain ([] ++ [name]) := IsPlain.nil.concat hn
  obtain ⟨links, hr⟩ := exists_resolveLast_below h.find_eq hp
  have ha := hp.isAbsolute_toRelative (by simp)
  rw [List.nil_append] at ha hr
  rw [takeSteps_nil h.get?_eq] at hr
  have hne : (p / toRelative [name]).text ≠ "" := by
    have hc := (checkPath_eq_ok.mp (find_iff_takeSteps.mp h.find_eq).1).2.1
    rw [Path.text_below ha, String.append_assoc]
    simp [hc]
  have hx := (create_eq_error he).resolve_right (by simp)
  rw [hr] at hx
  cases hc : checkPath (p / toRelative [name]) <;> rw [hc] at hx
  case error =>
    obtain rfl := Except.error.inj hx
    exact checkPath_ne_notFound hne hc
  case ok => exact lastStep_directory_ne_notFound hx

-- The last step of the path may lead up again: a file name can become such a step in the output.
theorem keeps_makeDirectories_below (hk : IsPlain (name :: k))
    (hd : IsStraight (name :: k).dropLast) :
    Keeps (AddsDirectoriesIfOpen p l (· <+: l ++ name :: k))
      (makeDirectories (p / toRelative (name :: k))) := by
  intro w ho
  have hn : Path.IsStep name := hk name List.mem_cons_self
  obtain ⟨rest, hr⟩ := Path.exists_ancestors_below (p := p) hk
  obtain ⟨ms, hm⟩ : ∃ ms, k.inits.reverse = ms ++ [[]] := by
    cases k
    case nil => exact ⟨[], rfl⟩
    case cons => exact ⟨_, by rw [List.inits_cons, List.reverse_cons]⟩
  have ha : exec (makeDirectories (p / toRelative (name :: k))) w =
      exec (makeAncestors (k.inits.reverse.map fun m => p / toRelative (name :: m))) w := by
    rw [makeDirectories, hr, hm, List.map_append, List.append_assoc]
    exact exec_makeAncestors_append fun v => exec_ensureDirectory_ne_notFound ho hn
  rw [ha]
  refine keeps_makeAncestors (R := AddsDirectoriesIfOpen p l (· <+: l ++ name :: k)) ?_ w ho
  intro q hq
  simp only [List.mem_map, List.mem_reverse, List.mem_inits] at hq
  obtain ⟨m, hm, rfl⟩ := hq
  have hp : name :: m <+: name :: k := List.cons_prefix_cons.mpr ⟨rfl, hm⟩
  obtain ⟨d, n, he⟩ := (List.eq_nil_or_concat' (name :: m)).resolve_left (by simp)
  rw [he] at hp ⊢
  have hd' : d <+: (name :: k).dropLast := by
    obtain ⟨t, ht⟩ := hp
    rw [← ht, List.append_assoc, List.dropLast_append_of_ne_nil (by simp)]
    exact List.prefix_append _ _
  have hs : Path.IsStep n := hk n (hp.subset (by simp))
  have hkeep := keeps_makeDirectory_below (p := p) (l := l) (hd.of_prefix hd') hs
  refine hkeep.mono fun h ho => (h ho).mono ?_
  rintro _ rfl
  exact (List.prefix_append_right_inj l).mpr hp

theorem ensureDirectory_of_find (h : w.files.find w.directory p = .ok (l, .directory)) :
    exec (ensureDirectory p) w = (.ok (), w) := by
  have hd : isDirectory p w := isDirectory_iff.mpr ⟨l, h⟩
  rw [exec_ensureDirectory]
  rcases create_cases p .directory w with ⟨x, hc⟩ | ⟨d, n, hr, hv, -⟩
  case inl =>
    rw [makeDirectory, hc]
    simp [hd]
  case inr => exact absurd hv (get?_ne_none_of_find h hr)

theorem makeAncestors_of_find (h : w.files.find w.directory p = .ok (l, .directory)) :
    exec (makeAncestors (p :: ps)) w = (.ok (), w) := by
  rw [makeAncestors]
  split
  case isTrue => rfl
  case isFalse => rw [exec_tryCatch, ensureDirectory_of_find h]

-- If there is a directory already, nothing is made.
theorem makeDirectories_of_find (h : w.files.find w.directory p = .ok (l, .directory)) :
    exec (makeDirectories p) w = (.ok (), w) :=
  makeAncestors_of_find h

-- What a file right in the directory is put into is there.
theorem makeDirectories_trimmed_of_find (h : w.files.find w.directory p = .ok (l, .directory)) :
    exec (makeDirectories p.trimmed) w = (.ok (), w) := by
  obtain ⟨rest, hp, hi⟩ := Path.exists_stem_append (p := p)
  by_cases ht : p.trimmed.text = ""
  case pos =>
    have he : p.trimmed = ⟨""⟩ := Path.text_inj.mp ht
    rw [he]
    rfl
  case neg => exact makeDirectories_of_find (find_ofPieces h hp hi ht)

-- Directories are made up to the one that a file is put into.
theorem keeps_makeDirectories_parent (hd : dir.IsStraight) (hn : Path.IsStep name)
    (hq : (p / toRelative (dir ++ [name])).parent? = some q) :
    Keeps (AddsDirectoriesIfOpen p l (· <+: l ++ dir)) (makeDirectories q) := by
  cases dir
  case nil =>
    intro w ho
    rw [List.nil_append, Path.parent?_below_name hn] at hq
    obtain rfl := Option.some.inj hq
    rw [makeDirectories_trimmed_of_find ho.find_eq]
    exact Std.Refl.refl w
  case cons d dir =>
    rw [Path.parent?_below (hd.isPlain.concat hn) (List.cons_ne_nil d dir)] at hq
    obtain rfl := Option.some.inj hq
    exact keeps_makeDirectories_below hd.isPlain (hd.of_prefix (List.dropLast_prefix _))

theorem keeps_write_below (hd : dir.IsStraight) (hn : Path.IsStep name) (contents : ByteArray) :
    Keeps (TouchesIfOpen p l (· = l ++ (dir ++ [name])))
      (write (p / toRelative (dir ++ [name])) contents) := by
  intro w ho
  rcases write_cases (p / toRelative (dir ++ [name])) contents w with ⟨x, h⟩ | ⟨d, n, hr, h⟩ <;>
    rw [h]
  case inl => exact Std.Refl.refl w
  case inr =>
    obtain ⟨rfl, rfl, -, -, hx⟩ := ho.file_of_resolve hd hn hr
    exact ⟨.put_file (List.append_assoc l dir [n]) hx, rfl⟩

theorem keeps_copy_below {source : Path} (hd : dir.IsStraight) (hn : Path.IsStep name) :
    Keeps (TouchesIfOpen p l (· = l ++ (dir ++ [name])))
      (copy source (p / toRelative (dir ++ [name]))) := by
  refine (keeps_ask _).bind fun x => ?_
  split
  case h_2 => exact .throw _
  case h_1 =>
    refine (keeps_write_below hd hn .empty).bind fun _ => Keeps.get.bind fun w => ?_
    split
    case h_1 => exact keeps_write_below hd hn _
    case h_2 => exact .pure _

-- Where a file has been written there is one.
theorem get?_of_write_below {contents : ByteArray} (ho : w.files.Opens w.directory p l)
    (hd : dir.IsStraight) (hn : Path.IsStep name)
    (h : exec (write (p / toRelative (dir ++ [name])) contents) w = (.ok (), v)) :
    v.files.get? (l ++ (dir ++ [name])) = some (.file contents) := by
  rcases write_cases (p / toRelative (dir ++ [name])) contents w with ⟨x, he⟩ | ⟨d, n, hr, he⟩ <;>
    rw [he] at h
  case inl => simp at h
  case inr =>
    obtain rfl : w.put d n (.file contents) = v := by simpa using h
    obtain ⟨rfl, rfl, hname, hdir, hx⟩ := ho.file_of_resolve hd hn hr
    have ha : w.files.Accepts (l ++ dir) n (.file contents) := by
      refine ⟨hname, hdir, fun hd => ?_⟩
      rcases hx with hx | ⟨old, hx⟩ <;> rw [hx] at hd <;> simp at hd
    rw [← List.append_assoc]
    exact (get?_put ha).trans (if_pos rfl)

theorem get?_of_copy_below {source : Path} (ho : w.files.Opens w.directory p l)
    (hd : dir.IsStraight) (hn : Path.IsStep name)
    (h : exec (copy source (p / toRelative (dir ++ [name]))) w = (.ok (), v)) :
    ∃ c, v.files.get? (l ++ (dir ++ [name])) = some (.file c) := by
  rw [copy, exec_bind, exec_ask] at h
  rcases hs : w.files.find w.directory source with x | ⟨k, _ | old | _⟩ <;> rw [hs] at h <;>
    dsimp only at h
  case ok.file =>
    obtain ⟨_, t, ht, h⟩ := exec_bind_eq_ok.mp h
    have hw := get?_of_write_below ho hd hn ht
    rw [exec_bind_of_ok (exec_get t)] at h
    split at h
    case h_2 =>
      obtain rfl : t = v := by simpa using h
      exact ⟨_, hw⟩
    case h_1 =>
      have hk := (keeps_write_below (l := l) hd hn .empty).of_exec ht ho
      exact ⟨_, get?_of_write_below (opens_of_touches ho hk) hd hn h⟩
  all_goals simp at h

theorem get?_of_ensureDirectory_below (ho : w.files.Opens w.directory p l) (hk : k.IsStraight)
    (hne : k ≠ []) (h : exec (ensureDirectory (p / toRelative k)) w = (.ok (), v)) :
    v.files.get? (l ++ k) = some .directory := by
  rw [exec_ensureDirectory] at h
  rcases create_cases (p / toRelative k) .directory w with ⟨x, hc⟩ | ⟨d, n, hr, hv, hc⟩ <;>
    rw [makeDirectory, hc] at h <;> dsimp only at h
  case inl =>
    split at h
    case isFalse => simp at h
    case isTrue hd =>
      obtain rfl : w = v := by simpa using h
      obtain ⟨m, hm⟩ := isDirectory_iff.mp hd
      obtain ⟨rfl, hg⟩ := ho.find_below hk hne hm
      exact hg
  case inr =>
    obtain rfl : w.put d n .directory = v := by simpa using h
    obtain ⟨dir, name, rfl⟩ := (List.eq_nil_or_concat' k).resolve_left hne
    obtain ⟨rfl, rfl, hname, hdir⟩ :=
      ho.accepts_of_resolveLast hk.of_append.1 (hk.isPlain name (by simp)) hr
    have ha : w.files.Accepts (l ++ dir) n .directory := ⟨hname, hdir, fun _ => rfl⟩
    rw [← List.append_assoc]
    exact (get?_put ha).trans (if_pos rfl)

-- Where directories have been made up to, there is one.
theorem get?_of_makeDirectories_below (ho : w.files.Opens w.directory p l) (hk : k.IsStraight)
    (hne : k ≠ []) (h : exec (makeDirectories (p / toRelative k)) w = (.ok (), v)) :
    v.files.get? (l ++ k) = some .directory := by
  have hc : (p / toRelative k).components.isEmpty = false := by
    obtain ⟨name, rest, rfl⟩ := List.exists_cons_of_ne_nil hne
    have hm : name ∈ (p / toRelative (name :: rest)).pieces := by
      simp [Path.pieces_toRelative_below hk.isPlain hne]
    exact Path.isEmpty_components_of_mem hm (hk.isPlain name List.mem_cons_self).1
  have hp : (p / toRelative k).ancestors = p / toRelative k ::
      ((p / toRelative k).parent?.map
        (Path.ancestors.go (p / toRelative k).text.length)).getD [] := rfl
  rw [makeDirectories, hp, makeAncestors, hc] at h
  simp only [Bool.false_eq_true, if_false] at h
  rw [exec_tryCatch] at h
  rcases he : exec (ensureDirectory (p / toRelative k)) w with ⟨e | _, u⟩ <;> rw [he] at h <;>
    dsimp only at h
  case ok =>
    obtain rfl : u = v := by simpa using h
    exact get?_of_ensureDirectory_below ho hk hne he
  case error =>
    split at h
    case isFalse => simp at h
    case isTrue =>
      obtain ⟨_, t, ht, h⟩ := exec_bind_eq_ok.mp h
      obtain ⟨rfl, -⟩ := exec_ensureDirectory_eq_error he
      have ht := (keeps_makeAncestors fun _ _ => keeps_makeDirectory).of_exec ht
      exact get?_of_ensureDirectory_below (opens_of_addsDirectories ho ht) hk hne h

end StaticSite.Disk
