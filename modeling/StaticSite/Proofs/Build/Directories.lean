import StaticSite.Proofs.Build.Collision
import StaticSite.Proofs.Build.Confined
/-!
Directories of the source and of the output. Main statements: what is in a directory goes into the
directory's own place unless that has the name of a content file (`parent?_destination?_iff`), and
if none has, a build into an empty output has as many directories there as it has counted
(`directoryCount_eq`).
-/
namespace StaticSite.Build

open FileSystem Action Location Walk Extension Disk

variable {s : Session} {out dir k r : Location} {name : String} {w w₁ u : World} {p : Path}
  {v c d : Visit Report} {isDirectory : Bool} {report : Report}

-- The parent of the place of an entry is the place of its parent, unless a content file's name is
-- changed there.
theorem parent?_destination?_iff (hd : d ∈ visits s w) (hn : IsName name)
    (hc : c.path = d.path / ⟨name⟩) :
    ∃ p q, destination? s c.path = some p ∧ destination? s d.path = some q ∧
      (p.parent? = some q ↔ isContent d.path = false) := by
  obtain ⟨dir, n, hs, hp⟩ := straight_of_mem_visits hd
  have hname : IsStraight [name] := isStraight_of_isName (by simpa using hn)
  have hs' : IsStraight (dir ++ [n] ++ [name]) := hs.append hname
  have hc' : c.path = s.source / toRelative (dir ++ [n] ++ [name]) := by
    rw [hc, hp, Path.below_name (p := s.source / toRelative (dir ++ [n])),
      Path.below_below hs.isPlain hname.isPlain (by simp) (by simp)]
  refine ⟨_, _, hc' ▸ destination?_below hs', hp ▸ destination?_below hs, ?_⟩
  have ht := isPlain_target hs'.isPlain
  rw [target_concat] at ht
  rw [target_concat, Path.parent?_below ht (by simp), Option.some_inj, target_concat,
    Path.below_inj hs.isPlain (target_concat ▸ isPlain_target hs.isPlain) (by simp) (by simp),
    List.append_cancel_left_eq, List.singleton_inj, eq_comm, outputName_eq_self_iff, hp,
    isContent_below hs]

-- What an entry of the source is reached through has been visited before.
theorem exists_directory_of_mem_visits (hv : v ∈ visits s w)
    (hp : v.path = s.source / toRelative (r ++ [name])) (hs : IsStraight (r ++ [name]))
    (hk : k <+: r) (hne : k ≠ []) :
    ∃ d ∈ processed s w, d.isDirectory ∧ d.path = s.source / toRelative k := by
  induction r using List.reverseRecOn generalizing v name
  case nil => exact absurd (List.prefix_nil.mp hk) hne
  case append_singleton r n hi =>
    obtain ⟨u₀, hm, hw⟩ := exists_of_mem_visits hv
    have hvisits : visits s w = Walk.visits .walk (visit s) s.source {} u₀ := by rw [visits, hm]
    cases parent_of_mem_visits hw
    case inl he =>
      obtain ⟨m, hm, hq⟩ := he.path_eq
      have hm : IsPlain [m] := IsPlain.nil.concat hm.isStep
      rw [hp, Path.below_inj hs.isPlain hm (by simp) (by simp)] at hq
      have hl := congrArg List.length hq
      simp at hl
    case inr he =>
      obtain ⟨u, hu, hdir, ⟨x, t, hx⟩, he⟩ := he
      rw [← hvisits] at hu
      have hu : u ∈ visits s w := hu.subset (by simp)
      obtain ⟨m, hm, hq⟩ := he.path_eq
      have hm : IsPlain [m] := IsPlain.nil.concat hm.isStep
      obtain ⟨d, n', hs', hup⟩ := straight_of_mem_visits hu
      rw [hp, hup, Path.below_below hs'.isPlain hm (by simp) (by simp),
        Path.below_inj hs.isPlain (hs'.isPlain.append hm) (by simp) (by simp)] at hq
      obtain ⟨he, -⟩ := List.append_inj' hq rfl
      rw [← he] at hup
      have hpro : u ∈ processed s w := by
        refine List.mem_filter.mpr ⟨hu, ?_⟩
        simp [isExcluded_eq_false_of_exec_visit hx]
      rcases List.prefix_concat_iff.mp hk with rfl | hk
      case inl => exact ⟨u, hpro, hdir, hup⟩
      case inr => exact hi hu hup hs.of_append.1 hk

-- A directory that has been mirrored is there.
theorem get?_of_part_directory {isContent : Bool} (ho : w.files.Opens w.directory s.output out)
    (hk : k.IsStraight) (hne : k ≠ [])
    (h : exec (part s p (s.output / toRelative k) true isContent) w = (.ok (), u)) :
    u.files.get? (out ++ k) = some .directory := by
  rw [part, if_pos rfl] at h
  exact get?_of_makeDirectories_below ho hk hne (exec_orElseThrow_eq_ok.mp h)

-- The directories that are made for a file first do not hinder it.
theorem get?_of_make_bind {ε : Type} {make put : Action ε Unit}
    (ho : w.files.Opens w.directory s.output out)
    (hm : Keeps (AddsDirectoriesIfOpen s.output out fun _ => True) make)
    (hput : ∀ t, t.files.Opens t.directory s.output out → exec put t = (.ok (), u) →
      ∃ c, u.files.get? k = some (.file c))
    (h : exec (make >>= fun _ => put) w = (.ok (), u)) : ∃ c, u.files.get? k = some (.file c) := by
  obtain ⟨_, t, ht, h⟩ := exec_bind_eq_ok.mp h
  exact hput t (opens_of_addsDirectories ho (hm.of_exec ht ho)) h

-- A file that has been compiled or copied is there.
theorem get?_of_part_file {isContent : Bool} (ho : w.files.Opens w.directory s.output out)
    (hd : dir.IsStraight) (hn : Path.IsStep name)
    (h : exec (part s p (s.output / toRelative (dir ++ [name])) false isContent) w = (.ok (), u)) :
    ∃ c, u.files.get? (out ++ (dir ++ [name])) = some (.file c) := by
  have hmake {ε : Type} {q : Path} {tell : IoError → ε} :
      Keeps (AddsDirectoriesIfOpen s.output out fun _ => True)
        ((makeDirectories q).orElseThrow tell) :=
    Keeps.orElseThrow (keeps_makeDirectories.mono fun h _ => h)
  rw [part, if_neg (by simp)] at h
  cases isContent
  case true =>
    rw [if_pos rfl] at h
    obtain ⟨document, t, ht, hx⟩ := exec_bind_eq_ok.mp (exec_orElseThrow_eq_ok.mp h)
    obtain rfl := Compile.reads_file.eq_of_exec ht
    have hput (t : World) (ho : t.files.Opens t.directory s.output out)
        (h : exec ((writeText (s.output / toRelative (dir ++ [name])) document).orElseThrow
          Compile.Error.io) t = (.ok (), u)) :
        ∃ c, u.files.get? (out ++ (dir ++ [name])) = some (.file c) :=
      ⟨_, get?_of_write_below ho hd hn (exec_orElseThrow_eq_ok.mp h)⟩
    split at hx
    case h_1 => exact get?_of_make_bind ho hmake hput hx
    case h_2 => exact hput t ho hx
  case false =>
    rw [if_neg (by simp), Build.copy] at h
    have hput (t : World) (ho : t.files.Opens t.directory s.output out)
        (h : exec ((Disk.copy p (s.output / toRelative (dir ++ [name]))).orElseThrow
          (Error.copy p (s.output / toRelative (dir ++ [name])))) t = (.ok (), u)) :
        ∃ c, u.files.get? (out ++ (dir ++ [name])) = some (.file c) :=
      get?_of_copy_below ho hd hn (exec_orElseThrow_eq_ok.mp h)
    split at h
    case h_1 => exact get?_of_make_bind ho hmake hput h
    case h_2 => exact hput w ho h

-- What an entry stands for is in its place when it has been visited.
theorem get?_of_exec_visit {x : Option Report}
    (ho : v.world.files.Opens v.world.directory s.output out) (hs : IsStraight (dir ++ [name]))
    (hp : v.path = s.source / toRelative (dir ++ [name])) (hx : s.isExcluded v.path = false)
    (h : v.exec (visit s) = (.ok x, u)) :
    if v.isDirectory then
      isContentName name = false → u.files.get? (out ++ (dir ++ [name])) = some .directory
    else ∃ c, u.files.get? (out ++ target (dir ++ [name])) = some (.file c) := by
  obtain ⟨r', -, he⟩ := exec_perform_of_exec_visit hx h
  obtain ⟨level, message, hperf⟩ : ∃ level message, perform s _ v.isDirectory v.state = _ :=
    perform_below hs
  rw [hp, hperf, exec_bind_of_ok (exec_record level message v.world)] at he
  obtain ⟨_, t, ht, he⟩ := exec_bind_eq_ok.mp he
  obtain rfl : t = u := by simpa using congrArg Prod.snd he
  have ho : ({ v.world with log := v.world.log ++ [⟨level, message⟩] } : World).files.Opens
      v.world.directory s.output out := ho
  cases hd : v.isDirectory <;> rw [hd] at ht
  case true =>
    intro hc
    rw [target_of_not_isContentName hc] at ht
    exact get?_of_part_directory ho hs (by simp) ht
  case false =>
    rw [target_concat] at ht ⊢
    exact get?_of_part_file ho hs.of_append.1 (isStep_outputName (hs name (by simp)).1) ht

-- The directories that a build mirrors.
def mirrored (s : Session) (w : World) : List (Visit Report) :=
  (processed s w).filter (·.isDirectory)

-- How many directories there are below a location.
def directoryCount (fs : FileSystem) (l : Location) : Nat :=
  (fs.below l).countP (·.2 = .directory)

theorem nodup_map_below {fs : FileSystem} {q : Entry × Location → Bool} :
    (((fs.below out).filter fun x => q (x.2, x.1)).map fun x => p / toRelative x.1).Nodup := by
  refine List.Nodup.map_on ?_ (sorted_below.nodup.filter _)
  rintro ⟨k, e⟩ hk ⟨k', e'⟩ hk' he
  obtain ⟨hn, hk⟩ := mem_below.mp (List.mem_of_mem_filter hk)
  obtain ⟨hn', hk'⟩ := mem_below.mp (List.mem_of_mem_filter hk')
  rw [Path.below_inj (isStraight_of_get? hk).of_append.2.isPlain
    (isStraight_of_get? hk').of_append.2.isPlain hn hn'] at he
  subst he
  rw [hk, Option.some_inj] at hk'
  rw [hk']

-- What a build that succeeds has counted.
theorem directories_eq_length (hm : exec (makeDirectory s.output) w = (.ok (), w₁))
    (h : exec (run s) w = (.ok report, u)) : report.directories = (mirrored s w).length := by
  obtain ⟨t, hc, -⟩ := exists_course_of_run hm h
  rw [hc.countP_eq (f := Report.directories) (p := fun v => !s.isExcluded v.path && v.isDirectory),
    Nat.zero_add, List.countP_eq_length_filter, mirrored, processed, List.filter_filter]
  · simp only [Bool.and_comm]
  · intro v hv x t hx
    obtain ⟨dir, name, hs, hp⟩ := straight_of_mem_visits hv
    rw [exec_visit_eq_ok hs hp hx]
    cases s.isExcluded v.path <;> cases hd : v.isDirectory <;> cases hn : isContentName name <;>
      simp [Report.count]

-- An empty output has no link in it.
theorem opens_of_vacant (hf : w.files.find w.directory s.output = .ok (out, .directory))
    (he : ∀ k ≠ [], w.files.get? (out ++ k) = none) :
    w.files.Opens w.directory s.output out := by
  refine ⟨hf, fun k target hl => ?_⟩
  by_cases hk : k = []
  case pos => simp [hk, get?_of_find hf] at hl
  case neg => simp [he k hk] at hl

section

variable (hm : exec (makeDirectory s.output) w = (.ok (), w₁))
  (ho : w₁.files.Opens w₁.directory s.output out) (h : exec (run s) w = (.ok report, u))

include hm ho h

-- If a build succeeds, each visit has, and what it has made is still there.
theorem exec_of_mem_visits (hv : v ∈ visits s w) :
    ∃ x t, v.world.files.Opens v.world.directory s.output out ∧ v.exec (visit s) = (.ok x, t) ∧
      t.files.Grows u.files := by
  obtain ⟨t', hc, hu⟩ := exists_course_of_run hm h
  have hw := (hc.worlds (touches_exec_visit_of_mem (List.Subset.refl _))).1 v hv ho
  obtain ⟨x, t, hx, hg⟩ := hc.exec_of_mem (fun v _ => keeps_visit v.world) hv
  exact ⟨x, t, opens_of_touches ho hw, hx, hu ▸ hg.1⟩

-- What has been mirrored is a directory of the output.
theorem get?_of_mem_mirrored (hd : d ∈ mirrored s w) (hc : isContent d.path = false)
    (hp : d.path = s.source / toRelative k) (hk : k.IsPlain) (hne : k ≠ []) :
    u.files.get? (out ++ k) = some .directory := by
  obtain ⟨hd, hdir⟩ := List.mem_filter.mp hd
  obtain ⟨hv, hx⟩ := List.mem_filter.mp hd
  obtain ⟨dir, name, hs, hp'⟩ := straight_of_mem_visits hv
  obtain ⟨x, t, hop, hex, hgr⟩ := exec_of_mem_visits hm ho h hv
  have hplace := get?_of_exec_visit hop hs hp' (by simpa using hx) hex
  rw [hp', isContent_below hs] at hc
  rw [hp', Path.below_inj hs.isPlain hk (by simp) hne] at hp
  rw [if_pos hdir] at hplace
  exact hp ▸ hgr.directory (hplace hc)

-- What has been made for an entry is on the way to its place: it is the place of a directory that
-- the entry is in, or else that of the entry.
theorem exists_mirrored_of_get? (hc : ∀ d ∈ processed s w, d.isDirectory → isContent d.path = false)
    (hne : k ≠ []) (hv : w₁.files.get? (out ++ k) = none)
    (hd : u.files.get? (out ++ k) = some .directory) :
    ∃ d ∈ mirrored s w, d.path = s.source / toRelative k := by
  have hconf := confined_of_makeDirectory hm ho
  rw [h] at hconf
  have hchange : u.files.get? (out ++ k) ≠ w₁.files.get? (out ++ k) := by simp [hd, hv]
  obtain ⟨-, -, _, ⟨v, hv, hx, r, hr, hnil, rfl, hdest⟩, hpre, -⟩ := hconf.changed hchange
  obtain ⟨dir, name, hs, hp⟩ := straight_of_mem_visits hv
  have ht := isPlain_target hs.isPlain
  rw [hp, destination?_below hs, Option.some_inj, Path.below_inj ht hr (by simp) hnil] at hdest
  rw [← hdest, List.prefix_append_right_inj, target_concat] at hpre
  have hpro : v ∈ processed s w := List.mem_filter.mpr ⟨hv, by simp [hx]⟩
  cases List.prefix_concat_iff.mp hpre
  case inr hpre =>
    obtain ⟨d, hd, hdir, hdp⟩ := exists_directory_of_mem_visits hv hp hs hpre hne
    exact ⟨d, List.mem_filter.mpr ⟨hd, hdir⟩, hdp⟩
  case inl hkt =>
    obtain ⟨x, t, hop, hex, hgr⟩ := exec_of_mem_visits hm ho h hv
    have hplace := get?_of_exec_visit hop hs hp hx hex
    cases hdir : v.isDirectory
    case true =>
      have hcon := hc v hpro hdir
      rw [hp, isContent_below hs] at hcon
      rw [outputName_of_not_isContentName hcon] at hkt
      exact ⟨v, List.mem_filter.mpr ⟨hpro, hdir⟩, hkt ▸ hp⟩
    case false =>
      -- a file is there instead
      rw [hdir, target_concat, ← hkt] at hplace
      obtain ⟨c, hfile⟩ := hplace
      obtain ⟨e, hu, hkind⟩ := hgr _ _ hfile
      rw [hd] at hu
      obtain rfl := Option.some.inj hu
      exact hkind.elim

end

-- A build into an empty output has a directory there for each that it has mirrored, if none of
-- these has the name of a content file.
theorem get?_eq_directory_iff (hm : exec (makeDirectory s.output) w = (.ok (), w₁))
    (hf : w₁.files.find w₁.directory s.output = .ok (out, .directory))
    (he : ∀ k ≠ [], w₁.files.get? (out ++ k) = none) (h : exec (run s) w = (.ok report, u))
    (hc : ∀ d ∈ processed s w, d.isDirectory → isContent d.path = false)
    (hk : k.IsPlain) (hne : k ≠ []) :
    u.files.get? (out ++ k) = some .directory ↔
      ∃ d ∈ mirrored s w, d.path = s.source / toRelative k := by
  have ho := opens_of_vacant hf he
  constructor
  case mp => exact exists_mirrored_of_get? hm ho h hc hne (he k hne)
  case mpr =>
    rintro ⟨d, hd, hp⟩
    obtain ⟨hpro, hdir⟩ := List.mem_filter.mp hd
    exact get?_of_mem_mirrored hm ho h hd (hc d hpro hdir) hp hk hne

theorem directoryCount_eq (hm : exec (makeDirectory s.output) w = (.ok (), w₁))
    (hf : w₁.files.find w₁.directory s.output = .ok (out, .directory))
    (he : ∀ k ≠ [], w₁.files.get? (out ++ k) = none) (h : exec (run s) w = (.ok report, u))
    (hc : ∀ d ∈ processed s w, d.isDirectory → isContent d.path = false) :
    directoryCount u.files out = report.directories := by
  have hlen : ∀ fs : FileSystem, directoryCount fs out = (((fs.below out).filter fun x =>
      decide (x.2 = .directory)).map fun x => s.source / toRelative x.1).length := by
    intro fs
    rw [directoryCount, List.countP_eq_length_filter, List.length_map]
  have hnodup : ((mirrored s w).map Visit.path).Nodup :=
    tidy_visits.nodup.sublist ((List.filter_sublist.trans List.filter_sublist).map _)
  rw [directories_eq_length hm h, hlen, ← List.length_map (f := Visit.path)]
  apply List.Perm.length_eq
  refine (List.perm_ext_iff_of_nodup (nodup_map_below (q := fun x => decide (x.1 = .directory)))
    hnodup).mpr fun q => ?_
  simp only [List.mem_map, List.mem_filter, Prod.exists, mem_below, decide_eq_true_eq]
  constructor
  case mp =>
    rintro ⟨k, e, ⟨⟨hne, hg⟩, rfl⟩, rfl⟩
    have hk := (isStraight_of_get? hg).of_append.2.isPlain
    obtain ⟨d, hd, hp⟩ := (get?_eq_directory_iff hm hf he h hc hk hne).mp hg
    exact ⟨d, hd, hp⟩
  case mpr =>
    rintro ⟨d, hd, rfl⟩
    obtain ⟨dir, name, hs, hp⟩ :=
      straight_of_mem_visits (List.mem_of_mem_filter (List.mem_of_mem_filter hd))
    refine ⟨dir ++ [name], .directory, ⟨⟨by simp, ?_⟩, rfl⟩, hp.symm⟩
    exact (get?_eq_directory_iff hm hf he h hc hs.isPlain (by simp)).mpr ⟨d, hd, hp⟩

-- What is in a directory that is mirrored goes right into the place of the directory, unless the
-- directory has the name of a content file. If none has, a build into an empty output has as many
-- directories there as it has counted.
theorem directories_consistent :
    (∀ d ∈ processed s w, ∀ c ∈ processed s w, d.isDirectory →
      ∀ name, IsName name → c.path = d.path / ⟨name⟩ →
      ∃ p q, destination? s c.path = some p ∧ destination? s d.path = some q ∧
        (p.parent? = some q ↔ isContent d.path = false)) ∧
    ∀ w₁ out report u, exec (makeDirectory s.output) w = (.ok (), w₁) →
      w₁.files.find w₁.directory s.output = .ok (out, .directory) →
      (∀ k ≠ [], w₁.files.get? (out ++ k) = none) → exec (run s) w = (.ok report, u) →
      (∀ d ∈ processed s w, d.isDirectory → isContent d.path = false) →
      directoryCount u.files out = report.directories := by
  constructor
  case left =>
    intro d hd c _ _ name hn hc
    exact parent?_destination?_iff (List.mem_of_mem_filter hd) hn hc
  case right =>
    intro w₁ out report u hm hf he h hc
    exact directoryCount_eq hm hf he h hc

-- A source with a directory of the given name.
def directoryInSource (name : String) : World where
  files := ((FileSystem.empty.put [] "s" .directory).put ["s"] name .directory).put ["s", name] "x"
    (.file "a".toUTF8)
  directory := []
  log := []

theorem directoryInSource_inconsistent :
    ∃ d ∈ processed relativeSession (directoryInSource "d.md"),
      ∃ c ∈ processed relativeSession (directoryInSource "d.md"),
        d.isDirectory ∧ c.path = d.path / "x" ∧
        destination? relativeSession d.path = some "o/d.html" ∧
        destination? relativeSession c.path = some "o/d.md/x" ∧
        Path.parent? "o/d.md/x" ≠ some "o/d.html" ∧
        ∃ report u, exec (run relativeSession) (directoryInSource "d.md") = (.ok report, u) ∧
          directoryCount u.files ["o"] ≠ report.directories := by
  decide +kernel

theorem directoryInSource_directories_consistent :
    (∃ d ∈ processed relativeSession (directoryInSource "d"),
      ∃ c ∈ processed relativeSession (directoryInSource "d"), d.isDirectory ∧
        c.path = d.path / "x" ∧ ∃ p q, destination? relativeSession c.path = some p ∧
          destination? relativeSession d.path = some q ∧
          (p.parent? = some q ↔ isContent d.path = false)) ∧
    ∃ report u, exec (run relativeSession) (directoryInSource "d") = (.ok report, u) ∧
      directoryCount u.files ["o"] = report.directories := by
  obtain ⟨hpair, hcount⟩ := directories_consistent (s := relativeSession) (w := directoryInSource "d")
  constructor
  case left =>
    obtain ⟨d, hd, c, hc, hdir, hp⟩ : ∃ d ∈ processed relativeSession (directoryInSource "d"),
        ∃ c ∈ processed relativeSession (directoryInSource "d"),
          d.isDirectory ∧ c.path = d.path / "x" := by
      decide +kernel
    exact ⟨d, hd, c, hc, hdir, hp, hpair d hd c hc hdir "x" (by decide) hp⟩
  case right =>
    obtain ⟨_, w₁, hm, hf, hb⟩ :
        ∃ a w₁, exec (makeDirectory relativeSession.output) (directoryInSource "d") = (.ok a, w₁) ∧
          w₁.files.find w₁.directory relativeSession.output = .ok (["o"], .directory) ∧
          w₁.files.below ["o"] = [] := by
      decide +kernel
    obtain ⟨report, u, h, -⟩ :
        ∃ report u, exec (run relativeSession) (directoryInSource "d") = (.ok report, u) ∧ True := by
      decide +kernel
    refine ⟨report, u, h, hcount w₁ ["o"] report u hm hf ?_ h (by decide +kernel)⟩
    intro k hk
    apply Option.eq_none_iff_forall_ne_some.mpr
    intro e he
    exact List.not_mem_nil (hb ▸ mem_below.mpr ⟨hk, he⟩)

end StaticSite.Build
