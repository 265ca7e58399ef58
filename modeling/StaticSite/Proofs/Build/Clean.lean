import StaticSite.Proofs.Build.Begun
import StaticSite.Proofs.Disk.Made
import StaticSite.Proofs.Disk.Remove
/-!
Cleaning after a build. Main statement: if the output was missing in a directory that was there,
whatever a build has left is that output, and it is removed again (`exec_clean_of_site`).
-/
namespace StaticSite.Build

open FileSystem Action Location Walk

variable {source output q : Path} {s : Session} {src out dir l : Location} {name : String}
  {w u v w₁ : World} {config : SiteConfig} {x : Except Error Report}

-- Nothing has changed since `w` but that a directory has come to be where `output` leads, with what
-- is in it.
structure Added (output : Path) (w u : World) (dir : Location) (name : String) : Prop where
  resolveLast_eq : w.files.resolveLast w.directory output = .ok (.name dir name)
  vacant : w.files.get? (dir ++ [name]) = none
  directory : u.directory = w.directory
  get?_output : u.files.get? (dir ++ [name]) = some .directory
  get?_eq {k} : ¬dir ++ [name] <+: k → u.files.get? k = w.files.get? k

namespace Added

variable (h : Added output w u dir name)

include h

theorem get?_of_prefix {k : Location} (hk : dir ++ [name] <+: k) : w.files.get? k = none := by
  obtain ⟨m, rfl⟩ := hk
  by_cases hm : m = []
  case pos => simpa [hm] using h.vacant
  case neg => exact get?_append_of_none h.vacant hm

theorem grows : w.files.Grows u.files := by
  intro k e hk
  refine ⟨e, ?_, .refl e⟩
  rw [h.get?_eq, hk]
  intro hp
  rw [h.get?_of_prefix hp] at hk
  simp at hk

theorem exec_clean : ∃ v, exec (clean output) u = (.ok (), v) ∧ v.files = w.files ∧
    v.directory = w.directory := by
  have hr := h.directory ▸ h.resolveLast_eq
  obtain ⟨v, hv, hd, hg⟩ := Disk.exec_removeTree h.grows h.vacant hr h.get?_output
  refine ⟨{ v with log := v.log ++ [⟨.info, "Removed " ++ quoted output.text⟩] }, ?_, ?_, ?_⟩
  · rw [clean, exec_tryCatch, exec_bind_of_ok (exec_orElseThrow_of_ok hv)]
    rfl
  · ext k : 1
    show v.files.get? k = _
    rw [hg]
    split
    case isTrue hk => rw [h.get?_of_prefix hk]
    case isFalse hk => exact h.get?_eq hk
  · exact hd.trans h.directory

end Added

-- It is no failure if there is nothing to remove.
theorem exec_clean_of_find (hf : w.files.Linkless)
    (h : w.files.find w.directory output = .error .notFound) :
    exec (clean output) w = (.ok (), w) := by
  have hr : exec ((Disk.removeTree output).orElseThrow (Error.clean output)) w =
      (.error (.clean output .notFound), w) :=
    exec_orElseThrow_of_error (Disk.exec_removeTree_of_find hf h)
  rw [clean, exec_tryCatch, exec_bind_of_error hr]
  rfl

-- All that a preparation makes is made for the output.
theorem files_of_prepare {x : Except Error Session}
    (h : exec (prepare source output) w = (x, w₁)) : w₁.files = w.files ∨
      ∃ y v, exec (Disk.makeDirectories output) w = (y, v) ∧ w₁.files = v.files := by
  rcases exec_prepare_cases source output w with ⟨config, src, hfound⟩ | ⟨e, log, he, -⟩
  case inr =>
    obtain rfl := (Prod.ext_iff.mp (he.symm.trans h)).2
    exact .inl rfl
  case inl =>
    obtain ⟨log, hp⟩ := hfound.exec_prepare output
    obtain ⟨log', hl⟩ := Disk.ignoresLog_makeDirectories (p := output) w log
    rw [hp, exec_settle, hl] at h
    rcases hm : exec (Disk.makeDirectories output) w with ⟨y | _, v⟩ <;> rw [hm] at h <;>
      obtain rfl := (Prod.mk.inj h).2
    case error => exact .inr ⟨_, v, rfl, rfl⟩
    case ok => exact .inr ⟨_, v, rfl, rfl⟩

-- If the output is missing in a directory that is there, it is made there or nothing is.
theorem added_of_prepare {x : Except Error Session} (hq : output.enclosing? = some q)
    (hd : w.files.find w.directory q = .ok (l, .directory))
    (h : exec (prepare source output) w = (x, w₁)) :
    w₁.files = w.files ∨ ∃ dir name, Added output w w₁ dir name ∧
      w₁.files.find w₁.directory output = .ok (dir ++ [name], .directory) := by
  have hdir := ((keeps_prepare source output).of_exec h).2
  rcases files_of_prepare h with hu | ⟨y, v, hm, hv⟩
  case inl => exact .inl hu
  case inr =>
    rcases Disk.makeDirectories_of_enclosing hq hd hm with rfl | hm
    case inl => exact .inl hv
    case inr =>
      obtain ⟨dir, name, hr, hn, ha, rfl, hf⟩ := Disk.makeDirectory_eq_ok hm
      have hg {k} : w₁.files.get? k = if k = dir ++ [name] then some .directory else
          w.files.get? k := by
        rw [hv]
        exact get?_put ha
      refine .inr ⟨dir, name, ⟨hr, hn, hdir, by simp [hg], fun hk => ?_⟩, ?_⟩
      · rw [hg, if_neg]
        rintro rfl
        exact hk (List.prefix_refl _)
      · rw [hv, hdir]
        exact hf

namespace Begun

theorem extends_visit (h : Begun s src out w₁) {v : Visit Report} (hv : IsInside src v) :
    Extends out w₁ v.world (v.exec (visit s)).2 := by
  intro hw
  obtain ⟨dir, name, hs, hp⟩ := hv
  refine ⟨?_, keeps_visit v.world⟩
  cases hx : s.isExcluded v.path
  case true =>
    have ha := addsDirectories_exec_visit hx
    exact hw.of_files ha.files_eq ha.2
  case false =>
    rw [Visit.exec, exec_visit hx, hp]
    exact hw.exec_perform h hs

theorem frame_makeDirectory (h : Begun s src out w₁) :
    Frame out w₁ (exec (makeDirectory s.output) w₁).2 := by
  have hp := h.between.straight_output
  rw [h.between.output]
  have hk := Disk.keeps_makeDirectories_toPath hp.isPlain (hp.of_prefix (List.dropLast_prefix _))
  refine (Frame.refl h.linkless).addsDirectories h.get?_output (k := []) ?_
  rw [List.append_nil]
  exact hk.orElseThrow w₁ h.linkless

-- A build changes nothing but in the output.
theorem frame_run (h : Begun s src out w₁) : Frame out w₁ (exec (run s) w₁).2 := by
  have ht := h.frame_makeDirectory
  rcases hm : exec (makeDirectory s.output) w₁ with ⟨e | _, t⟩ <;> rw [hm] at ht
  case error =>
    rw [run, exec_bind_of_error hm]
    exact ht
  case ok =>
    have hw := (course_run hm).keeps fun v hv => h.extends_visit
      (isInside_of_mem_visits h.between.source h.between.straight_source.isPlain hv)
    have hw := (hw ht).1
    rw [run, exec_bind_of_ok hm, exec_bind]
    rcases he : exec (Walk.run .walk (visit s) s.source {}) t with ⟨e | r, t'⟩ <;>
      rw [he] at hw ⊢
    case error => exact hw
    case ok => exact hw.of_files rfl rfl

end Begun

-- Whatever a build comes to, it has left everything alone or made the output.
theorem added_of_site (hf : w.files.Linkless) (hq : output.enclosing? = some q)
    (hd : w.files.find w.directory q = .ok (l, .directory))
    (hn : w.files.find w.directory output = .error .notFound)
    (h : exec (site source output) w = (x, u)) :
    u.files = w.files ∧ u.directory = w.directory ∨ ∃ dir name, Added output w u dir name := by
  rw [site_eq_prepare_run, exec_bind] at h
  rcases hp : exec (prepare source output) w with ⟨e | s, w₁⟩ <;> rw [hp] at h <;> dsimp only at h
  case error =>
    obtain rfl := (Prod.ext_iff.mp h).2
    have hdir := ((keeps_prepare source output).of_exec hp).2
    exact (added_of_prepare hq hd hp).imp (⟨·, hdir⟩) fun ⟨dir, name, ha, _⟩ => ⟨dir, name, ha⟩
  case ok =>
    obtain rfl : (exec (run s) w₁).2 = u := (Prod.ext_iff.mp h).2
    obtain ⟨src, e, out, config, hs, ho, rfl, -⟩ := prepare_eq_ok hp
    rcases added_of_prepare hq hd hp with hu | ⟨dir, name, ha, hfind⟩
    case inl =>
      rw [hu, ((keeps_prepare source output).of_exec hp).2, hn] at ho
      simp at ho
    case inr =>
      obtain rfl : dir ++ [name] = out := by
        rw [hfind] at ho
        simpa using ho
      have hsteps : (toPath (dir ++ [name])).steps = dir ++ [name] :=
        (isStraight_of_get? ha.get?_output).isPlain.steps_toPath
      have hout : ¬dir ++ [name] <+: src := by
        intro hp
        have hg := get?_of_find hs
        rw [ha.get?_of_prefix hp] at hg
        simp at hg
      have hb := begun_of_prepare_eq_ok hf hp (by
        rwa [steps_source_of_prepare_eq_ok hp hs, Session.ofConfig, hsteps])
      rw [Session.ofConfig, hsteps] at hb
      have hframe := hb.frame_run
      refine .inr ⟨dir, name, ha.resolveLast_eq, ha.vacant, ?_, ?_, fun hk => ?_⟩
      · exact hframe.directory.trans ha.directory
      · exact (hframe.get?_eq fun hw => hw.2 rfl).trans ha.get?_output
      · exact (hframe.get?_eq fun hw => hk hw.1).trans (ha.get?_eq hk)

end StaticSite.Build
