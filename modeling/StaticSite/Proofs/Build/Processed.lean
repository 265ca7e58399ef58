import StaticSite.Proofs.Build.Perform
import StaticSite.Proofs.Walk.Visits
/-!
The entries that a build compiles, copies or mirrors. Main statements: where they stand
(`tidy_visits`), that a build is what it does for them, one after another (`course_run`), and that
what is left out is left out with all that is in it (`not_prefix_of_isExcluded`).
-/
namespace StaticSite.Build

open FileSystem Action Location Walk Extension

-- The visits of a build, in their order.
def visits (s : Session) (w : World) : List (Visit Report) :=
  match exec (makeDirectory s.output) w with
  | (.ok _, w) => Walk.visits .walk (visit s) s.source {} w
  | (.error _, _) => []

-- The entries that are part of the site.
def processed (s : Session) (w : World) : List (Visit Report) :=
  (visits s w).filter fun v => !s.isExcluded v.path

variable {s : Session} {p : Path} {src out : Location} {w u : World}
  {isDirectory : Bool} {r : Report}

theorem exec_visit_of_isExcluded (h : s.isExcluded p) :
    ∃ log, exec (visit s p isDirectory r) w = (.ok none, { w with log }) := by
  rw [visit, if_pos h]
  exact ⟨_, rfl⟩

theorem exec_visit (h : s.isExcluded p = false) :
    exec (visit s p isDirectory r) w =
      ((exec (perform s p isDirectory r) w).1.map some,
        (exec (perform s p isDirectory r) w).2) := by
  rw [visit, if_neg (by simp [h]), exec_bind]
  rcases exec (perform s p isDirectory r) w with ⟨_ | _, _⟩ <;> rfl

theorem isExcluded_eq_false_of_exec_visit {r' : Report}
    (h : exec (visit s p isDirectory r) w = (.ok (some r'), u)) : s.isExcluded p = false := by
  apply Bool.eq_false_iff.mpr
  intro he
  obtain ⟨log, hl⟩ := exec_visit_of_isExcluded he
  rw [hl] at h
  simp at h

theorem exec_perform_of_exec_visit {x : Option Report} (hx : s.isExcluded p = false)
    (h : exec (visit s p isDirectory r) w = (.ok x, u)) :
    ∃ r', x = some r' ∧ exec (perform s p isDirectory r) w = (.ok r', u) := by
  rw [exec_visit hx] at h
  rcases he : exec (perform s p isDirectory r) w with ⟨e | r', u'⟩ <;> rw [he] at h
  case error => simp [Except.map] at h
  case ok =>
    obtain ⟨h, rfl⟩ := Prod.ext_iff.mp h
    exact ⟨r', by simpa [Except.map] using h.symm, rfl⟩

-- What a visit counts if it succeeds.
theorem exec_visit_eq_ok {dir : Location} {name : String} {v : Visit Report} {x : Option Report}
    (hs : IsStraight (dir ++ [name])) (hv : v.path = s.source / toRelative (dir ++ [name]))
    (h : v.exec (visit s) = (.ok x, u)) :
    x.getD v.state = if s.isExcluded v.path then v.state
      else v.state.count v.isDirectory (isContentName name) := by
  cases hx : s.isExcluded v.path
  case true =>
    obtain ⟨log, he⟩ := exec_visit_of_isExcluded hx
    rw [Visit.exec, he] at h
    obtain rfl : none = x := by simpa using (Prod.ext_iff.mp h).1
    rfl
  case false =>
    obtain ⟨r', rfl, he⟩ := exec_perform_of_exec_visit hx h
    rw [hv] at he
    rw [Option.getD_some, exec_perform_below_eq_ok hs he, if_neg (by simp)]

-- The visit is one of a walk over the source.
def IsInside (src : Location) (v : Visit Report) : Prop :=
  ∃ dir name, IsStraight (dir ++ [name]) ∧ v.path = toPath (src ++ (dir ++ [name]))

theorem addsDirectories_exec_visit {v : Visit Report} (h : s.isExcluded v.path) :
    v.world.AddsDirectories (fun _ => False) (v.exec (visit s)).2 := by
  obtain ⟨log, he⟩ := exec_visit_of_isExcluded h
  rw [Visit.exec, he]
  exact ⟨.refl _ v.world.files, rfl⟩

theorem outcome_visit {v : Visit Report} (hb : s.Between src out) (hv : IsInside src v)
    (hf : v.world.files.Linkless) (hx : s.isExcluded v.path = false) :
    ∃ l, IsPlain l ∧ destination? s v.path = some l.toPath ∧
      Outcome l v.isDirectory (contents? s v.path v.world) v.world (v.exec (visit s)) := by
  obtain ⟨dir, name, hs, hv⟩ := hv
  have hp := hb.straight_output.isPlain.append (isPlain_target hs.isPlain)
  refine ⟨out ++ target (dir ++ [name]), hp, ?_, ?_⟩
  · rw [hv, destination?_toPath hb hs]
  · rw [Visit.exec, exec_visit hx, hv]
    exact (outcome_perform hb hs hf).map

theorem exists_of_mem_visits {v : Visit Report} (h : v ∈ visits s w) :
    ∃ u, exec (makeDirectory s.output) w = (.ok (), u) ∧
      v ∈ Walk.visits .walk (visit s) s.source {} u := by
  unfold visits at h
  split at h
  case h_1 he => exact ⟨_, he, h⟩
  case h_2 => simp at h

theorem course_run (h : exec (makeDirectory s.output) w = (.ok (), u)) :
    Course (visit s) {} u (visits s w) (exec (Walk.run .walk (visit s) s.source {}) u) := by
  rw [visits, h]
  exact course_visits

theorem linkless_exec_visit {v : Visit Report} (hb : s.Between src out)
    (hv : IsInside src v) (hf : v.world.files.Linkless) : (v.exec (visit s)).2.files.Linkless := by
  cases hx : s.isExcluded v.path
  case true => exact (addsDirectories_exec_visit hx).1.linkless hf
  case false =>
    obtain ⟨l, -, -, ho⟩ := outcome_visit hb hv hf hx
    exact ho.linkless hf

-- A build is a walk over the source. At the end it only logs what has been done.
theorem exec_run (h : exec (makeDirectory s.output) w = (.ok (), u)) :
    (exec (run s) w).1 = (exec (Walk.run .walk (visit s) s.source {}) u).1 ∧
      (exec (run s) w).2.files = (exec (Walk.run .walk (visit s) s.source {}) u).2.files := by
  rw [Build.run, exec_bind_of_ok h, exec_bind]
  generalize exec (Walk.run _ _ _ _) u = x
  obtain ⟨e | r, t⟩ := x <;> exact ⟨rfl, rfl⟩

theorem exists_course_of_run {t : World} {x : Except Error Report}
    (hm : exec (makeDirectory s.output) w = (.ok (), u)) (h : exec (run s) w = (x, t)) :
    ∃ v, Course (visit s) {} u (visits s w) (x, v) ∧ t.files = v.files := by
  obtain ⟨h₁, h₂⟩ := exec_run (s := s) hm
  rw [h] at h₁ h₂
  obtain rfl : x = _ := h₁
  exact ⟨_, course_run hm, h₂⟩

-- No directory is excluded that an entry is reached through.
theorem tidy_visits :
    Tidy (s.isExcluded · = false) s.source (fun _ => True) (visits s w) := by
  unfold visits
  split
  case h_1 => exact Walk.tidy_visits fun _ _ _ _ _ _ => isExcluded_eq_false_of_exec_visit
  case h_2 => exact .nil

-- An entry is below the source, however the source is written.
theorem below_source_of_mem_visits {v : Visit Report} (hv : v ∈ visits s w) :
    ∃ dir name, (∀ n ∈ dir ++ [name], IsName n) ∧
      v.path = s.source / toRelative (dir ++ [name]) := by
  obtain ⟨n, l, -, hn, hl, -⟩ := tidy_visits.below v hv
  obtain ⟨dir, name, he⟩ := (List.eq_nil_or_concat' (n :: l)).resolve_left (by simp)
  exact ⟨dir, name, he ▸ hn, he ▸ hl⟩

theorem straight_of_mem_visits {v : Visit Report} (hv : v ∈ visits s w) :
    ∃ dir name, IsStraight (dir ++ [name]) ∧ v.path = s.source / toRelative (dir ++ [name]) := by
  obtain ⟨dir, name, hn, hp⟩ := below_source_of_mem_visits hv
  exact ⟨dir, name, isStraight_of_isName hn, hp⟩

theorem exists_location_of_mem_visits (hs : s.source = src.toPath) (hp : src.IsPlain)
    {v : Visit Report} (hv : v ∈ visits s w) :
    ∃ dir name, (∀ n ∈ dir ++ [name], IsName n) ∧ v.path = toPath (src ++ (dir ++ [name])) := by
  obtain ⟨dir, name, hn, he⟩ := below_source_of_mem_visits hv
  exact ⟨dir, name, hn, by rw [he, hs, hp.toPath_div (fun n hm => (hn n hm).isStep) (by simp)]⟩

theorem isInside_of_mem_visits (hs : s.source = src.toPath) (hp : src.IsPlain) {v : Visit Report}
    (hv : v ∈ visits s w) : IsInside src v := by
  obtain ⟨dir, name, hn, hv⟩ := exists_location_of_mem_visits hs hp hv
  exact ⟨dir, name, isStraight_of_isName hn, hv⟩

-- An entry that is processed is not excluded, nor is anything between it and the source.
theorem isExcluded_eq_false_of_mem_processed (hs : s.source = src.toPath) (hp : src.IsPlain)
    {v : Visit Report} (hv : v ∈ processed s w) {l : Location} (hl : v.path = toPath (src ++ l))
    (hn : l.IsPlain) {k : Location} (hk : k <+: l) (hne : k ≠ []) :
    s.isExcluded (toPath (src ++ k)) = false := by
  obtain ⟨hv, he⟩ := List.mem_filter.mp hv
  obtain ⟨n, m, -, hm, hp', hx⟩ := tidy_visits.below v hv
  have hm : IsPlain (n :: m) := fun x hx => (hm x hx).isStep
  have hd {k : Location} (hk : k.IsPlain) (hne : k ≠ []) :
      s.source / toRelative k = toPath (src ++ k) := by
    rw [hs, hp.toPath_div hk hne]
  rw [hl, hd hm (by simp), (hp.append hn).toPath_inj (hp.append hm),
    List.append_cancel_left_eq] at hp'
  subst hp'
  by_cases hkl : k = n :: m
  case pos =>
    rw [hkl, ← hl]
    simpa using he
  case neg =>
    obtain ⟨x, k, rfl⟩ := List.exists_cons_of_ne_nil hne
    obtain ⟨rfl, hkm⟩ := List.cons_prefix_cons.mp hk
    rw [← hd (hm.of_prefix hk) hne]
    exact hx k hkm fun he => hkl (he ▸ rfl)

theorem exists_location_eq_of_mem_processed {v : Visit Report} (hb : s.Between src out)
    (hv : v ∈ processed s w) :
    ∃ r, IsStraight r ∧ v.path = (src ++ r).toPath ∧ v.path.location = src ++ r := by
  obtain ⟨dir, name, hs, hp⟩ := isInside_of_mem_visits hb.source hb.straight_source.isPlain
    (List.mem_of_mem_filter hv)
  exact ⟨dir ++ [name], hs, hp, hp ▸ (hb.straight_source.append hs).location_toPath⟩

-- What is left out is left out with all that is in it.
theorem not_prefix_of_isExcluded {k : Location} (hb : s.Between src out) (hk : k ≠ [])
    (hx : s.isExcluded (src ++ k).toPath) : ∀ v ∈ processed s w, ¬src ++ k <+: v.path.location := by
  intro v hv hl
  obtain ⟨r, hr, hp, he⟩ := exists_location_eq_of_mem_processed hb hv
  rw [he, List.prefix_append_right_inj] at hl
  have hn := isExcluded_eq_false_of_mem_processed hb.source hb.straight_source.isPlain hv hp
    hr.isPlain hl hk
  simp [hn] at hx

-- What is in the output is left out, unless the output holds the source.
theorem not_output_prefix (hb : s.Between src out) (ho : ¬out <+: src) :
    ∀ v ∈ processed s w, ¬out <+: v.path.location := by
  intro v hv hp
  obtain ⟨r, -, -, he⟩ := exists_location_eq_of_mem_processed hb hv
  rcases List.prefix_or_prefix_of_prefix (he ▸ hp) (List.prefix_append _ _) with hc | ⟨m, rfl⟩
  case inl => exact ho hc
  case inr =>
    have hne : m ≠ [] := by
      rintro rfl
      exact ho (by simp)
    have hx : s.isExcluded (src ++ m).toPath := by
      simp [Session.isExcluded, hb.output, Path.same_refl]
    exact not_prefix_of_isExcluded hb hne hx v hv hp

theorem keeps_record {level : Log.Level} {message : String} :
    Keeps World.Grows (record level message : Action Error Unit) :=
  fun w => ⟨.refl w.files, rfl⟩

theorem keeps_perform : Keeps World.Grows (perform s p isDirectory r) := by
  have hm {q : Path} : Keeps World.Grows (Disk.makeDirectories q) :=
    Disk.keeps_makeDirectories.mono fun h => h.grows
  have hpart {target : Path} {isContent : Bool} :
      Keeps World.Grows (part s p target isDirectory isContent) :=
    keeps_part hm (fun _ _ => hm) (fun _ => Disk.keeps_write) Disk.keeps_copy
  cases h : p.stripPrefix? s.source
  case none => exact perform_eq_none h ▸ .pure r
  case some =>
    obtain ⟨level, message, hp⟩ : ∃ level message, perform s p isDirectory r = _ := perform_eq h
    exact hp ▸ keeps_record.bind fun _ => hpart.bind fun _ => .pure _

-- Whatever is in the way, a visit takes nothing away.
theorem keeps_visit : Keeps World.Grows (visit s p isDirectory r) := by
  unfold visit
  split
  · exact keeps_record.bind fun _ => .pure _
  · exact keeps_perform.bind fun _ => .pure _

end StaticSite.Build
