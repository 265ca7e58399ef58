import StaticSite.Proofs.Build.Processed
import StaticSite.Proofs.Disk.Below
import StaticSite.Proofs.Walk.Parents
/-!
What a build leaves alone, whatever the source and its links are like, if there are no links in the
output. Main statements: work on one entry touches its place in the output and nothing else
(`touches_exec_visit`), and so at every step of a build nothing outside of the output has changed
and nothing in it has been taken away (`confined_run`).
-/
namespace StaticSite.Build

open FileSystem Action Location Walk Extension Disk

-- The location is the place of an entry that has been worked on.
def IsPlaceOf (s : Session) (out : Location) (vs : List (Visit Report)) (k : Location) : Prop :=
  ∃ v ∈ vs, s.isExcluded v.path = false ∧ ∃ r, IsPlain r ∧ r ≠ [] ∧ k = out ++ r ∧
    destination? s v.path = some (s.output / toRelative r)

-- Of two worlds, the second has come of the first by work on these entries and no others.
structure Confined (s : Session) (out : Location) (vs : List (Visit Report)) (w u : World) :
    Prop where
  directory : u.directory = w.directory
  outside {k} : ¬out <+: k → u.files.get? k = w.files.get? k
  kept {k e} : w.files.get? k = some e → ∃ e', u.files.get? k = some e' ∧ e.SameKind e'
  changed {k} : u.files.get? k ≠ w.files.get? k → out <+: k ∧ k ≠ out ∧
    ∃ l, IsPlaceOf s out vs l ∧ k <+: l ∧
      (k = l ∨ w.files.get? k = none ∧ u.files.get? k = some .directory)

variable {s : Session} {out dir k : Location} {name : String} {w w₁ u : World}
  {v : Visit Report} {vs done rest : List (Visit Report)} {isDirectory : Bool}

theorem IsPlaceOf.mono (h : IsPlaceOf s out vs k) (hs : vs ⊆ done) : IsPlaceOf s out done k := by
  obtain ⟨v, hv, h⟩ := h
  exact ⟨v, hs hv, h⟩

theorem keeps_part_below {p : Path} {isContent : Bool} (hs : IsStraight (dir ++ [name])) :
    Keeps (TouchesIfOpen s.output out (· = out ++ target (dir ++ [name])))
      (part s p (s.output / toRelative (target (dir ++ [name]))) isDirectory isContent) := by
  have hd : dir.IsStraight := hs.of_append.1
  have hn : Path.IsStep (outputName name) := isStep_outputName (hs name (by simp)).1
  rw [target_concat]
  generalize outputName name = name at hn
  have hm : Keeps (TouchesIfOpen s.output out (· = out ++ (dir ++ [name])))
      (makeDirectories (s.output / toRelative (dir ++ [name]))) := by
    obtain ⟨n, k, hk⟩ := List.exists_cons_of_ne_nil (l := dir ++ [name]) (by simp)
    have hp : IsPlain (n :: k) := hk ▸ hd.isPlain.concat hn
    have hdrop : IsStraight (n :: k).dropLast := by rwa [← hk, List.dropLast_concat]
    rw [hk]
    exact (keeps_makeDirectories_below hp hdrop).mono fun h => h.touches fun k hk => ⟨_, rfl, hk⟩
  have hpar {q : Path} (hq : (s.output / toRelative (dir ++ [name])).parent? = some q) :
      Keeps (TouchesIfOpen s.output out (· = out ++ (dir ++ [name]))) (makeDirectories q) := by
    refine (keeps_makeDirectories_parent hd hn hq).mono fun h => h.touches fun k hk => ⟨_, rfl, ?_⟩
    rw [← List.append_assoc]
    exact hk.trans (List.prefix_append _ _)
  exact keeps_part hm (fun _ hq => hpar hq) (fun document => keeps_write_below hd hn document.toUTF8)
    (keeps_copy_below hd hn)

theorem touches_exec_visit (hs : IsStraight (dir ++ [name]))
    (hv : v.path = s.source / toRelative (dir ++ [name])) :
    TouchesIfOpen s.output out (IsPlaceOf s out [v]) v.world (v.exec (visit s)).2 := by
  cases hx : s.isExcluded v.path
  case true =>
    obtain ⟨log, he⟩ := exec_visit_of_isExcluded hx
    rw [Visit.exec, he]
    exact fun _ => ⟨.refl _ v.world.files, rfl⟩
  case false =>
    have hk : Keeps (TouchesIfOpen s.output out (· = out ++ target (dir ++ [name])))
        (perform s v.path v.isDirectory v.state) := by
      obtain ⟨level, message, hp⟩ : ∃ level message, perform s _ v.isDirectory v.state = _ :=
        perform_below hs
      rw [hv, hp]
      have hr : Keeps (TouchesIfOpen s.output out (· = out ++ target (dir ++ [name])))
          (record level message : Action Error Unit) :=
        fun w _ => ⟨.refl _ w.files, rfl⟩
      exact hr.bind fun _ => (keeps_part_below hs).bind fun _ => .pure _
    rw [Visit.exec, exec_visit hx]
    refine fun ho => ⟨(hk v.world ho).1.mono ?_, (hk v.world ho).2⟩
    rintro _ rfl
    exact ⟨v, List.mem_singleton_self v, hx, _, isPlain_target hs.isPlain, by simp, rfl,
      hv ▸ destination?_below hs⟩

theorem confined_of_touches (ho : w.files.get? out = some .directory)
    (h : w.Touches (IsPlaceOf s out vs) u) : Confined s out vs w u := by
  have hc {k} (hk : u.files.get? k ≠ w.files.get? k) : out <+: k ∧ k ≠ out ∧
      ∃ l, IsPlaceOf s out vs l ∧ k <+: l ∧
        (k = l ∨ w.files.get? k = none ∧ u.files.get? k = some .directory) := by
    have ht := h.1 k
    have hplace (hp : IsPlaceOf s out vs k) : out <+: k ∧ k ≠ out := by
      obtain ⟨-, -, -, r, -, hr, rfl, -⟩ := hp
      exact ⟨List.prefix_append _ _, by simpa using hr⟩
    generalize hx : w.files.get? k = x at ht hk ⊢
    generalize u.files.get? k = y at ht hk ⊢
    cases ht
    case same => exact absurd rfl hk
    case added hp =>
      exact ⟨(hplace hp).1, (hplace hp).2, k, hp, List.prefix_refl k, .inl rfl⟩
    case rewritten hp =>
      exact ⟨(hplace hp).1, (hplace hp).2, k, hp, List.prefix_refl k, .inl rfl⟩
    case directory l hp hkl =>
      have hne : k ≠ out := by
        rintro rfl
        simp [ho] at hx
      refine ⟨?_, hne, l, hp, hkl, .inr ⟨rfl, rfl⟩⟩
      obtain ⟨-, -, -, r, -, -, rfl, -⟩ := hp
      apply (List.prefix_or_prefix_of_prefix hkl (List.prefix_append out r)).resolve_left
      intro hpre
      have hd := get?_of_prefix ho hpre hne
      simp [hd] at hx
  constructor
  case directory => exact h.2
  case outside =>
    intro k hk
    by_contra hne
    exact hk (hc hne).1
  case kept => exact fun he => h.grows.1 _ _ he
  case changed => exact hc

theorem touches_exec_visit_of_mem (hvs : vs ⊆ visits s w) :
    ∀ v ∈ vs, TouchesIfOpen s.output out (IsPlaceOf s out vs) v.world (v.exec (visit s)).2 := by
  intro v hv ho
  obtain ⟨dir, name, hs, hp⟩ := straight_of_mem_visits (hvs hv)
  obtain ⟨ht, hd⟩ := touches_exec_visit hs hp ho
  exact ⟨ht.mono fun k hk => hk.mono (by simpa using hv), hd⟩

-- From when the output has been made, a build is confined to it.
theorem confined_of_makeDirectory (hm : exec (makeDirectory s.output) w = (.ok (), w₁))
    (ho : w₁.files.Opens w₁.directory s.output out) :
    Confined s out (visits s w) w₁ (exec (run s) w).2 := by
  have hw := (course_run hm).keeps (touches_exec_visit_of_mem (List.Subset.refl _)) ho
  apply confined_of_touches ho.get?_eq
  rw [Build.run, exec_bind_of_ok hm, exec_bind]
  generalize exec (Walk.run _ _ _ _) w₁ = x at hw ⊢
  obtain ⟨e | r, t⟩ := x
  case error => exact hw
  case ok => exact hw

-- At every step of a build, and at its end, however it ends, nothing outside of the output has
-- changed and nothing has been taken away. What has changed in the output is at the place of an
-- entry that has been visited, or is a directory on the way to one.
theorem confined_run (h : w.files.find w.directory s.output = .ok (out, .directory))
    (hl : ∀ k target, w.files.get? (out ++ k) ≠ some (.link target)) :
    (∀ done v rest, visits s w = done ++ v :: rest →
      Confined s out done w v.world ∧ Confined s out (done ++ [v]) w (v.exec (visit s)).2) ∧
    Confined s out (visits s w) w (exec (run s) w).2 := by
  have ho : w.files.Opens w.directory s.output out := ⟨h, hl⟩
  have hm : exec (makeDirectory s.output) w = (.ok (), w) :=
    exec_orElseThrow_of_ok (makeDirectories_of_find h)
  refine ⟨fun done v rest he => ?_, confined_of_makeDirectory hm ho⟩
  have hd : done ++ [v] ⊆ visits s w := by
    rw [he, List.append_cons done v rest]
    exact List.subset_append_left _ _
  have hc := he ▸ course_run hm
  have hw : w.Touches (IsPlaceOf s out done) v.world := by
    have hstep : ∀ v ∈ done, TouchesIfOpen s.output out (IsPlaceOf s out done) v.world _ :=
      touches_exec_visit_of_mem (List.Subset.trans (List.subset_append_left _ _) hd)
    exact hc.keeps_of_append hstep ho
  have hw' : w.Touches (IsPlaceOf s out (done ++ [v])) v.world :=
    ⟨hw.1.mono fun k hk => hk.mono (List.subset_append_left _ _), hw.2⟩
  refine ⟨confined_of_touches ho.get?_eq hw, confined_of_touches ho.get?_eq ?_⟩
  have hv := touches_exec_visit_of_mem hd v (by simp) (opens_of_touches ho hw')
  exact IsTrans.trans _ _ _ hw' hv

-- A session whose directories are seen from the working directory.
def relativeSession : Session where
  source := "s"
  output := "o"
  layouts := "s/layouts"
  site := {}

-- A source with a link out of it.
def linkedSource : World where
  files := ((((FileSystem.empty.put [] "s" .directory).put ["s"] "l" (.link "../t")).put [] "t"
    .directory).put ["t"] "x" (.file "a".toUTF8)).put [] "o" .directory
  directory := []
  log := []

theorem linkedSource_confined_run :
    linkedSource.files.find linkedSource.directory "o" = .ok (["o"], .directory) ∧
      (∀ k target, linkedSource.files.get? (["o"] ++ k) ≠ some (.link target)) ∧
      Confined relativeSession ["o"] (visits relativeSession linkedSource) linkedSource
        (exec (run relativeSession) linkedSource).2 ∧
      (exec (run relativeSession) linkedSource).2.files.get? ["o", "l", "x"] =
        some (.file "a".toUTF8) := by
  have hf : linkedSource.files.find linkedSource.directory "o" = .ok (["o"], .directory) := by
    decide +kernel
  have hl : ∀ k target, linkedSource.files.get? (["o"] ++ k) ≠ some (.link target) := by
    intro k target hk
    by_cases hn : k = []
    case pos =>
      subst hn
      exact absurd hk (by simp [get?_of_find hf])
    case neg =>
      have he : linkedSource.files.below ["o"] = [] := by decide +kernel
      exact List.not_mem_nil (he ▸ mem_below.mpr ⟨hn, hk⟩)
  exact ⟨hf, hl, (confined_run hf hl).2, by decide +kernel⟩

end StaticSite.Build
