import StaticSite.Proofs.Build.Prepare
import StaticSite.Proofs.Build.Processed
/-!
What a build does to files that exist before it, where there are no links. Main statements: a file
holds what the build has written there last, or what it held before (`get?_site`), and the files of
the source keep their contents unless the source is in the output (`source_kept_iff`).
-/
namespace StaticSite.Build

open FileSystem Action Location Walk

-- What a visit has written to the file at `l`.
def writtenBy (s : Session) (l : Location) (v : Visit Report) : Option ByteArray :=
  if v.isDirectory = false ∧ (v.exec (visit s)).1.isOk ∧ destination? s v.path = some l.toPath then
    contents? s v.path v.world
  else none

def lastWritten (s : Session) (l : Location) (vs : List (Visit Report)) : Option ByteArray :=
  (vs.filterMap (writtenBy s l)).getLast?

-- What a build has written last to the file at `l`.
def written (source output : Path) (w : World) (l : Location) : Option ByteArray :=
  let (result, w) := exec (prepare source output) w
  result.toOption.bind fun s => lastWritten s l (processed s w)

-- Where the output of a build is, if it comes to that.
def output? (source output : Path) (w : World) : Option Location :=
  (exec (prepare source output) w).1.toOption.map (·.output.steps)

variable {s : Session} {source output : Path} {src out l : Location} {w : World} {c : ByteArray}
  {v : Visit Report} {vs : List (Visit Report)} {r : Report}

theorem get?_exec_visit (hb : s.Between src out) (hv : IsInside src v)
    (hf : v.world.files.Linkless) (hc : v.world.files.get? l = some (.file c)) :
    (v.exec (visit s)).2.files.get? l = some (.file
      ((if s.isExcluded v.path then none else writtenBy s l v).getD c)) := by
  cases hx : s.isExcluded v.path
  case true => exact (addsDirectories_exec_visit hx).1.get? hc
  case false =>
    obtain ⟨k, hk, hd, ho⟩ := outcome_visit hb hv hf hx
    have hl : (destination? s v.path = some l.toPath) ↔ l = k := by
      rw [hd, Option.some_inj, hk.toPath_inj (isStraight_of_get? hc).isPlain, eq_comm]
    have := ho.get?_file hc
    simpa [writtenBy, hl] using this

theorem getD_lastWritten_cons : (lastWritten s l (v :: vs)).getD c =
    (lastWritten s l vs).getD ((writtenBy s l v).getD c) := by
  unfold lastWritten
  cases hw : writtenBy s l v
  case none => rw [List.filterMap_cons_none hw, Option.getD_none]
  case some =>
    rw [List.filterMap_cons_some hw, List.getLast?_cons, Option.getD_some, Option.getD_some]

theorem get?_course {x : Except Error Report × World} (hb : s.Between src out)
    (h : Course (visit s) r w vs x) (hv : ∀ v ∈ vs, IsInside src v) (hf : w.files.Linkless)
    (hc : w.files.get? l = some (.file c)) :
    x.2.files.get? l = some (.file
      ((lastWritten s l (vs.filter fun v => !s.isExcluded v.path)).getD c)) := by
  induction h generalizing c
  case done => exact hc
  case lost => exact hc
  case failed v e u he =>
    have hk := get?_exec_visit hb (hv v List.mem_cons_self) hf hc
    rw [he] at hk
    rw [hk]
    cases hx : s.isExcluded v.path
    case true => simp [hx, lastWritten]
    case false => simp [hx, lastWritten]
  case step v a u vs x he hs hi =>
    have hk := get?_exec_visit hb (hv v List.mem_cons_self) hf hc
    have hl := linkless_exec_visit hb (hv v List.mem_cons_self) hf
    rw [he] at hk hl
    rw [hi (fun u hu => hv u (List.mem_cons_of_mem _ hu)) hl hk]
    cases hx : s.isExcluded v.path
    case true => simp [hx]
    case false => simp [hx, getD_lastWritten_cons]

theorem get?_run (hb : s.Between src out) (hf : w.files.Linkless)
    (hc : w.files.get? l = some (.file c)) :
    (exec (run s) w).2.files.get? l = some (.file ((lastWritten s l (processed s w)).getD c)) := by
  rw [processed]
  rcases h : exec (makeDirectory s.output) w with ⟨e | _, u⟩ <;>
    have hm := keeps_makeDirectory.of_exec h
  case error =>
    rw [Build.run, exec_bind_of_error h]
    simpa [visits, h, lastWritten] using hm.1.get? hc
  case ok =>
    have hv : ∀ v ∈ visits s w, IsInside src v :=
      fun v => isInside_of_mem_visits hb.source hb.straight_source.isPlain
    rw [(exec_run h).2]
    exact get?_course hb (course_run h) hv (hm.1.linkless hf) (hm.1.get? hc)

-- A file holds what has been written last, or what it held before.
theorem get?_site (hf : w.files.Linkless) (hc : w.files.get? l = some (.file c)) :
    (exec (site source output) w).2.files.get? l =
      some (.file ((written source output w l).getD c)) := by
  rw [site_eq_prepare_run, exec_bind, written]
  have hp := keeps_prepare source output w
  rcases h : exec (prepare source output) w with ⟨e | s, u⟩ <;> rw [h] at hp
  case error => exact hp.1.get? hc
  case ok =>
    exact get?_run (between_of_prepare_eq_ok h) (hp.1.linkless hf) (hp.1.get? hc)

theorem prefix_of_writtenBy {b : ByteArray} (hb : s.Between src out) (hv : IsInside src v)
    (hl : l.IsPlain) (h : writtenBy s l v = some b) : out <+: l := by
  obtain ⟨dir, name, hs, hv⟩ := hv
  unfold writtenBy at h
  split at h
  case isFalse => simp at h
  case isTrue hd =>
    obtain ⟨-, -, hd⟩ := hd
    have hp := hb.straight_output.isPlain.append (isPlain_target hs.isPlain)
    rw [hv, destination?_toPath hb hs, Option.some_inj, hp.toPath_inj hl] at hd
    exact hd ▸ List.prefix_append out _

-- Nothing is written outside the output.
theorem exists_output_of_written {b : ByteArray} (hl : l.IsPlain)
    (h : written source output w l = some b) :
    ∃ s w₁, exec (prepare source output) w = (.ok s, w₁) ∧ s.output.steps <+: l := by
  unfold written at h
  rcases he : exec (prepare source output) w with ⟨e | s, u⟩ <;> rw [he] at h
  case error => simp [Except.toOption] at h
  case ok =>
    have hb := between_of_prepare_eq_ok he
    obtain ⟨v, hv, hw⟩ := List.mem_filterMap.mp (List.mem_of_getLast? h)
    have hv := isInside_of_mem_visits hb.source hb.straight_source.isPlain
      (List.mem_of_mem_filter hv)
    exact ⟨s, u, rfl, prefix_of_writtenBy hb hv hl hw⟩

theorem ne_of_mem_output? {e : Entry} (hs : w.files.find w.directory source = .ok (src, e))
    (ho : out ∈ output? source output w) : src ≠ out := by
  unfold output? at ho
  rcases he : exec (prepare source output) w with ⟨_ | s, u⟩ <;> rw [he] at ho
  case error => simp [Except.toOption] at ho
  case ok =>
    obtain rfl : s.output.steps = out := by simpa [Except.toOption] using ho
    exact steps_source_of_prepare_eq_ok he hs ▸ (between_of_prepare_eq_ok he).ne

-- The files of the source keep their contents if the source is not in the output. If it is, they
-- keep them as long as nothing else is written last in their places.
theorem source_kept_iff {e : Entry} (hf : w.files.Linkless)
    (hs : w.files.find w.directory source = .ok (src, e)) :
    (∀ l c, src <+: l → w.files.get? l = some (.file c) →
      (∀ out ∈ output? source output w, ¬(src <+: out ∧ out <+: l)) →
      (exec (site source output) w).2.files.get? l = some (.file c)) ↔
    ∀ out ∈ output? source output w, out <+: src →
      ∀ l c, src <+: l → w.files.get? l = some (.file c) →
      ∀ b ∈ written source output w l, b = c := by
  constructor
  case mp =>
    intro h out ho hp l c hl hc b hb
    have hx : ∀ out ∈ output? source output w, ¬(src <+: out ∧ out <+: l) := by
      rintro out' ho' ⟨hp', -⟩
      obtain rfl : out = out' := Option.mem_unique ho ho'
      exact ne_of_mem_output? hs ho (List.IsPrefix.eq_of_length_le hp' hp.length_le)
    have := h l c hl hc hx
    rw [get?_site hf hc, Option.mem_def.mp hb] at this
    simpa using this
  case mpr =>
    intro h l c hl hc hx
    rw [get?_site hf hc]
    cases hb : written source output w l
    case none => rfl
    case some b =>
      obtain ⟨s, u, he, hp⟩ := exists_output_of_written (isStraight_of_get? hc).isPlain hb
      have ho : s.output.steps ∈ output? source output w := by
        simp [output?, he, Except.toOption]
      -- the source is in the output, as the output is not in the source
      cases List.prefix_or_prefix_of_prefix hp hl
      case inl hp' => rw [Option.getD_some, h _ ho hp' l c hl hc b hb]
      case inr hp' => exact absurd ⟨hp', hp⟩ (hx _ ho)

-- A source in the output, with a directory of its own name in it.
def nestedSource : World where
  files := (((FileSystem.empty.put [] "s" .directory).put ["s"] "s" .directory).put ["s", "s"] "x"
    (.file "a".toUTF8)).put ["s"] "x" (.file "b".toUTF8)
  directory := []
  log := []

theorem nestedSource_linkless : nestedSource.files.Linkless :=
  (((Linkless.empty.put (by simp)).put (by simp)).put (by simp)).put (by simp)

theorem nestedSource_not_kept :
    nestedSource.files.Linkless ∧
      nestedSource.files.find nestedSource.directory "s" = .ok (["s"], .directory) ∧
      ¬∀ l c, ["s"] <+: l → nestedSource.files.get? l = some (.file c) →
        (∀ out ∈ output? "s" "." nestedSource, ¬(["s"] <+: out ∧ out <+: l)) →
        (exec (site "s" ".") nestedSource).2.files.get? l = some (.file c) := by
  refine ⟨nestedSource_linkless, by decide +kernel, fun h => ?_⟩
  have hx := h ["s", "x"] "b".toUTF8 (by decide) (by decide +kernel) (by decide +kernel)
  exact absurd hx (by decide +kernel)

theorem nestedSource_source_kept_iff :
    nestedSource.files.Linkless ∧
      nestedSource.files.find nestedSource.directory "s" = .ok (["s"], .directory) ∧
      ((∀ l c, ["s"] <+: l → nestedSource.files.get? l = some (.file c) →
        (∀ out ∈ output? "s" "." nestedSource, ¬(["s"] <+: out ∧ out <+: l)) →
        (exec (site "s" ".") nestedSource).2.files.get? l = some (.file c)) ↔
      ∀ out ∈ output? "s" "." nestedSource, out <+: ["s"] →
        ∀ l c, ["s"] <+: l → nestedSource.files.get? l = some (.file c) →
        ∀ b ∈ written "s" "." nestedSource l, b = c) := by
  have hs : nestedSource.files.find nestedSource.directory "s" = .ok (["s"], .directory) := by
    decide +kernel
  exact ⟨nestedSource_linkless, hs, source_kept_iff nestedSource_linkless hs⟩

end StaticSite.Build
