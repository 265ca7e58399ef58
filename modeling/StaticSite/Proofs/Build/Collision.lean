import Mathlib.Data.List.Dedup
import StaticSite.Proofs.Build.Prepare
import StaticSite.Proofs.Build.Processed
/-!
Whether each file of the source has an output file of its own, where there are no links. Main
statement: a build has lost none if no directory holds a content file and its page
(`nodup_destinations_iff`).
-/
namespace StaticSite

open FileSystem Action Location Walk Extension

theorem length_eq_iff_nodup {α : Type} [DecidableEq α] {as bs : List α} (ha : as.Nodup)
    (h : ∀ a, a ∈ as ↔ a ∈ bs) : as.length = bs.length ↔ bs.Nodup := by
  have hp : as.Perm bs.dedup :=
    (List.perm_ext_iff_of_nodup ha (List.nodup_dedup bs)).mpr fun a => by simp [h]
  rw [hp.length_eq]
  constructor
  · intro he
    exact List.dedup_eq_self.mp ((List.dedup_sublist bs).eq_of_length he)
  · intro hn
    rw [List.dedup_eq_self.mpr hn]

def Entry.isFile : Entry → Bool
  | .file _ => true
  | _ => false

namespace Build

-- Whether a build compiles or copies the entry, and has one file more by that.
def isFileOf (s : Session) (v : Visit Report) : Bool :=
  !s.isExcluded v.path && !v.isDirectory

-- The files that a build compiles or copies.
def processedFiles (s : Session) (w : World) : List (Visit Report) :=
  (visits s w).filter (isFileOf s)

variable {s : Session} {source output : Path} {src out l : Location} {w u w₁ : World}
  {v : Visit Report} {vs : List (Visit Report)} {r r' report : Report}

theorem fileTotal_exec_visit (hb : s.Between src out) (hv : IsInside src v)
    {x : Option Report} (h : v.exec (visit s) = (.ok x, u)) :
    (x.getD v.state).pages + (x.getD v.state).files =
      v.state.pages + v.state.files + if isFileOf s v then 1 else 0 := by
  obtain ⟨dir, name, hs, hp⟩ := hv
  rw [← hb.source_div hs] at hp
  rw [exec_visit_eq_ok hs hp h, isFileOf]
  cases s.isExcluded v.path <;> cases hd : v.isDirectory <;> cases hc : isContentName name <;>
    simp [Report.count, Nat.add_assoc, Nat.add_left_comm, Nat.add_comm]

theorem isFile_exec_visit (hb : s.Between src out) (hv : IsInside src v)
    (hf : v.world.files.Linkless) {x : Option Report} (h : v.exec (visit s) = (.ok x, u))
    (hl : l.IsPlain) :
    (∃ c, u.files.get? l = some (.file c)) ↔ (∃ c, v.world.files.get? l = some (.file c)) ∨
      isFileOf s v ∧ destination? s v.path = some l.toPath := by
  unfold isFileOf
  cases hx : s.isExcluded v.path
  case true =>
    have ha : u.files = v.world.files := by
      have := (addsDirectories_exec_visit hx).files_eq
      rwa [h] at this
    simp [ha]
  case false =>
    obtain ⟨k, hk, hd, ho⟩ := outcome_visit hb hv hf hx
    rw [h] at ho
    have := ho.isFile_iff (k := l) rfl
    simpa [hd, hk.toPath_inj hl] using this

-- What a build that succeeds has counted, and where there are files when it ends.
theorem course_eq_ok (hb : s.Between src out) (h : Course (visit s) r w vs (.ok r', u))
    (hv : ∀ v ∈ vs, IsInside src v) (hf : w.files.Linkless) :
    r'.pages + r'.files = r.pages + r.files + (vs.filter (isFileOf s)).length ∧
      ∀ l, IsPlain l → ((∃ c, u.files.get? l = some (.file c)) ↔
        (∃ c, w.files.get? l = some (.file c)) ∨
          ∃ v ∈ vs.filter (isFileOf s), destination? s v.path = some l.toPath) := by
  generalize hx : (Except.ok r', u) = x at h
  induction h
  case done r w =>
    obtain ⟨rfl, rfl⟩ : r' = r ∧ u = w := by simpa using hx
    simp
  case lost => simp at hx
  case failed => simp at hx
  case step v a t vs y he hs hi =>
    have hc := fileTotal_exec_visit hb (hv v List.mem_cons_self) he
    have hl := linkless_exec_visit hb (hv v List.mem_cons_self) hf
    rw [he] at hl
    obtain ⟨hn, hg⟩ := hi (fun u hu => hv u (List.mem_cons_of_mem _ hu)) hl hx
    constructor
    case left =>
      rw [hn, hc, List.filter_cons]
      split
      · rw [List.length_cons]
        omega
      · rw [Nat.add_zero]
    case right =>
      intro l hl
      rw [hg l hl, isFile_exec_visit hb (hv v List.mem_cons_self) hf he hl, or_assoc]
      apply or_congr_right
      rw [List.filter_cons]
      split <;> simp_all

-- Entries go to the same place only if they are a content file and its page.
theorem destination?_eq_iff (hb : s.Between src out) {dir dir' : Location} {name name' : String}
    (hs : IsStraight (dir ++ [name])) (hs' : IsStraight (dir' ++ [name'])) :
    destination? s (toPath (src ++ (dir ++ [name]))) =
        destination? s (toPath (src ++ (dir' ++ [name']))) ↔
      dir = dir' ∧ (name = name' ∨ SharesPage name name' ∨ SharesPage name' name) := by
  have hp := hb.straight_output.isPlain.append (isPlain_target hs.isPlain)
  have hp' := hb.straight_output.isPlain.append (isPlain_target hs'.isPlain)
  rw [destination?_toPath hb hs, destination?_toPath hb hs', Option.some_inj, hp.toPath_inj hp',
    List.append_cancel_left_eq, target_concat, target_concat, ← List.concat_eq_append,
    ← List.concat_eq_append, List.concat_inj,
    outputName_eq_iff (hs name (by simp)).2 (hs' name' (by simp)).2]

theorem nodup_processedFiles : (processedFiles s w).Nodup :=
  (tidy_visits.nodup.of_map _).filter _

-- A content file and, in the same directory, a file with the name of its page.
def IsPageBeside (src : Location) (a b : Visit Report) : Prop :=
  ∃ dir name name', IsStraight (dir ++ [name]) ∧ IsStraight (dir ++ [name']) ∧
    a.path = toPath (src ++ (dir ++ [name])) ∧ b.path = toPath (src ++ (dir ++ [name'])) ∧
    SharesPage name name'

-- Two files share a place in the output only if a directory holds a content file and its page.
theorem nodup_destinations_iff (hb : s.Between src out) :
    ((processedFiles s w).map (destination? s ·.path)).Nodup ↔
      ∀ a ∈ processedFiles s w, ∀ b ∈ processedFiles s w, ¬IsPageBeside src a b := by
  have hsrc := hb.straight_source.isPlain
  have hinj := List.inj_on_of_nodup_map (tidy_visits (s := s) (w := w)).nodup
  have hin {v} (hv : v ∈ processedFiles s w) : IsInside src v :=
    isInside_of_mem_visits hb.source hsrc (List.mem_of_mem_filter hv)
  rw [List.nodup_map_iff_inj_on nodup_processedFiles]
  constructor
  case mp =>
    rintro h a ha b hb' ⟨dir, name, name', hs, hs', hp, hp', hx⟩
    have he := h a ha b hb' (by rw [hp, hp', destination?_eq_iff hb hs hs']; simp [hx])
    rw [he, hp', (hsrc.append hs'.isPlain).toPath_inj (hsrc.append hs.isPlain)] at hp
    exact hx.ne (by simpa using hp.symm)
  case mpr =>
    intro h a ha b hb' he
    obtain ⟨dir, name, hs, hp⟩ := hin ha
    obtain ⟨dir', name', hs', hp'⟩ := hin hb'
    rw [hp, hp', destination?_eq_iff hb hs hs'] at he
    obtain ⟨rfl, rfl | hx | hx⟩ := he
    · exact hinj (List.mem_of_mem_filter ha) (List.mem_of_mem_filter hb') (hp.trans hp'.symm)
    · exact absurd ⟨dir, name, name', hs, hs', hp, hp', hx⟩ (h a ha b hb')
    · exact absurd ⟨dir, name', name, hs', hs, hp', hp, hx⟩ (h b hb' a ha)

-- How many files there are below a location.
def fileCount (fs : FileSystem) (l : Location) : Nat :=
  (fs.below l).countP (·.2.isFile)

theorem fileCount_eq_length {fs : FileSystem} {α : Type} (f : Location → α) :
    fileCount fs l = (((fs.below l).filter (·.2.isFile)).map (f ·.1)).length := by
  rw [fileCount, List.countP_eq_length_filter, List.length_map]

theorem nodup_map_toPath_below {fs : FileSystem} :
    (((fs.below l).filter (·.2.isFile)).map fun x => some (toPath (l ++ x.1))).Nodup := by
  refine List.Nodup.map_on ?_ (sorted_below.nodup.filter _)
  rintro ⟨k, e⟩ hk ⟨k', e'⟩ hk' he
  obtain ⟨-, hk⟩ := mem_below.mp (List.mem_of_mem_filter hk)
  obtain ⟨-, hk'⟩ := mem_below.mp (List.mem_of_mem_filter hk')
  rw [Option.some_inj, (isStraight_of_get? hk).isPlain.toPath_inj (isStraight_of_get? hk').isPlain,
    List.append_cancel_left_eq] at he
  subst he
  rw [hk, Option.some_inj] at hk'
  rw [hk']

-- A build into a place without files has as many files there as it has counted, unless two of them
-- share a place.
theorem fileCount_eq_iff (hb : s.Between src out) (hf : w.files.Linkless)
    (h : exec (run s) w = (.ok report, u))
    (he : ∀ k ≠ [], ∀ c, w.files.get? (out ++ k) ≠ some (.file c)) :
    fileCount u.files out = report.pages + report.files ↔
      ((processedFiles s w).map (destination? s ·.path)).Nodup := by
  obtain ⟨_, t, hm, -⟩ := exec_bind_eq_ok.mp h
  have ha := keeps_makeDirectory.of_exec hm
  obtain ⟨t', hc, hu⟩ := exists_course_of_run hm h
  have hin : ∀ v ∈ visits s w, IsInside src v :=
    fun v => isInside_of_mem_visits hb.source hb.straight_source.isPlain
  obtain ⟨hn, hg⟩ := course_eq_ok hb hc hin (ha.1.linkless hf)
  have hlen : report.pages + report.files =
      ((processedFiles s w).map (destination? s ·.path)).length := by
    rw [hn, List.length_map, processedFiles, Nat.zero_add, Nat.zero_add]
  rw [hu, fileCount_eq_length fun k => some (toPath (out ++ k)), hlen]
  apply length_eq_iff_nodup nodup_map_toPath_below
  intro p
  simp only [List.mem_map, List.mem_filter, Prod.exists, mem_below]
  constructor
  case mp =>
    rintro ⟨k, e, ⟨⟨hk, hx⟩, hfile⟩, rfl⟩
    cases e
    case file c =>
      rcases (hg _ (isStraight_of_get? hx).isPlain).mp ⟨c, hx⟩ with ⟨c', hc'⟩ | hv
      · exact absurd (ha.1.of_get? hc' (by simp)) (he k hk c')
      · exact hv
    all_goals simp [Entry.isFile] at hfile
  case mpr =>
    rintro ⟨v, hv, rfl⟩
    obtain ⟨dir, name, hs, hp⟩ := hin v (List.mem_of_mem_filter hv)
    have hd := destination?_toPath hb hs
    rw [← hp] at hd
    have ht := hb.straight_output.isPlain.append (isPlain_target hs.isPlain)
    obtain ⟨c, hx⟩ := (hg _ ht).mpr (.inr ⟨v, hv, hd⟩)
    exact ⟨target (dir ++ [name]), .file c, ⟨⟨by simp, hx⟩, rfl⟩, hd.symm⟩

-- No output file is lost if no directory holds a content file and a file with the name of its page,
-- both part of the site. Nothing keeps a build from losing one if a directory does.
theorem own_files_iff (hf : w.files.Linkless) (h : exec (prepare source output) w = (.ok s, w₁))
    (hr : exec (site source output) w = (.ok report, u))
    (he : ∀ k ≠ [], w.files.get? (s.output.steps ++ k) = none) :
    ((processedFiles s w₁).map (destination? s ·.path)).Nodup ∧
        fileCount u.files s.output.steps = report.pages + report.files ↔
      ∀ a ∈ processedFiles s w₁, ∀ b ∈ processedFiles s w₁,
        ¬IsPageBeside s.source.steps a b := by
  have hb := between_of_prepare_eq_ok h
  have ha := (keeps_prepare source output).of_exec h
  rw [site_eq_prepare_run, exec_bind_of_ok h] at hr
  have hc := fileCount_eq_iff hb (ha.1.linkless hf) hr fun k hk c hx => by
    have := ha.1.of_get? hx (by simp)
    simp [he k hk] at this
  rw [hc, and_self, nodup_destinations_iff hb]

-- A source that holds a content file and a file with the name of its page.
def pageInSource : World where
  files := ((((FileSystem.empty.put [] "s" .directory).put ["s"] "layouts" .directory).put
    ["s", "layouts"] "layout.html" (.file .empty)).put ["s"] "a.md"
    (.file "---\n---\n".toUTF8)).put ["s"] "a.html" (.file "b".toUTF8)
  directory := []
  log := []

theorem pageInSource_linkless : pageInSource.files.Linkless :=
  ((((Linkless.empty.put (by simp)).put (by simp)).put (by simp)).put (by simp)).put (by simp)

theorem pageInSource_vacant : ∀ k ≠ [], pageInSource.files.get? (["o"] ++ k) = none := by
  intro k hk
  exact get?_append_of_none (by decide) hk

theorem pageInSource_lost :
    pageInSource.files.Linkless ∧ (∀ k ≠ [], pageInSource.files.get? (["o"] ++ k) = none) ∧
      ∃ s w₁, exec (prepare "s" "o") pageInSource = (.ok s, w₁) ∧
        ∃ report u, exec (site "s" "o") pageInSource = (.ok report, u) ∧
        s.output.steps = ["o"] ∧
        ¬((processedFiles s w₁).map (destination? s ·.path)).Nodup ∧
        fileCount u.files s.output.steps ≠ report.pages + report.files := by
  exact ⟨pageInSource_linkless, pageInSource_vacant, by decide +kernel⟩

theorem pageInSource_own_files_iff :
    ∃ s w₁ report u, exec (prepare "s" "o") pageInSource = (.ok s, w₁) ∧
      exec (site "s" "o") pageInSource = (.ok report, u) ∧
      (((processedFiles s w₁).map (destination? s ·.path)).Nodup ∧
          fileCount u.files s.output.steps = report.pages + report.files ↔
        ∀ a ∈ processedFiles s w₁, ∀ b ∈ processedFiles s w₁,
          ¬IsPageBeside s.source.steps a b) := by
  obtain ⟨s, w₁, h, report, u, hr, ho⟩ :
      ∃ s w₁, exec (prepare "s" "o") pageInSource = (.ok s, w₁) ∧
        ∃ report u, exec (site "s" "o") pageInSource = (.ok report, u) ∧
        s.output.steps = ["o"] := by
    decide +kernel
  exact ⟨s, w₁, report, u, h, hr,
    own_files_iff pageInSource_linkless h hr (ho ▸ pageInSource_vacant)⟩

end Build

end StaticSite
