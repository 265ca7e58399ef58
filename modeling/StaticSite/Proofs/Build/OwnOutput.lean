import StaticSite.Proofs.Build.Prepare
import StaticSite.Proofs.Build.Processed
import StaticSite.Proofs.Walk.Parents
/-!
Whether a build works on its own output. Entries are told from the output by their paths, so the
output is left alone where the way to it has no links. Main statements: an entry that is no link is
right in the source or in a directory that is worked on (`parent_of_mem_processed`), the walk gets
into the output in three ways only (`outside_output_iff`), and without links in one
(`outside_output_of_linkless`).
-/
namespace StaticSite.Build

open FileSystem Action Location Walk

variable {s : Session} {source output : Path} {src out l : Location} {e : Entry} {w w₁ : World}
  {v : Visit Report}

-- A build makes no links.
theorem linkless_of_mem_visits (hb : s.Between src out) (hf : w.files.Linkless)
    (hv : v ∈ visits s w) : v.world.files.Linkless := by
  obtain ⟨u, hm, -⟩ := exists_of_mem_visits hv
  have : Std.Refl fun w v : World => w.files.Linkless → v.files.Linkless := ⟨fun _ => id⟩
  have : IsTrans World fun w v => w.files.Linkless → v.files.Linkless := ⟨fun _ _ _ h h' => h' ∘ h⟩
  have hs : ∀ v ∈ visits s w, v.world.files.Linkless → (v.exec (visit s)).2.files.Linkless :=
    fun v hv =>
      linkless_exec_visit hb (isInside_of_mem_visits hb.source hb.straight_source.isPlain hv)
  have hw := (course_run hm).worlds (R := fun w v => w.files.Linkless → v.files.Linkless) hs
  exact hw.1 v hv ((keeps_makeDirectory.of_exec hm).1.linkless hf)

-- The source itself is not visited.
theorem path_ne_source_of_mem_visits (hb : s.Between src out) (hv : v ∈ visits s w) :
    v.path ≠ s.source := by
  have hsrc := hb.straight_source.isPlain
  obtain ⟨dir, name, hn, hp⟩ := exists_location_of_mem_visits hb.source hsrc hv
  have hs : IsPlain (src ++ (dir ++ [name])) := hsrc.append fun n hm => (hn n hm).isStep
  rw [hp, hb.source, Ne, hs.toPath_inj hsrc]
  simp

theorem parent?_of_isEntryOf {dir : Location} (h : IsEntryOf w dir.toPath v) (hd : dir.IsPlain) :
    v.path.parent? = some dir.toPath := by
  obtain ⟨k, name, e, -, hx, hp⟩ := h
  have hn : IsName name := isName_of_get? hx name (by simp)
  rw [hp, hd.toPath_div_name hn.isStep, (hd.concat hn.isStep).parent?_toPath]

-- An entry that is no link is right where the source is, or right where a directory is that is
-- worked on.
theorem parent_of_mem_processed (hb : s.Between src out) (hs : w.files.get? src = some e)
    (he : ∀ target, e ≠ .link target) (hv : v ∈ processed s w) (hl : l ∈ v.location?)
    (hn : ¬v.IsLink) :
    (v.path.parent? = some s.source ∧ ∃ name, l = src ++ [name]) ∨
      ∃ u ∈ processed s w, v.path.parent? = some u.path ∧ ∃ k ∈ u.location?, ∃ name,
        l = k ++ [name] := by
  have hv := List.mem_of_mem_filter hv
  obtain ⟨u₀, hm, hw⟩ := exists_of_mem_visits hv
  obtain ⟨hfirst, hlater⟩ := (course_run hm).worlds fun v _ => keeps_visit v.world
  have hsrc := hb.straight_source.isPlain
  cases parent_of_mem_visits hw
  case inl hp =>
    rw [hb.source] at hp ⊢
    obtain ⟨k, name, hf, rfl⟩ := hp.location_eq hsrc (hfirst v hv) hl hn
    refine .inl ⟨parent?_of_isEntryOf hp hsrc, name, ?_⟩
    have ht := ((resolve_toPath_eq_ok hsrc).mp (find_eq_ok.mp hf)).2
    have hx := (keeps_makeDirectory.of_exec hm).1.get? hs
    have hk : u₀.files.takeSteps true linkLimit [] src = .ok (.entry ([] ++ src) e) :=
      takeSteps_of_get? hx fun _ => he
    obtain ⟨rfl, -⟩ : k = src ∧ .directory = e := by simpa [hk, eq_comm] using ht
    rfl
  case inr hp =>
    obtain ⟨u, hu, -, ⟨r, u', hx⟩, hp⟩ := hp
    have hvisits : visits s w = Walk.visits .walk (visit s) s.source {} u₀ := by rw [visits, hm]
    rw [← hvisits] at hu
    have hm : u ∈ visits s w := hu.subset (by simp)
    have hg := List.pairwise_iff_forall_sublist.mp hlater hu
    have hprocessed : u ∈ processed s w := by
      refine List.mem_filter.mpr ⟨hm, ?_⟩
      simp [isExcluded_eq_false_of_exec_visit hx]
    obtain ⟨dir, name, hd, hup⟩ := exists_location_of_mem_visits hb.source hsrc hm
    have hd : IsPlain (src ++ (dir ++ [name])) := hsrc.append fun n hm => (hd n hm).isStep
    rw [hup] at hp
    obtain ⟨k, name, hf, rfl⟩ := hp.location_eq hd hg hl hn
    rw [← hup] at hf
    refine .inr ⟨u, hprocessed, ?_, k, Visit.mem_location?.mpr ⟨_, hf⟩, name, rfl⟩
    rw [parent?_of_isEntryOf hp hd, hup]

-- Without links, nothing in the output is worked on unless the source is in the output.
theorem outside_output_of_linkless (hf : w.files.Linkless)
    (h : exec (prepare source output) w = (.ok s, w₁)) (hn : ¬s.output.steps <+: s.source.steps) :
    ∀ v ∈ processed s w₁, ∀ l ∈ v.location?, ¬s.output.steps <+: l := by
  have hb := between_of_prepare_eq_ok h
  intro v hv l hl
  have hw := linkless_of_mem_visits hb (((keeps_prepare source output).of_exec h).1.linkless hf)
    (List.mem_of_mem_filter hv)
  obtain ⟨r, -, hp, -⟩ := exists_location_eq_of_mem_processed hb hv
  obtain ⟨e, he⟩ := Visit.mem_location?.mp hl
  rw [hw.find_location (hp ▸ isAbsolute_toPath) he]
  exact not_output_prefix hb hn v hv

-- The first entry on the way that is in the output gets there in one of three ways.
theorem outside_output_of_ways (hb : s.Between src out) (hs : w.files.get? src = some e)
    (he : ∀ target, e ≠ .link target) (hself : ∀ v ∈ processed s w, v.location? ≠ some out)
    (hlink : ∀ v ∈ processed s w, v.IsLink → ∀ l ∈ v.location?, ¬out <+: l)
    (hown : out <+: src → ∀ v ∈ processed s w, v.path.parent? = some s.source →
      v.location?.isSome → v.IsLink) {r : Location} (hr : IsPlain (src ++ r))
    (hv : v ∈ processed s w) (hp : v.path = toPath (src ++ r)) : ∀ l ∈ v.location?, ¬out <+: l := by
  intro l hl ho
  induction r using List.reverseRecOn generalizing v l
  case nil =>
    rw [List.append_nil, ← hb.source] at hp
    exact path_ne_source_of_mem_visits hb (List.mem_of_mem_filter hv) hp
  case append_singleton r name hi =>
    have hn : ¬v.IsLink := fun hn => hlink v hv hn l hl ho
    rw [← List.append_assoc] at hr hp
    cases parent_of_mem_processed hb hs he hv hl hn
    case inl hc =>
      obtain ⟨hpar, name, rfl⟩ := hc
      cases List.prefix_concat_iff.mp ho
      case inl ho => exact hself v hv (ho ▸ hl)
      case inr ho => exact hn (hown ho v hv hpar (Option.isSome_of_mem hl))
    case inr hc =>
      obtain ⟨u, hu, hpar, k, hk, name, rfl⟩ := hc
      cases List.prefix_concat_iff.mp ho
      case inl ho => exact hself v hv (ho ▸ hl)
      case inr ho =>
        rw [hp, hr.parent?_toPath, Option.some_inj] at hpar
        exact hi hr.of_append.1 hu hpar.symm k hk ho

-- No entry that is worked on is in the output if none is the output itself, no link leads into it
-- and, where the source is in the output, all that is right in the source is links. This is all
-- that can be said: nothing keeps the walk from such links or from such a source.
theorem outside_output_iff (h : exec (prepare source output) w = (.ok s, w₁)) :
    (∀ v ∈ processed s w₁, ∀ l ∈ v.location?, ¬s.output.steps <+: l) ↔
      (∀ v ∈ processed s w₁, v.location? ≠ some s.output.steps) ∧
      (∀ v ∈ processed s w₁, v.IsLink → ∀ l ∈ v.location?, ¬s.output.steps <+: l) ∧
      (s.output.steps <+: s.source.steps → ∀ v ∈ processed s w₁,
        v.path.parent? = some s.source → v.location?.isSome → v.IsLink) := by
  have hb := between_of_prepare_eq_ok h
  obtain ⟨e, hs, he⟩ := get?_source_of_prepare_eq_ok h
  have hsrc := hb.straight_source.isPlain
  constructor
  case mp =>
    intro ho
    refine ⟨fun v hv hl => ho v hv _ hl (List.prefix_refl _), fun v hv _ => ho v hv, ?_⟩
    intro hp v hv hpar hl
    obtain ⟨l, hl⟩ := Option.isSome_iff_exists.mp hl
    by_contra hn
    cases parent_of_mem_processed hb hs he hv hl hn
    case inl hc =>
      obtain ⟨-, name, rfl⟩ := hc
      exact ho v hv _ hl (hp.trans (List.prefix_append _ _))
    case inr hc =>
      obtain ⟨u, hu, hpar', -⟩ := hc
      refine path_ne_source_of_mem_visits hb (List.mem_of_mem_filter hu) ?_
      exact Option.some.inj (hpar'.symm.trans hpar)
  case mpr =>
    intro ⟨hself, hlink, hown⟩ v hv
    obtain ⟨dir, name, hd, hp⟩ :=
      exists_location_of_mem_visits hb.source hsrc (List.mem_of_mem_filter hv)
    have hr := hsrc.append fun n hm => (hd n hm).isStep
    exact outside_output_of_ways hb hs he hself hlink hown hr hv hp

-- A source with a link to the output in it.
def linkedOutput : World where
  files := (((FileSystem.empty.put [] "s" .directory).put ["s"] "x" (.file "a".toUTF8)).put
    ["s"] "build" .directory).put ["s"] "l" (.link "build")
  directory := []
  log := []

theorem linkedOutput_processed :
    ∃ s w₁, exec (prepare "s" "s/build") linkedOutput = (.ok s, w₁) ∧
      ¬∀ v ∈ processed s w₁, ∀ l ∈ v.location?, ¬s.output.steps <+: l := by
  decide +kernel

theorem linkedOutput_outside_output_iff :
    ∃ s w₁, exec (prepare "s" "s/build") linkedOutput = (.ok s, w₁) ∧
      ((∀ v ∈ processed s w₁, ∀ l ∈ v.location?, ¬s.output.steps <+: l) ↔
        (∀ v ∈ processed s w₁, v.location? ≠ some s.output.steps) ∧
        (∀ v ∈ processed s w₁, v.IsLink → ∀ l ∈ v.location?, ¬s.output.steps <+: l) ∧
        (s.output.steps <+: s.source.steps → ∀ v ∈ processed s w₁,
          v.path.parent? = some s.source → v.location?.isSome → v.IsLink)) := by
  obtain ⟨s, w₁, h, -⟩ :
      ∃ s w₁, exec (prepare "s" "s/build") linkedOutput = (.ok s, w₁) ∧ True := by
    decide +kernel
  exact ⟨s, w₁, h, outside_output_iff h⟩

end StaticSite.Build
