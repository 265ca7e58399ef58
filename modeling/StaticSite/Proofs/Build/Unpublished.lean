import StaticSite.Proofs.Build.Prepare
import StaticSite.Proofs.Build.Processed
import StaticSite.Proofs.Walk.Complete
/-!
What becomes of the layouts if they are in the source. The walk knows their directory by its path
alone, as it is joined to the source, and the paths of the walk never lead up. Main statements: what
is not left out is worked on if the build succeeds (`exists_mem_processed`), and the layouts are
left out exactly if their path does not lead up (`layouts_unpublished_iff`).
-/
namespace StaticSite.Build

open FileSystem Action Location Walk

variable {s : Session} {source output : Path} {src out l k : Location} {e : Entry}
  {w w₁ : World} {v : Visit Report} {t : Report}

-- If a build succeeds, it has worked on all of the source that is not left out.
theorem exists_mem_processed (hb : s.Between src out) (h : (exec (run s) w).1 = .ok t)
    (hg : w.files.get? (src ++ k) = some e) (hk : k ≠ [])
    (hx : ∀ m, m <+: k → m ≠ [] → s.isExcluded (src ++ m).toPath = false) :
    ∃ v ∈ processed s w, v.path = (src ++ k).toPath := by
  obtain ⟨_, u, hm, -⟩ : ∃ a u, exec (makeDirectory s.output) w = (.ok a, u) ∧ True := by
    rcases hm : exec (makeDirectory s.output) w with ⟨x | a, u⟩
    case error =>
      rw [run, exec_bind_of_error hm] at h
      simp at h
    case ok => exact ⟨a, u, rfl, trivial⟩
  obtain ⟨e', hg, -⟩ := (keeps_makeDirectory.of_exec hm).1.grows _ _ hg
  rw [(exec_run hm).1, hb.source] at h
  have hin : ∀ m, m <+: k → m ≠ [] → m ≠ k → ∀ d r w u,
      exec (visit s (src ++ m).toPath d r) w ≠ (.ok none, u) := by
    intro m hm hne _ d r w u he
    obtain ⟨r', hr, -⟩ := exec_perform_of_exec_visit (hx m hm hne) he
    simp at hr
  obtain ⟨u', hrun⟩ : ∃ u', exec (Walk.run .walk (visit s) src.toPath {}) u = (.ok t, u') :=
    ⟨_, Prod.ext h rfl⟩
  obtain ⟨v, hv, hp⟩ := Walk.exists_mem_visits (fun _ _ _ => keeps_visit) hrun hin hg hk
  refine ⟨v, List.mem_filter.mpr ⟨?_, by simp [hp, hx k List.prefix_rfl hk]⟩, hp⟩
  rw [visits, hm]
  exact hb.source ▸ hv

theorem mem_steps_layouts_iff (hb : s.Between src out)
    (hl : s.layouts = s.source / s.site.layouts) :
    ".." ∈ s.layouts.steps ↔ ".." ∈ s.site.layouts.pieces := by
  have hs : ".." ∈ s.site.layouts.steps ↔ ".." ∈ s.site.layouts.pieces := by
    simp [Path.steps, Path.isIdle]
  rw [hl, ← hs, hb.source]
  cases ha : s.site.layouts.isAbsolute
  case true =>
    have hj : src.toPath / s.site.layouts = s.site.layouts := if_pos ha
    rw [hj]
  case false =>
    have hn : ".." ∉ src := fun hm => (hb.straight_source _ hm).2 rfl
    rw [Path.steps_join isAbsolute_toPath ha, hb.straight_source.isPlain.steps_toPath]
    simp [hn]

-- Only a configuration file can make the path of the layouts lead up.
theorem config_of_mem_pieces (hf : w.files.Linkless) (hfound : Found source w s.site src)
    (hd : w.files.get? src = some .directory) (hu : ".." ∈ s.site.layouts.pieces) :
    ∃ c, w.files.get? (src ++ [SiteConfig.fileName.text]) = some (.file c) := by
  obtain ⟨e, he⟩ := hfound.find
  obtain rfl : .directory = e := by simpa [hd] using get?_of_find he
  obtain ⟨log, hload⟩ := exec_loadFrom source w
  by_cases hc : Disk.isFile (source / SiteConfig.fileName) w
  case neg =>
    have hn : s.site = {} := by
      have := hfound.load
      rw [hload, if_neg hc] at this
      exact (Except.ok.inj this).symm
    rw [hn] at hu
    exact absurd hu (by decide)
  case pos =>
    obtain ⟨l, c, hl⟩ := Disk.isFile_iff.mp hc
    have ho : w.files.Opens w.directory source src := ⟨he, hf.below⟩
    have hk : IsStraight [SiteConfig.fileName.text] := by decide
    rw [show source / SiteConfig.fileName = source / toRelative [SiteConfig.fileName.text] from
      Path.below_name] at hl
    obtain ⟨rfl, hg⟩ := ho.find_below hk (by simp) hl
    exact ⟨c, hg⟩

-- Nothing on the way to the layouts is left out if their path leads up, but for the output.
theorem isExcluded_eq_false_of_mem_pieces (hb : s.Between src out)
    (hl : s.layouts = s.source / s.site.layouts) (ha : s.layouts.isAbsolute)
    (hu : ".." ∈ s.site.layouts.pieces) (hs : IsStraight (src ++ k)) (ho : src ++ k ≠ out)
    (hc : k ≠ [SiteConfig.fileName.text]) : s.isExcluded (src ++ k).toPath = false := by
  have hconfig : s.source / SiteConfig.fileName =
      toPath (src ++ [SiteConfig.fileName.text]) := by
    rw [hb.source]
    exact hb.straight_source.isPlain.toPath_div_name (by decide)
  have hp : IsPlain (src ++ [SiteConfig.fileName.text]) :=
    hb.straight_source.isPlain.concat (by decide)
  apply Bool.eq_false_iff.mpr
  intro hx
  simp only [Session.isExcluded, Bool.or_eq_true] at hx
  rcases hx with (hx | hx) | hx
  · rw [Path.same_iff_of_isAbsolute isAbsolute_toPath ha, hs.isPlain.steps_toPath] at hx
    exact (hs ".." (hx ▸ (mem_steps_layouts_iff hb hl).mpr hu)).2 rfl
  · rw [hb.output, hs.isPlain.same_toPath_iff hb.straight_output.isPlain] at hx
    exact ho hx
  · rw [hconfig, hs.isPlain.same_toPath_iff hp, List.append_cancel_left_eq] at hx
    exact hc hx

-- The layouts are left out if their path does not lead up.
theorem not_prefix_of_not_mem_pieces (hf : w.files.Linkless) (hb : s.Between src out)
    (hl : s.layouts = s.source / s.site.layouts) (ha : s.layouts.isAbsolute)
    (hu : ".." ∉ s.site.layouts.pieces)
    (hfind : w.files.find w.directory s.layouts = .ok (src ++ k, .directory)) (hk : k ≠ []) :
    ∀ v ∈ processed s w₁, ¬src ++ k <+: v.path.location := by
  have hs : IsPlain (src ++ k) :=
    (isStraight_of_find hfind).isPlain
  have he := hf.find_location ha hfind
  rw [Path.location_eq_steps (mt (mem_steps_layouts_iff hb hl).mp hu)] at he
  refine not_prefix_of_isExcluded hb hk ?_
  have hsame : (toPath (src ++ k)).same s.layouts := by
    rw [Path.same_iff_of_isAbsolute isAbsolute_toPath ha, hs.steps_toPath, he]
  simp [Session.isExcluded, hsame]

-- Otherwise they are worked on as the rest of the source is.
theorem exists_mem_processed_of_mem_pieces (hf : w.files.Linkless) (hb : s.Between src out)
    (hl : s.layouts = s.source / s.site.layouts) (ha : s.layouts.isAbsolute)
    (hfound : Found source w s.site src) (hu : ".." ∈ s.site.layouts.pieces)
    (hg : w.files.get? (src ++ k) = some .directory) (hk : k ≠ []) (hw : w.Grows w₁)
    (ho : out <+: src ++ k → out <+: src) (hr : (exec (run s) w₁).1 = .ok t) :
    ∃ v ∈ processed s w₁, v.path = toPath (src ++ k) := by
  obtain ⟨c, hc⟩ := config_of_mem_pieces hf hfound (get?_of_append hg hk) hu
  have hs := isStraight_of_get? hg
  have hx : ∀ m, m <+: k → m ≠ [] → s.isExcluded (toPath (src ++ m)) = false := by
    intro m hm hne
    have hp : src ++ m <+: src ++ k := (List.prefix_append_right_inj _).mpr hm
    refine isExcluded_eq_false_of_mem_pieces hb hl ha hu (hs.of_prefix hp) ?_ ?_
    · rintro rfl
      have hlen := (ho hp).length_le
      rw [List.length_append] at hlen
      exact hne (List.eq_nil_of_length_eq_zero (by omega))
    · -- the configuration is a file, and not on the way to a directory
      rintro rfl
      by_cases he : src ++ [SiteConfig.fileName.text] = src ++ k
      case pos => simp [← he, hc] at hg
      case neg =>
        have hd := get?_of_prefix hg hp he
        simp [hd] at hc
  obtain ⟨e, hg₁, -⟩ := hw.1 _ _ hg
  exact exists_mem_processed hb hr hg₁ hk hx

-- The layouts are never part of the site if their path does not lead up. If it does, a build that
-- succeeds works on them as on the rest of the source, unless they are in its output.
theorem layouts_unpublished_iff (hf : w.files.Linkless)
    (h : exec (prepare source output) w = (.ok s, w₁))
    (hl : w.files.find w.directory s.layouts = .ok (l, .directory))
    (hs : s.source.steps <+: l) (hne : l ≠ s.source.steps) :
    (".." ∉ s.site.layouts.pieces → ∀ v ∈ processed s w₁, ¬l <+: v.path.location) ∧
    ∀ report, (exec (run s) w₁).1 = .ok report →
      ((∀ v ∈ processed s w₁, ¬l <+: v.path.location) ↔ ".." ∉ s.site.layouts.pieces ∨
        s.output.steps <+: l ∧ ¬s.output.steps <+: s.source.steps) := by
  have hb := between_of_prepare_eq_ok h
  obtain ⟨hfound, hlayouts⟩ := found_of_prepare_eq_ok h
  have ha := isAbsolute_layouts_of_prepare_eq_ok h
  have hw : w.Grows w₁ := ((keeps_prepare source output).of_exec h).grows
  have hg := get?_of_find hl
  generalize s.source.steps = src at *
  generalize s.output.steps = out at *
  obtain ⟨k, rfl⟩ := hs
  have hk : k ≠ [] := by simpa using hne
  have hout (hu : ".." ∉ s.site.layouts.pieces) : ∀ v ∈ processed s w₁,
      ¬src ++ k <+: v.path.location :=
    not_prefix_of_not_mem_pieces hf hb hlayouts ha hu hl hk
  refine ⟨hout, fun report hr => ⟨fun hn => ?_, ?_⟩⟩
  case refine_1 =>
    by_contra hc
    simp only [not_or, not_not, not_and] at hc
    obtain ⟨v, hv, hp⟩ :=
      exists_mem_processed_of_mem_pieces hf hb hlayouts ha hfound hc.1 hg hk hw hc.2 hr
    exact hn v hv (by rw [hp, (isStraight_of_get? hg).location_toPath])
  case refine_2 =>
    rintro (hu | ⟨hp, ho⟩)
    case inl => exact hout hu
    case inr => exact fun v hv hl => not_output_prefix hb ho v hv (hp.trans hl)

-- A source with a configuration that comes to the layouts by a detour.
def detouredLayouts : World where
  files := (((FileSystem.empty.put [] "s" .directory).put ["s"] "config.yaml"
    (.file "layouts: layouts/../layouts\n".toUTF8)).put ["s"] "layouts" .directory).put
    ["s", "layouts"] "layout.html" (.file "t".toUTF8)
  directory := []
  log := []

theorem detouredLayouts_published :
    ∃ s w₁, exec (prepare "s" "o") detouredLayouts = (.ok s, w₁) ∧
      detouredLayouts.files.find [] s.layouts = .ok (["s", "layouts"], .directory) ∧
      ¬["s", "layouts"] <+: s.output.steps ∧
      ¬∀ v ∈ processed s w₁, ¬["s", "layouts"] <+: v.path.location := by
  decide +kernel

theorem detouredLayouts_layouts_unpublished_iff :
    ∃ s w₁ report, exec (prepare "s" "o") detouredLayouts = (.ok s, w₁) ∧
      (exec (run s) w₁).1 = .ok report ∧
      ((∀ v ∈ processed s w₁, ¬["s", "layouts"] <+: v.path.location) ↔
        ".." ∉ s.site.layouts.pieces ∨
          s.output.steps <+: ["s", "layouts"] ∧ ¬s.output.steps <+: s.source.steps) := by
  obtain ⟨s, w₁, h, hl, hs, hne, hr⟩ :
      ∃ s w₁, exec (prepare "s" "o") detouredLayouts = (.ok s, w₁) ∧
        detouredLayouts.files.find [] s.layouts = .ok (["s", "layouts"], .directory) ∧
        s.source.steps <+: ["s", "layouts"] ∧ ["s", "layouts"] ≠ s.source.steps ∧
        (exec (run s) w₁).1.isOk := by
    decide +kernel
  have hf : detouredLayouts.files.Linkless :=
    (((Linkless.empty.put (by simp)).put (by simp)).put (by simp)).put (by simp)
  cases hrun : (exec (run s) w₁).1 with
  | error e => simp [hrun, Except.isOk, Except.toBool] at hr
  | ok report =>
    exact ⟨s, w₁, report, h, hrun, (layouts_unpublished_iff hf h hl hs hne).2 report hrun⟩

end StaticSite.Build
