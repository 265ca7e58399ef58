import StaticSite.Proofs.Build.Steps
/-!
The part of the source that a build goes over if it works into a vacant output. Main statements:
what is left out (`isExcluded_iff`, `mem_remaining`), and that the build takes a step for each entry
of the rest (`Ready.entries_eq`).
-/
namespace StaticSite.Build

open FileSystem Action Location Walk Extension

-- The configuration, the layouts and the output are apart from the site, with all that is in them.
def IsApart (src out ls r : Location) : Prop :=
  [SiteConfig.fileName.text] <+: r ∨ ls <+: r ∨ out <+: src ++ r

instance {src out ls r : Location} : Decidable (IsApart src out ls r) := by
  unfold IsApart; infer_instance

-- The entries of the source that a build into `out` makes a site of.
def remaining (fs : FileSystem) (src out ls : Location) : List (Location × Entry) :=
  (fs.below src).filter fun x => !decide (IsApart src out ls x.1)

-- A session in a world where its output has been made and is empty, and holds no layouts.
structure Ready (s : Session) (src out ls : Location) (w : World) : Prop where
  between : s.Between src out
  isAbsolute_layouts : s.layouts.isAbsolute
  steps_layouts : s.layouts.steps = src ++ ls
  parent_notMem : ".." ∉ ls
  ne_nil : ls ≠ []
  layouts_outside : ¬out <+: src ++ ls
  linkless : w.files.Linkless
  find_source : w.files.find w.directory src.toPath = .ok (src, .directory)
  get?_output : w.files.get? out = some .directory
  vacant : ∀ k ≠ [], w.files.get? (out ++ k) = none

variable {s : Session} {src out ls r k l : Location} {w u w₁ : World} {e : Entry} {name : String}

theorem mem_remaining : (r, e) ∈ remaining w₁.files src out ls ↔
    r ≠ [] ∧ w₁.files.get? (src ++ r) = some e ∧ ¬IsApart src out ls r := by
  simp [remaining, mem_below, and_assoc]

theorem sorted_remaining : Keyed.Sorted (remaining w₁.files src out ls) :=
  sorted_below.filter _

theorem IsApart.append (h : IsApart src out ls r) : IsApart src out ls (r ++ k) := by
  have hp := List.prefix_append r k
  refine h.imp (·.trans hp) (.imp (·.trans hp) fun h => ?_)
  exact h.trans ((List.prefix_append_right_inj src).mpr hp)

namespace Ready

theorem straight_source (h : Ready s src out ls w₁) : src.IsStraight :=
  h.between.straight_source

theorem get?_source (h : Ready s src out ls w₁) : w₁.files.get? src = some .directory :=
  get?_of_find h.find_source

theorem isShort_source (h : Ready s src out ls w₁) : src.IsShort := by
  have hf := find_eq_ok.mp h.find_source
  rw [resolve_toPath_eq_ok h.straight_source.isPlain] at hf
  exact (checkPath_toPath.mp hf.1).2

theorem not_link (h : Ready s src out ls w₁) (hx : (r, e) ∈ remaining w₁.files src out ls)
    (target : Path) : e ≠ .link target :=
  fun he => h.linkless _ target (he ▸ (mem_remaining.mp hx).2.1)

theorem not_isApart_nil (h : Ready s src out ls w₁) : ¬IsApart src out ls [] := by
  rintro (ha | ha | ha)
  · simp at ha
  · exact h.ne_nil (List.prefix_nil.mp ha)
  · rw [List.append_nil] at ha
    exact h.layouts_outside (ha.trans (List.prefix_append _ _))

theorem isExcluded_iff (h : Ready s src out ls w₁) (hr : r.IsStraight) :
    s.isExcluded (src ++ r).toPath ↔ r = [SiteConfig.fileName.text] ∨ r = ls ∨ src ++ r = out := by
  have hp := h.straight_source.append hr
  have hc : s.source / SiteConfig.fileName = (src ++ [SiteConfig.fileName.text]).toPath := by
    rw [h.between.source]
    exact h.straight_source.isPlain.toPath_div_name (by decide)
  have hq : IsPlain (src ++ [SiteConfig.fileName.text]) :=
    h.straight_source.isPlain.concat (by decide)
  rw [Session.isExcluded, hc, h.between.output]
  simp only [Bool.or_eq_true, hp.isPlain.same_toPath_iff h.between.straight_output.isPlain,
    hp.isPlain.same_toPath_iff hq,
    Path.same_iff_of_isAbsolute isAbsolute_toPath h.isAbsolute_layouts, hp.isPlain.steps_toPath,
    h.steps_layouts, List.append_cancel_left_eq]
  tauto

-- What is apart is reached through an entry that is left out.
theorem isApart_concat_iff (h : Ready s src out ls w₁) (hr : IsStraight (r ++ [name])) :
    IsApart src out ls (r ++ [name]) ↔
      IsApart src out ls r ∨ s.isExcluded (src ++ (r ++ [name])).toPath := by
  rw [h.isExcluded_iff hr, IsApart, IsApart, ← List.append_assoc]
  simp only [List.prefix_concat_iff, eq_comm (a := ls), eq_comm (a := out),
    eq_comm (a := [SiteConfig.fileName.text])]
  tauto

theorem not_isApart_iff (h : Ready s src out ls w₁) (hr : r.IsStraight) :
    ¬IsApart src out ls r ↔
      ∀ m, m <+: r → m ≠ [] → s.isExcluded (src ++ m).toPath = false := by
  induction r using List.reverseRecOn
  case nil => simpa using h.not_isApart_nil
  case append_singleton r name hi =>
    rw [h.isApart_concat_iff hr, not_or, hi hr.of_append.1, Bool.not_eq_true]
    constructor
    · rintro ⟨hm, hx⟩ m hp hn
      rcases List.prefix_concat_iff.mp hp with rfl | hp
      · exact hx
      · exact hm m hp hn
    · refine fun hm => ⟨fun m hp hn => ?_, ?_⟩
      · exact hm m (hp.trans (List.prefix_append _ _)) hn
      · exact hm _ (List.prefix_refl _) (by simp)

-- What is left out is what is apart.
theorem entries_eq (h : Ready s src out ls w₁) : entries s src w₁.files =
    (remaining w₁.files src out ls).map fun x => (src ++ x.1, x.2) := by
  refine eq_of_mem_iff sorted_entries ?_ fun ⟨k, e⟩ => ?_
  · exact List.pairwise_map.mpr (sorted_remaining.imp append_lt_append_left_iff.mpr)
  · simp only [mem_entries, List.mem_map, Prod.exists, Prod.mk.injEq, mem_remaining]
    constructor
    · rintro ⟨r, hr, rfl, hg, hm⟩
      have ha := (h.not_isApart_iff (isStraight_of_get? hg).of_append.2).mpr hm
      exact ⟨r, e, ⟨hr, hg, ha⟩, rfl, rfl⟩
    · rintro ⟨r, e, ⟨hr, hg, ha⟩, rfl, rfl⟩
      exact ⟨r, hr, rfl, hg, (h.not_isApart_iff (isStraight_of_get? hg).of_append.2).mp ha⟩

theorem not_isWithin (h : ¬IsApart src out ls r) : ¬IsWithin out (src ++ r) :=
  fun hw => h (.inr (.inr hw.1))

theorem begun (h : Ready s src out ls w₁) : Begun s src out w₁ where
  between := h.between
  outside hp := h.layouts_outside (hp.trans (List.prefix_append _ _))
  linkless := h.linkless
  get?_output := h.get?_output

-- A directory of the source can be looked into if its path is not too long.
theorem exec_look (h : Ready s src out ls w₁) (hw : Frame out w₁ w)
    (ho : Begun.IsOpen src out w₁ l) (hl : l.IsShort) :
    exec (look Error.walk l.toPath) w = (.ok (), w) := by
  rw [h.begun.steady_visit.exec_look ho hw, checkPath_toPath_of_get? ho.2.2 hl]
  rfl

end Ready

-- A session becomes ready when its output is made.
theorem ready_of_makeDirectory {site : SiteConfig} (hp : out.IsStraight)
    (hl : site.layouts.components = ls.map .normal) (hn : ls ≠ []) (ho : ¬out <+: src ++ ls)
    (hf : w.files.Linkless)
    (hs : w.files.find w.directory src.toPath = .ok (src, .directory))
    (hv : ∀ k ≠ [], w.files.get? (out ++ k) = none)
    (hm : exec (makeDirectory out.toPath) w = (.ok (), w₁)) :
    Ready (.ofConfig src.toPath out.toPath site) src out ls w₁ := by
  have hg := get?_of_find hs
  have hsrc := isStraight_of_get? hg
  obtain ⟨ha, hsteps, hpar⟩ := Path.steps_of_components hl
  have hb : Session.Between (.ofConfig src.toPath out.toPath site) src out := by
    refine ⟨rfl, rfl, ?_, hsrc, hp⟩
    rintro rfl
    exact ho (List.prefix_append _ _)
  have hbegun := begun_of_makeDirectory hf hb (fun h => ho (h.trans (List.prefix_append _ _))) hm
  have hk := Disk.keeps_makeDirectories_toPath hp.isPlain (hp.of_prefix (List.dropLast_prefix _))
  have hmk : w.AddsDirectories (· <+: out) w₁ := hk.orElseThrow.of_exec hm hf
  constructor
  case between => exact hb
  case isAbsolute_layouts => exact Path.isAbsolute_join isAbsolute_toPath ha
  case steps_layouts =>
    have hj := Path.steps_join (isAbsolute_toPath (l := src)) ha
    rwa [hsrc.isPlain.steps_toPath, hsteps] at hj
  case parent_notMem => exact hpar
  case ne_nil => exact hn
  case layouts_outside => exact ho
  case linkless => exact hbegun.linkless
  case find_source =>
    have hr := (resolve_toPath_eq_ok hsrc.isPlain).mp (find_eq_ok.mp hs)
    exact find_toPath (hmk.1.get? hg) (checkPath_toPath.mp hr.1).2 (by simp)
  case get?_output => exact hbegun.get?_output
  case vacant =>
    intro k hk
    rw [hmk.1.get?_eq, hv k hk]
    exact fun hq => hk (by simpa using hq.eq_of_length_le (by simp))

end StaticSite.Build
