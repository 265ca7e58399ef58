import StaticSite.Proofs.Build.Processed
/-!
Where entries of the source go, however the way to them is written. Main statements: an entry goes
strictly below the output unless its way ends in `..md` (`outputPath_inside_iff`), and the only
entries that share a place are a content file and what has the name of its page, next to it
(`same_outputPath_iff`).
-/
namespace StaticSite

open Location

-- Whether a path leads strictly below another, by names alone.
def Path.IsBelow (q p : Path) : Prop :=
  ∃ names, names ≠ [] ∧ q.components = p.components ++ names.map .normal

theorem Location.IsStraight.components_toRelative {l : Location} (h : l.IsStraight) (hne : l ≠ []) :
    l.toRelative.components = l.map .normal := by
  have hp := h.isPlain.pieces_toRelative hne
  have ha := h.isPlain.isAbsolute_toRelative hne
  have hc : l.map Path.Component.ofStep = l.map .normal :=
    List.map_congr_left fun n hn => if_neg (h n hn).2
  rw [Path.components, hp, Path.filterMap_componentOf?, h.isPlain.filter_isIdle, hc]
  simp [ha, Path.head?_ne_of_isPlain h.isPlain]

namespace Extension

variable {name : String}

-- A name with the extension of pages in the place of that of content files.
def renamed (name : String) : String :=
  if isContentName name then (Path.splitExtension name).1 ++ "." ++ page else name

-- Entries get it in the output, except for one whose name leads up without its extension.
theorem outputName_eq_renamed (hn : name ≠ "..md") : outputName name = renamed name := by
  cases hc : isContentName name
  case false => rw [outputName_of_not_isContentName hc, renamed, if_neg (by simp [hc])]
  case true =>
    obtain ⟨stem, hs, rfl⟩ := isContentName_iff.mp hc
    have hd : stem ≠ "." := by
      rintro rfl
      exact hn (by decide)
    rw [outputName_content hs, renamed, if_pos hc, Path.splitExtension_append hs (by decide),
      pageName, if_neg hd]

-- With that exception left out, any stem will do.
theorem sharesPage_iff {a b : String} (ha : a ≠ "..md") :
    SharesPage a b ↔ ∃ stem, stem ≠ "" ∧ a = stem ++ ".md" ∧ b = stem ++ ".html" := by
  have hd {stem : String} (h : a = stem ++ ".md") : stem ≠ "." := by
    rintro rfl
    exact ha h
  simp only [SharesPage, String.append_assoc]
  constructor
  · rintro ⟨stem, hs, -, h, h'⟩
    exact ⟨stem, hs, h, h'⟩
  · rintro ⟨stem, hs, h, h'⟩
    exact ⟨stem, hs, hd h, h, h'⟩

theorem SharesPage.isContentName_ne {a b : String} (h : SharesPage a b) :
    isContentName a ≠ isContentName b := by
  obtain ⟨stem, hs, -, rfl, rfl⟩ := h
  rw [isContentName_iff.mpr ⟨stem, hs, rfl⟩, isContentName_page hs]
  decide

end Extension

namespace Session

open Extension Path

variable {s : Session} {p q : Path} {names ps idle : List String} {name : String}

theorem outputPath_eq (hl : p.LeadsTo ps name idle) (hn : name ≠ "..") : s.outputPath p =
    if isContentName name then (s.output / p).withExtension page else s.output / p := by
  rw [outputPath, isContent, extension?, hl.fileName?_eq, if_neg hn, Option.bind_some,
    ← isContentName]

theorem components_outputPath_content {stem : String} (ha : p.isAbsolute = false)
    (hl : p.LeadsTo ps (stem ++ "." ++ content) idle) (hs : stem ≠ "") :
    (s.outputPath p).components =
      (ofPieces (s.output / p).isAbsolute (s.output.base ++ ps)).components ++
        [if idle = [] ∧ stem = "." then .parent else .normal (stem ++ "." ++ page)] := by
  have hn : stem ++ "." ++ content ≠ ".." := by simp [dotted_eq_parent_iff hs, content]
  have hb := hl.below (q := s.output) ha
  rw [outputPath_eq hl hn, if_pos (isContentName_iff.mpr ⟨stem, hs, rfl⟩),
    hb.withExtension_eq hs (by decide) (by decide)]
  split
  case isTrue => exact hb.components_ofPieces (by decide)
  case isFalse =>
    have hslash : '/' ∉ stem.toList := fun hm => hl.isStep.2 (by simp [hm])
    have hstep : IsStep (stem ++ "." ++ page) := ⟨isIdle_dotted hs, by simp [hslash, page]⟩
    have hp : stem ++ "." ++ page ≠ ".." := by simp [dotted_eq_parent_iff hs, page]
    rw [hb.components_ofPieces hstep, Component.ofStep, if_neg hp]

-- What the place of an entry is made of: the output, the way to the entry, and one step. Whatever
-- is written behind `..md` keeps it from leading up.
theorem components_outputPath (h : p.components = (names ++ [name]).map .normal) :
    (s.outputPath p).components = s.output.components ++ names.map .normal ++
      [if p.pieces.getLast? = some "..md" then .parent else .normal (renamed name)] := by
  obtain ⟨ps, idle, hl⟩ := exists_leadsTo h
  have ha := (steps_of_components h).1
  have hn := ne_parent_of_components h
  have hb := hl.below (q := s.output) ha
  have hs : Component.ofStep name = .normal name := if_neg hn
  have hw : (ofPieces (s.output / p).isAbsolute (s.output.base ++ ps)).components =
      s.output.components ++ names.map .normal := by
    have hj := components_div (p := s.output) ha (head?_pieces_ne h)
    rw [h, hb.components_eq, List.map_append, List.map_singleton, hs, ← List.append_assoc] at hj
    exact List.append_cancel_right hj
  simp only [hl.getLast?_pieces_eq_iff (n := "..md") (by decide)]
  cases hc : isContentName name
  case false =>
    have hd : name ≠ "..md" := by
      rintro rfl
      exact absurd hc (by decide)
    rw [outputPath_eq hl hn, if_neg (by simp [hc]), hb.components_eq, hw, hs, if_neg (by simp [hd]),
      renamed, if_neg (by simp [hc])]
  case true =>
    obtain ⟨stem, hne, rfl⟩ := isContentName_iff.mp hc
    have hd : stem ++ "." ++ content = "..md" ↔ stem = "." := by
      have : "..md" = "." ++ "." ++ content := by decide
      rw [this, String.append_left_inj, String.append_left_inj]
    rw [components_outputPath_content ha hl hne, hw, renamed, if_pos hc,
      splitExtension_append hne (by decide)]
    simp only [hd, and_comm (a := idle = [])]

theorem isBelow_outputPath_iff (h : p.components = (names ++ [name]).map .normal) :
    (s.outputPath p).IsBelow s.output ↔ p.pieces.getLast? ≠ some "..md" := by
  rw [IsBelow, components_outputPath h]
  split
  case isTrue hd =>
    refine iff_of_false ?_ (by simp [hd])
    rintro ⟨ns, -, hc⟩
    rw [List.append_assoc, List.append_cancel_left_eq] at hc
    have hm : Component.parent ∈ ns.map .normal := hc ▸ by simp
    simp at hm
  case isFalse hd =>
    exact iff_of_true ⟨names ++ [renamed name], by simp, by simp⟩ hd

-- An entry goes strictly below the output, by a name right in the place of its parent, unless the
-- way to it ends in `..md`: then it leads up from there.
theorem outputPath_inside_iff (s : Session) :
    (∀ p : Path, p.IsNormal → ∃ dir step, p.parent? = some dir ∧
      (s.outputPath p).components = s.output.components ++ dir.components ++ [step] ∧
      (if p.pieces.getLast? = some "..md" then step = .parent else ∃ name, step = .normal name) ∧
      ((s.outputPath p).IsBelow s.output ↔ p.pieces.getLast? ≠ some "..md")) ∧
    ∀ w, ∀ v ∈ Build.visits s w, ∃ target, Build.destination? s v.path = some target ∧
      (target.IsBelow s.output ↔ v.path.fileName? ≠ some "..md") := by
  constructor
  case left =>
    rintro p ⟨names, name, h⟩
    obtain ⟨dir, hp, hd⟩ := exists_parent? h
    have ho := components_outputPath (s := s) h
    rw [← hd] at ho
    refine ⟨dir, _, hp, ho, ?_, isBelow_outputPath_iff h⟩
    split <;> simp
  case right =>
    intro w v hv
    obtain ⟨dir, name, hn, hp⟩ := Build.below_source_of_mem_visits hv
    have hr : IsStraight (dir ++ [name]) := fun n hm => ⟨(hn n hm).isStep, (hn n hm).ne_parent⟩
    refine ⟨s.outputPath (toRelative (dir ++ [name])), ?_, ?_⟩
    · rw [Build.destination?, hp, stripPrefix?_below hr.isPlain (by simp), Option.map_some]
    · have hf := fileName?_below (p := s.source) hr.isPlain (hr name (by simp)).2
      rw [isBelow_outputPath_iff (hr.components_toRelative (by simp)), hp, hf,
        hr.isPlain.pieces_toRelative (by simp), List.getLast?_concat]

-- A source with a content file in it whose name has nothing but dots before the extension.
def dottedPage : World where
  files := (FileSystem.empty.put [] "s" .directory).put ["s"] "..md" (.file "---\n---\n".toUTF8)
  directory := []
  log := []

theorem dottedPage_leads_up :
    Path.IsNormal "..md" ∧ Path.parent? "..md" = some "" ∧
      ((Session.ofConfig "/s" "/o" {}).outputPath "..md").components =
        [.root, .normal "o", .parent] ∧
      ¬((Session.ofConfig "/s" "/o" {}).outputPath "..md").IsBelow "/o" ∧
      ∃ v ∈ Build.visits (Session.ofConfig "/s" "/o" {}) dottedPage, v.path = "/s/..md" ∧
        Build.destination? (Session.ofConfig "/s" "/o" {}) v.path = some "/o/.." := by
  have h : Path.components "..md" = ([] ++ ["..md"]).map .normal := by decide +kernel
  exact ⟨⟨[], "..md", h⟩, by decide +kernel, by decide +kernel,
    (isBelow_outputPath_iff h).not.mpr (by decide +kernel), by decide +kernel⟩

-- The same name with a slash behind it, and the file itself.
theorem dottedPage_outputPath_inside_iff :
    Path.IsNormal "a//..md/" ∧
      (∃ dir step, Path.parent? "a//..md/" = some dir ∧
        ((Session.ofConfig "/s" "/o" {}).outputPath "a//..md/").components =
          Path.components "/o" ++ dir.components ++ [step] ∧
        (∃ name, step = .normal name) ∧
        ((Session.ofConfig "/s" "/o" {}).outputPath "a//..md/").IsBelow "/o") ∧
      ∃ v ∈ Build.visits (Session.ofConfig "/s" "/o" {}) dottedPage, v.path = "/s/..md" ∧
        ∃ target, Build.destination? (Session.ofConfig "/s" "/o" {}) v.path = some target ∧
          ¬target.IsBelow "/o" := by
  have hp : Path.IsNormal "a//..md/" := ⟨["a"], "..md", by decide +kernel⟩
  have hl : Path.pieces "a//..md/" = ["a", "", "..md", ""] := by decide +kernel
  obtain ⟨v, hv, hvp⟩ : ∃ v ∈ Build.visits (Session.ofConfig "/s" "/o" {}) dottedPage,
      v.path = "/s/..md" := by decide +kernel
  obtain ⟨hi, hw⟩ := outputPath_inside_iff (Session.ofConfig "/s" "/o" {})
  obtain ⟨dir, step, hd, ho, hs, hb⟩ := hi "a//..md/" hp
  obtain ⟨target, ht, htb⟩ := hw dottedPage v hv
  rw [hl, if_neg (by decide)] at hs
  rw [hl] at hb
  rw [hvp] at htb
  exact ⟨hp, ⟨dir, step, hd, ho, hs, hb.mpr (by decide)⟩, v, hv, hvp, target, ht,
    htb.not.mpr (by decide +kernel)⟩

section

variable (h : p.components = (names ++ [name]).map .normal) (hn : name ≠ "..md")

include h hn

-- Away from that exception, an entry keeps its way, and gets its name in the output.
theorem components_outputPath_of_ne :
    (s.outputPath p).components =
      s.output.components ++ (names ++ [outputName name]).map .normal := by
  have hl : p.pieces.getLast? ≠ some "..md" := fun hl => hn (eq_of_getLast?_pieces h hl (by decide))
  rw [components_outputPath h, if_neg hl, outputName_eq_renamed hn, List.map_append,
    List.map_singleton, List.append_assoc]

theorem same_outputPath_iff_names {names' : List String} {name' : String}
    (h' : q.components = (names' ++ [name']).map .normal) (hn' : name' ≠ "..md") :
    (s.outputPath p).same (s.outputPath q) ↔
      names = names' ∧ (name = name' ∨ SharesPage name name' ∨ SharesPage name' name) := by
  have hj : Function.Injective Component.normal := fun _ _ => Component.normal.inj
  rw [same_iff, components_outputPath_of_ne h hn, components_outputPath_of_ne h' hn',
    List.append_cancel_left_eq, List.map_inj_right hj, ← List.concat_eq_append,
    ← List.concat_eq_append, List.concat_inj,
    outputName_eq_iff (ne_parent_of_components h) (ne_parent_of_components h')]

end

-- Two entries share a place only if one is a content file and the other has the name of its page,
-- and both are in one directory.
theorem same_outputPath_iff (s : Session) (hp : p.IsNormal) (hq : q.IsNormal)
    (hp' : p.fileName? ≠ some "..md") (hq' : q.fileName? ≠ some "..md") (hne : p.same q = false) :
    ((s.outputPath p).same (s.outputPath q) ↔
      (∃ dir dir', p.parent? = some dir ∧ q.parent? = some dir' ∧ dir.same dir') ∧
      ∃ stem, stem ≠ "" ∧
        (p.fileName? = some (stem ++ ".md") ∧ q.fileName? = some (stem ++ ".html") ∨
          p.fileName? = some (stem ++ ".html") ∧ q.fileName? = some (stem ++ ".md"))) ∧
    (isContent p = isContent q → (s.outputPath p).same (s.outputPath q) = false) := by
  obtain ⟨as, a, ha⟩ := hp
  obtain ⟨bs, b, hb⟩ := hq
  have hpa := fileName?_of_components ha
  have hqb := fileName?_of_components hb
  rw [hpa] at hp' ⊢
  rw [hqb] at hq' ⊢
  simp only [Ne, Option.some_inj] at hp' hq' ⊢
  have hs := same_outputPath_iff_names (s := s) ha hp' hb hq'
  have hab : as = bs → a ≠ b := by
    rintro rfl rfl
    rw [same, ha, hb, beq_self_eq_true] at hne
    exact absurd hne (by decide)
  have hdir : (∃ dir dir', p.parent? = some dir ∧ q.parent? = some dir' ∧ dir.same dir') ↔
      as = bs := by
    obtain ⟨dir, hd, hdc⟩ := exists_parent? ha
    obtain ⟨dir', hd', hdc'⟩ := exists_parent? hb
    have hj : Function.Injective Component.normal := fun _ _ => Component.normal.inj
    simp [hd, hd', same_iff, hdc, hdc', List.map_inj_right hj]
  refine ⟨?_, fun hc => ?_⟩
  · rw [hs, hdir]
    refine and_congr_right fun he => ?_
    rw [or_iff_right (hab he), sharesPage_iff hp', sharesPage_iff hq', ← exists_or]
    simp only [← and_or_left, and_comm (a := b = _)]
  · rw [isContent, isContent, extension?, extension?, hpa, hqb] at hc
    have hc : isContentName a = isContentName b := hc
    apply Bool.eq_false_iff.mpr
    intro hx
    obtain ⟨he, h | h | h⟩ := hs.mp hx
    · exact hab he h
    · exact h.isContentName_ne hc
    · exact h.isContentName_ne hc.symm

-- A content file, and a directory with the name of its page, written in another way.
theorem respelled_same_outputPath_iff :
    Path.IsNormal "d/a.b.md" ∧ Path.IsNormal "d//a.b.html/." ∧
      Path.same "d/a.b.md" "d//a.b.html/." = false ∧
      ((Session.ofConfig "s" "o" {}).outputPath "d/a.b.md").same
        ((Session.ofConfig "s" "o" {}).outputPath "d//a.b.html/.") ∧
      ((Session.ofConfig "s" "o" {}).outputPath "d/a.b.md").same
        ((Session.ofConfig "s" "o" {}).outputPath "d/a.html.md") = false := by
  have hp : Path.IsNormal "d/a.b.md" := ⟨["d"], "a.b.md", by decide +kernel⟩
  have hq : Path.IsNormal "d//a.b.html/." := ⟨["d"], "a.b.html", by decide +kernel⟩
  have hr : Path.IsNormal "d/a.html.md" := ⟨["d"], "a.html.md", by decide +kernel⟩
  have hpq : Path.same "d/a.b.md" "d//a.b.html/." = false := by decide +kernel
  refine ⟨hp, hq, hpq, ?_, ?_⟩
  · refine (same_outputPath_iff _ hp hq (by decide +kernel) (by decide +kernel) hpq).1.mpr ⟨?_, ?_⟩
    · exact ⟨"d", "d", by decide +kernel, by decide +kernel, same_refl _⟩
    · exact ⟨"a.b", by decide, .inl (by decide +kernel)⟩
  · exact (same_outputPath_iff _ hp hr (by decide +kernel) (by decide +kernel)
      (by decide +kernel)).2 (by decide +kernel)

end Session

end StaticSite
