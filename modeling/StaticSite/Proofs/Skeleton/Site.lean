import StaticSite.Proofs.Build.Prepare
import StaticSite.Proofs.Build.Processed
import StaticSite.Proofs.Compile.Ends
import StaticSite.Proofs.Skeleton.Made
import StaticSite.Proofs.Skeleton.Texts
import StaticSite.Proofs.Walk.Complete
import StaticSite.Proofs.Walk.Order
/-!
Building a new site. Main statement: a site that has been created is built into one page, wherever
it is and wherever the output is made (`site_of_create`).
-/
namespace StaticSite.Skeleton

open FileSystem Action Location Build Walk

variable {root p output : Path} {w u v : World} {src out l : Location} {e : Entry}
  {site : SiteConfig} {page : Page} {r : Report} {name : String} {n : Nat} {way : List Step}

-- A new site is at `src`, and the output at `out` is a new directory, which may be in the site. No
-- other entry stands right in the site.
structure Fresh (w : World) (src out : Location) : Prop where
  get?_home : w.files.get? (src ++ ["index.md"]) = some (.file home.toUTF8)
  get?_layout : w.files.get? (src ++ ["layouts", "layout.html"]) = some (.file layout.toUTF8)
  get?_output : w.files.get? out = some .directory
  of_get? : ∀ name e, w.files.get? (src ++ [name]) = some e → (∀ target, e ≠ .link target) ∧
    (name = "index.md" ∨ name = "config.yaml" ∨ name = "layouts" ∨ src ++ [name] = out)
  vacant : ∀ k ≠ [], w.files.get? (out ++ k) = none
  isShort_layout : IsShort (src ++ ["layouts", "layout.html"])
  isShort_page : IsShort (out ++ ["index.html"])

namespace Fresh

variable (h : Fresh w src out)

theorem logged (h : Fresh w src out) (log : Log) : Fresh { w with log } src out :=
  ⟨h.get?_home, h.get?_layout, h.get?_output, h.of_get?, h.vacant, h.isShort_layout, h.isShort_page⟩

include h

theorem get?_source : w.files.get? src = some .directory :=
  get?_of_append h.get?_home (by simp)

theorem ne : src ≠ out := by
  rintro rfl
  exact nomatch h.get?_home.symm.trans (h.vacant ["index.md"] (by simp))

theorem ne_output : src ++ ["index.md"] ≠ out := by
  rintro rfl
  exact nomatch h.get?_home.symm.trans h.get?_output

theorem isPlain_source : src.IsPlain :=
  (isStraight_of_get? h.get?_source).isPlain

theorem isPlain_output : out.IsPlain :=
  (isStraight_of_get? h.get?_output).isPlain

theorem isShort_source : src.IsShort :=
  h.isShort_layout.of_prefix (List.prefix_append _ _)

theorem isShort_home : IsShort (src ++ ["index.md"]) := by
  have hl := h.isShort_layout
  have ht : (src ++ ["layouts", "layout.html"]).toPath.text =
      src.slashed ++ "layouts" ++ "/" ++ "layout.html" := by
    rw [← text_toPath_concat, List.append_cons, text_toPath_concat, slashed, if_neg (by simp)]
  rw [IsShort, ht] at hl
  rw [IsShort, text_toPath_concat]
  simp only [String.utf8ByteSize_append] at hl ⊢
  have hle : "index.md".utf8ByteSize ≤ "layout.html".utf8ByteSize := by decide
  omega

theorem between {s : Session} (hs : s = .ofConfig src.toPath out.toPath site) :
    s.Between src out where
  source := hs ▸ rfl
  output := hs ▸ rfl
  ne := h.ne
  straight_source := isStraight_of_get? h.get?_source
  straight_output := isStraight_of_get? h.get?_output

variable {s : Session} (hs : s = .ofConfig src.toPath out.toPath site)
  (hl : site.layouts = "layouts")

include hs hl

theorem layouts_eq : s.layouts = (src ++ ["layouts"]).toPath := by
  rw [hs, ← h.isPlain_source.toPath_div_name (by decide), ← hl]
  rfl

theorem isExcluded_iff (hp : l.IsPlain) :
    s.isExcluded l.toPath ↔
      l = src ++ ["layouts"] ∨ l = out ∨ l = src ++ ["config.yaml"] := by
  have hb := h.between hs
  have hc : s.source / SiteConfig.fileName = (src ++ ["config.yaml"]).toPath := by
    rw [hb.source]
    exact h.isPlain_source.toPath_div_name (by decide)
  have hconfig : IsPlain (src ++ ["config.yaml"]) := h.isPlain_source.concat (by decide)
  have hlayouts : IsPlain (src ++ ["layouts"]) := h.isPlain_source.concat (by decide)
  rw [Session.isExcluded, h.layouts_eq hs hl, hb.output, hc]
  simp only [Bool.or_eq_true, hp.same_toPath_iff h.isPlain_output, hp.same_toPath_iff hconfig,
    hp.same_toPath_iff hlayouts, or_assoc]

theorem layoutPath_eq : Layout.path s.layouts EffectiveConfig.defaultLayout =
    (src ++ ["layouts", "layout.html"]).toPath := by
  have hp : IsPlain (src ++ ["layouts"]) := h.isPlain_source.concat (by decide)
  have hd : (src ++ ["layouts"]).toPath / ⟨"layout.html"⟩ =
      (src ++ ["layouts"] ++ ["layout.html"]).toPath := hp.toPath_div_name (by decide)
  rw [h.layouts_eq hs hl]
  exact hd.trans (by rw [List.append_assoc]; rfl)

-- The home page is compiled with the layout of the site.
theorem exec_file (hc : SiteConfig.ofText config = .ok site) :
    exec (Compile.file s (src ++ ["index.md"]).toPath) w =
      (.ok (document "Home" "Built with quire" homeBody), w) := by
  obtain ⟨site', page, hc', hp, -, hd, ht⟩ := exists_config
  obtain rfl : site' = site := Except.ok.inj (hc'.symm.trans hc)
  have hr : exec (Disk.readText (src ++ ["index.md"]).toPath) w = (.ok home, w) :=
    Disk.exec_readText_of_find (find_toPath h.get?_home h.isShort_home (by simp))
  have hr' : exec (Disk.readText (Layout.path s.layouts EffectiveConfig.defaultLayout)) w =
      (.ok layout, w) := by
    rw [h.layoutPath_eq hs hl]
    exact Disk.exec_readText_of_find (find_toPath h.get?_layout h.isShort_layout (by simp))
  have hn : Layout.isValidName EffectiveConfig.defaultLayout := by decide
  have hi : exec (Layout.inject s.layouts (.merge site' page.config) page.body
      (src ++ ["index.md"]).toPath) w = (.ok (document "Home" "Built with quire" homeBody), w) := by
    rw [← ht]
    exact Compile.exec_inject_of_ok (hd.symm ▸ hn) (by rw [hd, hr'])
  rw [Compile.file, exec_bind_of_ok (exec_orElseThrow_of_ok hr), Compile.text, hp]
  subst hs
  exact exec_orElseThrow_of_ok hi

-- All other entries right in the site are left out.
theorem exec_visitEntry_of_ne (hn : w.files.get? (src ++ [name]) = some e) (hne : name ≠ "index.md")
    (u : World) : ∃ log, exec (visitEntry .walk (visit s) n way src.toPath r (name, e)) u =
      (.ok r, { u with log }) := by
  obtain ⟨ht, hname⟩ := h.of_get? name e hn
  have hp := h.isPlain_source.concat (isName_of_get? hn name (by simp)).isStep
  have hx : s.isExcluded (src ++ [name]).toPath := by
    rw [h.isExcluded_iff hs hl hp]
    rcases hname with hn | rfl | rfl | ho
    case inl => exact absurd hn hne
    case inr.inl => exact .inr (.inr rfl)
    case inr.inr.inl => exact .inl rfl
    case inr.inr.inr => exact .inr (.inl ho)
  have hd : src.toPath / ⟨name⟩ = (src ++ [name]).toPath :=
    h.isPlain_source.toPath_div_name (isName_of_get? hn name (by simp)).isStep
  obtain ⟨found, hf⟩ : ∃ found, enter u.files u.directory way (src.toPath / ⟨name⟩) e = .ok found :=
    exists_enter ht
  obtain ⟨log, hv⟩ : ∃ log, exec (visit s (src.toPath / ⟨name⟩) found.isDirectory r) u =
      (.ok none, { u with log }) := by
    rw [hd]
    exact exec_visit_of_isExcluded hx
  exact ⟨log, exec_visitEntry_of_visit hf hv (.inr ⟨rfl, rfl⟩)⟩

theorem exec_foldlM_visitEntry {xs : List (String × Entry)}
    (hx : ∀ x ∈ xs, x ∈ w.files.children src ∧ x.1 ≠ "index.md") (u : World) :
    ∃ log, exec (xs.foldlM (visitEntry .walk (visit s) n way src.toPath) r) u =
      (.ok r, { u with log }) := by
  induction xs generalizing u
  case nil => exact ⟨u.log, rfl⟩
  case cons x xs hi =>
    obtain ⟨⟨hm, hne⟩, hxs⟩ := List.forall_mem_cons.mp hx
    obtain ⟨log, hv⟩ := h.exec_visitEntry_of_ne hs hl (mem_children.mp hm) hne u
    obtain ⟨log', hv'⟩ := hi hxs { u with log }
    exact ⟨log', by rw [List.foldlM_cons, exec_bind_of_ok hv, hv']⟩

variable (hc : SiteConfig.ofText config = .ok site)

include hc

theorem exists_write :
    ∃ v, exec (Compile.write s (src ++ ["index.md"]).toPath (out ++ ["index.html"]).toPath) w =
        (.ok (), v) ∧
      w.Adds (out ++ ["index.html"])
        (.file (document "Home" "Built with quire" homeBody).toUTF8) v := by
  have hn : IsName "index.html" := by decide
  have hv := h.vacant ["index.html"] (by simp)
  have hw : w.files.Writable out "index.html" :=
    ⟨hn, h.get?_output, by simp [hv], h.isShort_page⟩
  have hp : (out ++ ["index.html"]).toPath.parent? = some out.toPath :=
    (h.isPlain_output.concat hn.isStep).parent?_toPath
  have hd : exec (Disk.makeDirectories out.toPath) w = (.ok (), w) :=
    Disk.makeDirectories_of_get? h.get?_output (h.isShort_page.of_prefix (List.prefix_append _ _))
  obtain ⟨v, hx, ha⟩ := Disk.exists_write_of_vacant hn
    (document "Home" "Built with quire" homeBody).toUTF8 (hw.resolve_of_vacant hv)
  refine ⟨v, ?_, ha⟩
  rw [Compile.write, exec_bind_of_ok (h.exec_file hs hl hc), hp]
  exact (exec_bind_of_ok (exec_orElseThrow_of_ok hd)).trans (exec_orElseThrow_of_ok hx)

theorem exists_visit (r : Report) :
    ∃ v, exec (visit s (src ++ ["index.md"]).toPath false r) w =
        (.ok (some { r with pages := r.pages + 1 }), v) ∧
      w.Adds (out ++ ["index.html"])
        (.file (document "Home" "Built with quire" homeBody).toUTF8) v := by
  have hx : s.isExcluded (src ++ ["index.md"]).toPath = false := by
    have hp := h.isPlain_source.concat (isName_of_get? h.get?_home "index.md" (by simp)).isStep
    rw [← Bool.not_eq_true, h.isExcluded_iff hs hl hp]
    simpa using h.ne_output
  have hn : IsStraight ([] ++ ["index.md"]) := by decide
  have ht : target ([] ++ ["index.md"]) = ["index.html"] := by decide
  have hm : Extension.isContentName "index.md" := by decide
  obtain ⟨level, message, hp⟩ : ∃ level message, perform s _ false r = _ :=
    perform_toPath (h.between hs) hn
  rw [ht, hm, List.nil_append] at hp
  obtain ⟨v, hv, ha⟩ := (h.logged (w.log ++ [⟨level, message⟩])).exists_write hs hl hc
  refine ⟨v, ?_, ha.vacant, ha.directory_eq, ha.get?_eq⟩
  have hpart : exec (part s (src ++ ["index.md"]).toPath (out ++ ["index.html"]).toPath false true)
      { w with log := w.log ++ [⟨level, message⟩] } = (.ok (), v) := exec_orElseThrow_of_ok hv
  have hperf : exec (perform s (src ++ ["index.md"]).toPath false r) w =
      (.ok (r.count false true), v) := by
    rw [hp, exec_bind_of_ok (exec_record level message w)]
    exact exec_bind_of_ok hpart
  rw [exec_visit hx, hperf]
  rfl

-- A walk comes to the home page and to nothing else that is not left out.
theorem exists_walk : ∃ v,
    exec (Walk.run .walk (visit s) src.toPath {}) w = (.ok { pages := 1 }, v) ∧
      w.Adds (out ++ ["index.html"])
        (.file (document "Home" "Built with quire" homeBody).toUTF8) v := by
  have hlist : list w.files w.directory src.toPath = .ok (src, w.files.children src) := by
    rw [list_toPath h.get?_source, checkPath_toPath_of_get? h.get?_source h.isShort_source]
    rfl
  have hstart : start w.files w.directory src.toPath =
      .ok (.directory (.ok (src, w.files.children src))) := by
    rw [start, resolve_toPath_of_get? h.get?_source h.isShort_source (by simp), ← hlist]
    rfl
  obtain ⟨before, after, hb⟩ := List.append_of_mem (mem_children.mpr h.get?_home)
  have hx : ∀ x ∈ before ++ after, x ∈ w.files.children src ∧ x.1 ≠ "index.md" := by
    have hn : ((w.files.children src).map (·.1)).Nodup := nodup_children
    rw [hb, (List.perm_middle.map _).nodup_iff, List.map_cons, List.nodup_cons] at hn
    refine fun x hx => ⟨hb ▸ List.perm_middle.mem_iff.mpr (List.mem_cons_of_mem _ hx), fun he => ?_⟩
    exact hn.1 (List.mem_map.mpr ⟨x, hx, he⟩)
  obtain ⟨hx, hx'⟩ := List.forall_mem_append.mp hx
  obtain ⟨log, h₁⟩ := h.exec_foldlM_visitEntry hs hl hx w
  obtain ⟨v, hv, ha⟩ := (h.logged log).exists_visit hs hl hc {}
  obtain ⟨log', h₃⟩ := h.exec_foldlM_visitEntry hs hl hx' v
  have hd : src.toPath / ⟨"index.md"⟩ = (src ++ ["index.md"]).toPath :=
    h.isPlain_source.toPath_div_name (by decide)
  have h₂ : exec (visitEntry .walk (visit s) (pathLimit - 1) [⟨src.toPath, src⟩] src.toPath {}
      ("index.md", .file home.toUTF8)) { w with log } = (.ok { pages := 1 }, v) :=
    exec_visitEntry_of_visit (enter_file _ _) (hd.symm ▸ hv) (.inl ⟨rfl, rfl⟩)
  refine ⟨{ v with log := log' }, ?_, ha.vacant, ha.directory_eq, ha.get?_eq⟩
  rw [Walk.run, exec_bind_of_ok (exec_get w), hstart, orThrow, pure_bind]
  change exec ((w.files.children src).foldlM (visitEntry .walk (visit s) (pathLimit - 1)
    [⟨src.toPath, src⟩] src.toPath) {}) w = _
  rw [hb, List.foldlM_append, exec_bind_of_ok h₁, List.foldlM_cons, exec_bind_of_ok h₂, h₃]

theorem exists_run : ∃ v, exec (Build.run s) w = (.ok { pages := 1 }, v) ∧
    w.Adds (out ++ ["index.html"])
      (.file (document "Home" "Built with quire" homeBody).toUTF8) v := by
  obtain ⟨v, hv, ha⟩ := h.exists_walk hs hl hc
  have hb := h.between hs
  have hm : exec (Build.makeDirectory s.output) w = (.ok (), w) := by
    rw [hb.output]
    exact exec_orElseThrow_of_ok (Disk.makeDirectories_of_get? h.get?_output
      (h.isShort_page.of_prefix (List.prefix_append _ _)))
  obtain ⟨log, hr⟩ : ∃ log, exec (Build.run s) w = (.ok { pages := 1 }, { v with log }) := by
    rw [Build.run, exec_bind_of_ok hm, hb.source, exec_bind_of_ok hv]
    exact ⟨_, rfl⟩
  exact ⟨_, hr, ha.logged log⟩

end Fresh

-- A new site is built, and all that is in the output is the home page.
theorem Fresh.exists_site (h : Fresh w src out) (hl : site.layouts = "layouts")
    (hc : SiteConfig.ofText config = .ok site) (hf : Found root u site src)
    (hm : exec (Disk.makeDirectory output) u = (.ok (), w))
    (ho : w.files.find w.directory output = .ok (out, .directory)) :
    ∃ v, exec (Build.site root output) u = (.ok { pages := 1 }, v) ∧
      v.files.find v.directory output = .ok (out, .directory) ∧
      v.files.below out =
        [(["index.html"], .file (document "Home" "Built with quire" homeBody).toUTF8)] := by
  obtain ⟨log, hp⟩ := hf.exec_prepare output
  obtain ⟨log', hm'⟩ := Disk.ignoresLog_makeDirectories (p := output) u log
  rw [Disk.makeDirectories_of_makeDirectory hm] at hm'
  have hne : ¬src.toPath.same out.toPath := by
    rw [h.isPlain_source.same_toPath_iff h.isPlain_output]
    exact h.ne
  obtain ⟨v, hv, ha⟩ := (h.logged log').exists_run rfl hl hc
  have hempty : Holds w output out [] := .of_vacant ho fun name => h.vacant [name] (by simp)
  have hholds := (hempty.logged log').adds ha
  refine ⟨v, ?_, hholds.find_eq, hholds.below_eq (by simp) (List.Subset.refl _) (by simp)⟩
  rw [site_eq_prepare_run, exec_bind, hp, exec_settle, hm']
  dsimp only [settled]
  rw [ho]
  dsimp only
  rw [if_neg hne]
  exact hv

namespace Holds

variable (h : Holds w root src tree)

include h

theorem fresh (ha : w.Adds out .directory v) (hs : IsShort (src ++ ["layouts", "layout.html"]))
    (ho : IsShort (out ++ ["index.html"])) : Fresh v src out where
  get?_home := ha.get? (h.get?_eq _ (by simp))
  get?_layout := ha.get? (h.get?_eq _ (by simp))
  get?_output := ha.get?_self
  of_get? name e he := by
    by_cases hn : src ++ [name] = out
    case pos =>
      obtain rfl : Entry.directory = e := Option.some.inj (ha.get?_self.symm.trans (hn ▸ he))
      exact ⟨by simp, .inr (.inr (.inr hn))⟩
    case neg =>
      rw [ha.get?_of_ne hn, h.get?_eq _ (by simp)] at he
      obtain ⟨before, after, ht, -⟩ := List.lookup_eq_some_iff.mp he
      have hm : ([name], e) ∈ tree := ht ▸ by simp
      simp only [tree, List.mem_cons, Prod.mk.injEq, List.cons.injEq, and_true, List.not_mem_nil,
        reduceCtorEq, and_false, false_and, or_false] at hm
      rcases hm with ⟨rfl, rfl⟩ | ⟨rfl, rfl⟩ | ⟨rfl, rfl⟩ <;> simp
  vacant k hk := by
    rw [ha.get?_of_ne (by simpa using hk)]
    exact get?_append_of_none ha.vacant hk
  isShort_layout := hs
  isShort_page := ho

-- The configuration of a new site is found and read.
theorem found (hs : (root / toRelative ["layouts", "layout.html"]).text.utf8ByteSize < pathLimit)
    (hc : SiteConfig.ofText config = .ok site) : Found root w site src where
  load := by
    have hw : IsWay ["config.yaml"] := by decide
    have hn : root / SiteConfig.fileName = root / toRelative ["config.yaml"] := Path.below_name
    have hf : w.files.find w.directory (root / SiteConfig.fileName) =
        .ok (src ++ ["config.yaml"], .file config.toUTF8) := by
      rw [hn]
      have hk : IsStraight ["config.yaml"] := by decide
      exact find_below_of_get? h.find_eq hk.isPlain (by simp) (h.checkPath_below hs hw)
        (h.get?_eq _ (by simp)) (by simp)
    obtain ⟨log, hl⟩ := exec_loadFrom root w
    rw [hl, if_pos (Disk.isFile_iff.mpr ⟨_, _, hf⟩), SiteConfig.load,
      exec_bind_of_ok (exec_orElseThrow_of_ok (Disk.exec_readText_of_find hf)), hc]
    rfl
  find := ⟨_, h.find_eq⟩

end Holds

-- Where a site can be created, it is built into one page, and that is all there is in the output.
-- The output may be in the site, and in the directory of its layouts. The page has its own title
-- and the description of the site.
theorem site_of_create (hne : root.text ≠ "") (hp : ".." ∉ root.pieces) (h : IsFree w root)
    (hs : (root / toRelative ["layouts", "layout.html"]).text.utf8ByteSize < pathLimit) :
    ∃ v src, exec (create root) w = (.ok (), v) ∧
      v.files.find v.directory root = .ok (src, .directory) ∧
      ∀ output v₁, exec (Disk.makeDirectory output) v = (.ok (), v₁) →
        ∃ out, v₁.files.find v₁.directory output = .ok (out, .directory) ∧
          (IsShort (src ++ ["layouts", "layout.html"]) → IsShort (out ++ ["index.html"]) →
            ∃ u, exec (Build.site root output) v =
                (.ok { pages := 1, files := 0, directories := 0 }, u) ∧
              u.files.find u.directory output = .ok (out, .directory) ∧
              u.files.below out = [(["index.html"],
                .file (document "Home" "Built with quire" homeBody).toUTF8)]) := by
  obtain ⟨v, src, hv, hf, hb⟩ := exists_create hne hp h hs
  refine ⟨v, src, hv, hf, fun output v₁ hm => ?_⟩
  obtain ⟨out, ha, ho⟩ := Disk.adds_of_makeDirectory hm
  refine ⟨out, ho, fun hsl hso => ?_⟩
  obtain ⟨site, page, hc, -, hl, -⟩ := exists_config
  have hholds := Holds.of_find hf
  rw [hb] at hholds
  obtain ⟨u, hu, hi, hbelow⟩ := (hholds.fresh ha hsl hso).exists_site hl hc
    (hholds.found hs hc) hm ho
  exact ⟨u, hu, hi, hbelow⟩

-- The output is where the site has its layouts.
theorem blank_site_of_create :
    (∀ l e, blank.files.find blank.directory "s" ≠ .ok (l, e)) ∧
      ∃ v u, exec (create "s") blank = (.ok (), v) ∧
        exec (Build.site "s" "s/layouts/o") v =
          (.ok { pages := 1, files := 0, directories := 0 }, u) ∧
        u.files.below ["s", "layouts", "o"] = [(["index.html"],
          .file (document "Home" "Built with quire" homeBody).toUTF8)] := by
  have hm : ∀ l e, blank.files.find blank.directory "s" ≠ .ok (l, e) := by
    have he : blank.files.find blank.directory "s" = .error .notFound := by decide +kernel
    simp [he]
  obtain ⟨_, x, hx, -⟩ : ∃ a x, exec (Disk.makeDirectories "s") blank = (.ok a, x) ∧ True := by
    decide +kernel
  obtain ⟨_, v, hv, hs, _, v₁, hm₁, ho⟩ : ∃ a v, exec (create "s") blank = (.ok a, v) ∧
      v.files.find v.directory "s" = .ok (["s"], .directory) ∧
      ∃ b v₁, exec (Disk.makeDirectory "s/layouts/o") v = (.ok b, v₁) ∧
        v₁.files.find v₁.directory "s/layouts/o" = .ok (["s", "layouts", "o"], .directory) := by
    decide +kernel
  have hne : (Path.mk "s").text ≠ "" := by decide
  obtain ⟨v', src, hv', hs', h⟩ := site_of_create hne (by decide) (.missing hm x hx) (by decide)
  obtain rfl : v = v' := (Prod.mk.inj (hv.symm.trans hv')).2
  obtain rfl : ["s"] = src := (Prod.mk.inj (Except.ok.inj (hs.symm.trans hs'))).1
  obtain ⟨out, ho', h⟩ := h _ v₁ hm₁
  obtain rfl : ["s", "layouts", "o"] = out := (Prod.mk.inj (Except.ok.inj (ho.symm.trans ho'))).1
  obtain ⟨u, hu, -, hb⟩ := h (by decide) (by decide)
  exact ⟨hm, v, u, hv, hu, hb⟩

end StaticSite.Skeleton
