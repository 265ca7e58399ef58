import StaticSite.Proofs.Build.Compile
import StaticSite.Proofs.FrontMatter.Grammar
/-!
How compiling a text ends, from its front matter to its layout. Main statement: the ways to end
exclude each other in a fixed order, and which one it is depends on the text, the site, the
directory of the layouts and the one layout that is read, and on nothing else (`text_determined`).
-/
namespace StaticSite

open Action FrontMatter Text

namespace Disk

variable {p : Path} {w : World}

-- Reading fails with `notFound` if there is no entry, and only then.
theorem exec_readText_eq_notFound_iff : (exec (readText p) w).1 = .error .notFound ↔
    w.files.find w.directory p = .error .notFound := by
  rw [readText, read, exec_bind, exec_bind, exec_ask]
  rcases w.files.find w.directory p with e | ⟨l, _ | contents | target⟩
  case ok.file => cases h : String.fromUTF8? contents <;> simp [h]
  all_goals simp

theorem exec_readText_of_find {l : Location} {text : String}
    (h : w.files.find w.directory p = .ok (l, .file text.toUTF8)) :
    exec (readText p) w = (.ok text, w) := by
  have ht : String.fromUTF8? text.toUTF8 = some text := dif_pos text.isValidUTF8
  have hr : exec (read p) w = (.ok text.toUTF8, w) := by
    rw [read, exec_bind, exec_ask, h]
    rfl
  rw [readText, exec_bind_of_ok hr, ht, exec_pure]

theorem exec_readText (p : Path) (w : World) :
    exec (readText p) w = ((exec (readText p) w).1, w) :=
  Prod.ext rfl (reads_readText.world w)

end Disk

namespace Compile

open Disk

variable {s t : Session} {site : SiteConfig} {config : EffectiveConfig} {input body : String}
  {layouts page : Path} {w v : World} {r : Except Error String}

-- Whether a text is a page with this configuration, that of the site included, and this body.
def IsPage (site : SiteConfig) (input : String) (config : EffectiveConfig) (body : String) : Prop :=
  ∃ (frontMatter : String) (c : PageConfig),
    IsDocument input.toList frontMatter.toList body.toList ∧
    PageConfig.ofText frontMatter = .ok c ∧ config = .merge site c

-- How compiling a text ends.
inductive Ends (site : SiteConfig) (layouts : Path) (w : World) (input : String) (page : Path) :
    Except Error String → Prop where
  | missingStart (h : (lines input.toList).countP isFence = 0) :
    Ends site layouts w input page (.error (.page (.malformed .missingStartFence)))
  | missingEnd (h : (lines input.toList).countP isFence = 1) :
    Ends site layouts w input page (.error (.page (.malformed .missingEndFence)))
  | frontMatter {frontMatter body : String} {e : Yaml.Error}
    (hd : IsDocument input.toList frontMatter.toList body.toList)
    (he : PageConfig.ofText frontMatter = .error e) :
    Ends site layouts w input page (.error (.page (.frontMatter e)))
  | invalidName {config : EffectiveConfig} {body : String} (hp : IsPage site input config body)
    (hn : ¬Layout.isValidName config.layout) :
    Ends site layouts w input page (.error (.layout (.invalidName config.layout page)))
  -- No entry is there, links followed. A path that leads through a file, or cannot be followed to
  -- its end for another reason, is a failure to read.
  | notFound {config : EffectiveConfig} {body : String} (hp : IsPage site input config body)
    (hn : Layout.isValidName config.layout)
    (hl : w.files.find w.directory (Layout.path layouts config.layout) = .error .notFound) :
    Ends site layouts w input page
      (.error (.layout (.notFound config.layout (Layout.path layouts config.layout) page)))
  | unreadable {config : EffectiveConfig} {body : String} {e : IoError}
    (hp : IsPage site input config body) (hn : Layout.isValidName config.layout)
    (hl : (exec (readText (Layout.path layouts config.layout)) w).1 = .error e)
    (he : e ≠ .notFound) :
    Ends site layouts w input page (.error (.layout (.io (Layout.path layouts config.layout) e)))
  | document {config : EffectiveConfig} {body template : String}
    (hp : IsPage site input config body) (hn : Layout.isValidName config.layout)
    (hl : (exec (readText (Layout.path layouts config.layout)) w).1 = .ok template) :
    Ends site layouts w input page
      (.ok (Template.render template config (Markdown.toHtml (Extension.rewriteExtensions body))))

section Page

theorem ofText_of_split_eq_error {e : FrontMatter.Error} (h : split input = .error e) :
    Page.ofText input = .error (.malformed e) := by
  simp [Page.ofText, h, Except.mapError, bind, Except.bind]

theorem ofText_of_isDocument {frontMatter : String}
    (hd : IsDocument input.toList frontMatter.toList body.toList) :
    Page.ofText input = match PageConfig.ofText frontMatter with
      | .ok c => .ok ⟨c, Page.render body⟩
      | .error e => .error (.frontMatter e) := by
  rw [Page.ofText, split_eq_ok_iff.mpr hd]
  rcases h : PageConfig.ofText frontMatter <;>
    simp [h, Except.mapError, bind, Except.bind, pure, Except.pure]

end Page

section Layout

variable {html template : String} {e : IoError}

theorem exec_inject_of_ok (hn : Layout.isValidName config.layout)
    (hl : (exec (readText (Layout.path layouts config.layout)) w).1 = .ok template) :
    exec (Layout.inject layouts config html page) w =
      (.ok (Template.render template config html), w) := by
  have hr := exec_readText (Layout.path layouts config.layout) w
  rw [hl] at hr
  simp only [Layout.inject, hn, Bool.not_true, Bool.false_eq_true, if_false]
  exact exec_bind_of_ok (exec_orElseThrow_of_ok hr)

theorem exec_inject_of_error (hn : Layout.isValidName config.layout)
    (hl : (exec (readText (Layout.path layouts config.layout)) w).1 = .error e) :
    exec (Layout.inject layouts config html page) w =
      (.error (Layout.readError config.layout (Layout.path layouts config.layout) page e), w) := by
  have hr := exec_readText (Layout.path layouts config.layout) w
  rw [hl] at hr
  simp only [Layout.inject, hn, Bool.not_true, Bool.false_eq_true, if_false]
  exact exec_bind_of_error (exec_orElseThrow_of_error hr)

end Layout

theorem exec_text_of_ofText_eq_error {e : Page.Error} (h : Page.ofText input = .error e) :
    exec (text s input page) w = (.error (.page e), w) := by
  rw [text, h, exec_throw]

theorem exec_text_of_isPage (h : IsPage s.site input config body) :
    exec (text s input page) w =
      exec ((Layout.inject s.layouts config (Page.render body) page).orElseThrow .layout) w := by
  obtain ⟨frontMatter, c, hd, hc, rfl⟩ := h
  rw [text, ofText_of_isDocument hd, hc]

-- What compiling gives is one of the ways to end.
theorem ends_text : Ends s.site s.layouts w input page (exec (text s input page) w).1 := by
  rcases hs : split input with e | ⟨frontMatter, body⟩
  case error =>
    rw [exec_text_of_ofText_eq_error (ofText_of_split_eq_error hs)]
    cases e
    case missingStartFence => exact .missingStart ((split_eq_missingStartFence_iff input).mp hs)
    case missingEndFence => exact .missingEnd ((split_eq_missingEndFence_iff input).mp hs)
  case ok =>
    have hd := split_eq_ok_iff.mp hs
    rcases hc : PageConfig.ofText frontMatter with e | c
    case error =>
      have ho := ofText_of_isDocument hd
      rw [hc] at ho
      rw [exec_text_of_ofText_eq_error ho]
      exact .frontMatter hd hc
    case ok =>
      have hp : IsPage s.site input (.merge s.site c) body := ⟨frontMatter, c, hd, hc, rfl⟩
      rw [exec_text_of_isPage hp, exec_orElseThrow]
      by_cases hn : Layout.isValidName (EffectiveConfig.merge s.site c).layout
      case neg =>
        rw [Layout.inject_of_not_isValidName (by simpa using hn)]
        exact .invalidName hp hn
      case pos =>
        rcases hl : (exec (readText (Layout.path s.layouts (EffectiveConfig.merge s.site c).layout))
          w).1 with e | template
        case ok =>
          rw [exec_inject_of_ok hn hl]
          exact .document hp hn hl
        case error =>
          rw [exec_inject_of_error hn hl, Layout.readError]
          by_cases he : e = .notFound
          case pos =>
            subst he
            exact .notFound hp hn (exec_readText_eq_notFound_iff.mp hl)
          case neg =>
            rw [if_neg he]
            exact .unreadable hp hn hl he

theorem Ends.eq (h : Ends s.site s.layouts w input page r) :
    (exec (text s input page) w).1 = r := by
  cases h
  case missingStart h =>
    have hs := (split_eq_missingStartFence_iff input).mpr h
    rw [exec_text_of_ofText_eq_error (ofText_of_split_eq_error hs)]
  case missingEnd h =>
    have hs := (split_eq_missingEndFence_iff input).mpr h
    rw [exec_text_of_ofText_eq_error (ofText_of_split_eq_error hs)]
  case frontMatter hd he =>
    have ho := ofText_of_isDocument hd
    rw [he] at ho
    rw [exec_text_of_ofText_eq_error ho]
  case invalidName hp hn =>
    rw [exec_text_of_isPage hp, exec_orElseThrow,
      Layout.inject_of_not_isValidName (by simpa using hn)]
    rfl
  case notFound hp hn hl =>
    rw [exec_text_of_isPage hp, exec_orElseThrow,
      exec_inject_of_error hn (exec_readText_eq_notFound_iff.mpr hl)]
    rfl
  case unreadable e hp hn hl he =>
    rw [exec_text_of_isPage hp, exec_orElseThrow, exec_inject_of_error hn hl, Layout.readError,
      if_neg he]
    rfl
  case document hp hn hl =>
    rw [exec_text_of_isPage hp, exec_orElseThrow, exec_inject_of_ok hn hl]
    rfl

theorem exec_text_eq_iff : (exec (text s input page) w).1 = r ↔
    Ends s.site s.layouts w input page r :=
  ⟨fun h => h ▸ ends_text, Ends.eq⟩

namespace Error

-- The failure with `page` in place of the page that it names.
def withPage (page : Path) : Error → Error
  | .layout (.notFound name path _) => .layout (.notFound name path page)
  | .layout (.invalidName name _) => .layout (.invalidName name page)
  | e => e

-- Whether compiling fails so before any file is read.
def isEarly : Error → Bool
  | .page _ | .layout (.invalidName ..) => true
  | .layout (.notFound ..) | .layout (.io ..) | .io _ => false

end Error

namespace Ends

theorem withPage (h : Ends site layouts w input page r) (q : Path)
    (hr : ∀ config body, IsPage site input config body → Layout.isValidName config.layout →
      (exec (readText (Layout.path layouts config.layout)) v).1 =
        (exec (readText (Layout.path layouts config.layout)) w).1) :
    Ends site layouts v input q (r.mapError (.withPage q)) := by
  cases h
  case missingStart h => exact .missingStart h
  case missingEnd h => exact .missingEnd h
  case frontMatter hd he => exact .frontMatter hd he
  case invalidName hp hn => exact .invalidName hp hn
  case notFound config _ hp hn hl =>
    have hf : (exec (readText (Layout.path layouts config.layout)) v).1 = .error .notFound :=
      (hr _ _ hp hn).trans (exec_readText_eq_notFound_iff.mpr hl)
    exact .notFound hp hn (exec_readText_eq_notFound_iff.mp hf)
  case unreadable hp hn hl he => exact .unreadable hp hn ((hr _ _ hp hn).trans hl) he
  case document hp hn hl => exact .document hp hn ((hr _ _ hp hn).trans hl)

theorem of_isEarly {e : Error} (h : Ends site layouts w input page (.error e)) (hi : e.isEarly)
    (v : World) : Ends site layouts v input page (.error e) := by
  cases h
  case missingStart h => exact .missingStart h
  case missingEnd h => exact .missingEnd h
  case frontMatter hd he => exact .frontMatter hd he
  case invalidName hp hn => exact .invalidName hp hn
  case notFound | unreadable => simp [Error.isEarly] at hi

end Ends

-- Compiling a text changes nothing and ends in one of these ways. It ends in the same way in every
-- run with the same text, configuration of the site, directory of the layouts and contents of the
-- layout that is read, whatever else there is; the path of the page is only named in failures. If
-- it fails early, no file matters.
theorem text_determined (s : Session) (input : String) (page : Path) (w : World) :
    (exec (text s input page) w).2 = w ∧
    (∀ r, (exec (text s input page) w).1 = r ↔ Ends s.site s.layouts w input page r) ∧
    (∀ (t : Session) (q : Path) (v : World), t.site = s.site → t.layouts = s.layouts →
      (∀ config body, IsPage s.site input config body → Layout.isValidName config.layout →
        (exec (readText (Layout.path s.layouts config.layout)) v).1 =
          (exec (readText (Layout.path s.layouts config.layout)) w).1) →
      (exec (text t input q) v).1 = (exec (text s input page) w).1.mapError (.withPage q)) ∧
    ∀ (e : Error) (v : World), e.isEarly → (exec (text s input page) w).1 = .error e →
      (exec (text s input page) v).1 = .error e := by
  refine ⟨reads_text.world w, fun _ => exec_text_eq_iff, fun t q v hs hl hr => ?_,
    fun e v he h => ?_⟩
  case refine_1 =>
    rw [exec_text_eq_iff, hs, hl]
    exact ends_text.withPage q hr
  case refine_2 => exact exec_text_eq_iff.mpr ((exec_text_eq_iff.mp h).of_isEarly he v)

-- A world with a layout, and a file of this name.
def bodyLayout (name : String) : World where
  files := ((FileSystem.empty.put [] "layouts" .directory).put ["layouts"] "layout.html"
    (.file "a\x7b\x7bbody\x7d\x7d".toUTF8)).put [] name (.file "b".toUTF8)
  directory := []
  log := []

def plainText : String :=
  "---\n---\nc\n"

theorem layout_of_isPage_plainText {config : EffectiveConfig} {body : String}
    (h : IsPage {} plainText config body) : config.layout = "layout" := by
  obtain ⟨frontMatter, c, hd, hc, rfl⟩ := h
  have hs : split plainText = .ok ("", "c\n") := by decide +kernel
  rw [split_eq_ok_iff.mpr hd] at hs
  obtain ⟨rfl, -⟩ : frontMatter = "" ∧ body = "c\n" := by simpa using hs
  have hl : (PageConfig.ofText "").map (fun c => (EffectiveConfig.merge {} c).layout) =
      .ok "layout" := by decide
  rw [hc] at hl
  simpa [Except.map] using hl

-- The other files of these worlds do not matter, nor do the output and the path of the page.
theorem bodyLayout_text_determined :
    (exec (text (.ofConfig "/" "/o" {}) plainText "/p") (bodyLayout "x")).1 =
      .ok "a<p>c</p>\n" ∧
    (exec (text (.ofConfig "/" "/q" {}) plainText "/r") (bodyLayout "y")).1 =
      .ok "a<p>c</p>\n" ∧
    (exec (text (.ofConfig "/" "/o" {}) "c" "/p") (bodyLayout "x")).1 =
      .error (.page (.malformed .missingStartFence)) ∧
    (exec (text (.ofConfig "/" "/o" {}) "c" "/p") (bodyLayout "y")).1 =
      .error (.page (.malformed .missingStartFence)) := by
  have hp : (exec (text (.ofConfig "/" "/o" {}) plainText "/p") (bodyLayout "x")).1 =
      .ok "a<p>c</p>\n" := by
    decide +kernel
  have he : (exec (text (.ofConfig "/" "/o" {}) "c" "/p") (bodyLayout "x")).1 =
      .error (.page (.malformed .missingStartFence)) := by
    decide +kernel
  have hl : ∀ config body, IsPage {} plainText config body → Layout.isValidName config.layout →
      (exec (readText (Layout.path "/layouts" config.layout)) (bodyLayout "y")).1 =
        (exec (readText (Layout.path "/layouts" config.layout)) (bodyLayout "x")).1 := by
    intro config body h _
    rw [layout_of_isPage_plainText h]
    decide +kernel
  obtain ⟨-, -, hr, -⟩ := text_determined (.ofConfig "/" "/o" {}) plainText "/p" (bodyLayout "x")
  obtain ⟨-, -, -, hf⟩ := text_determined (.ofConfig "/" "/o" {}) "c" "/p" (bodyLayout "x")
  have hq := hr (.ofConfig "/" "/q" {}) "/r" (bodyLayout "y") rfl rfl hl
  rw [hp] at hq
  exact ⟨hp, hq, he, hf _ (bodyLayout "y") rfl he⟩

end Compile

end StaticSite
