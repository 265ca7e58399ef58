import StaticSite.Compile
import StaticSite.Proofs.Compile.Ends
import StaticSite.Proofs.Layout.Replacement
import StaticSite.Skeleton
/-!
The texts of a new site. Main statements: whatever the page, its layout puts the title, the
description and the body in their places (`render_layout`), and the configuration and the home page
are well-formed and go together (`exists_config`).
-/
namespace StaticSite.Skeleton

open FrontMatter Template

theorem toList_ofLines (lines : List String) :
    (ofLines lines).toList = lines.flatMap fun line => line.toList ++ ['\n'] := by
  have h (text : String) : ((lines.map (· ++ "\n")).foldl (· ++ ·) text).toList =
      text.toList ++ lines.flatMap fun line => line.toList ++ ['\n'] := by
    induction lines generalizing text
    case nil => simp
    case cons line lines hi => simp [hi]
  simp [ofLines, String.join, h]

-- What the layout makes of the values that it names.
def document (title description body : String) : String :=
  ofLines
   ["<!DOCTYPE html>",
    "<html>",
    "<head>",
    "  <meta charset=\"utf-8\">",
    "  <title>" ++ title ++ "</title>",
    "  <meta name=\"description\" content=\"" ++ description ++ "\">",
    "</head>",
    "<body>",
    "  <main>",
    body,
    "  </main>",
    "</body>",
    "</html>"]

-- The body of the home page.
def homeText : String :=
  ofLines
   ["# Welcome",
    "",
    "Edit \x60index.md\x60 to change this page, or add another page and link to it",
    "like [this](index.md)."]

-- The body with its references turned into references to the page.
def linkedText : String :=
  ofLines
   ["# Welcome",
    "",
    "Edit \x60index.html\x60 to change this page, or add another page and link to it",
    "like [this](index.html)."]

-- The body as HTML.
def homeBody : String :=
  ofLines
   ["<h1>Welcome</h1>",
    "<p>Edit <code>index.html</code> to change this page, or add another page and link to it",
    "like <a href=\"index.html\">this</a>.</p>"]

-- The text of a document around the values holds no brace that opens.
theorem exists_document : ∃ before middle after behind : List Char,
    (∀ title description body, (document title description body).toList =
      before ++ (title.toList ++ (middle ++ (description.toList ++
        (after ++ (body.toList ++ behind)))))) ∧
      '\x7b' ∉ before ∧ '\x7b' ∉ middle ∧ '\x7b' ∉ after ∧ cutAt opening behind = none := by
  refine ⟨"<!DOCTYPE html>\n<html>\n<head>\n  <meta charset=\"utf-8\">\n  <title>".toList,
    "</title>\n  <meta name=\"description\" content=\"".toList,
    "\">\n</head>\n<body>\n  <main>\n".toList, "\n  </main>\n</body>\n</html>\n".toList,
    fun title description body => ?_, by decide, by decide, by decide, by decide⟩
  simp [document, ofLines, String.join]

theorem fill_placeholder {value : List Char → List Char} {before after : List Char} {key : String}
    (hb : '\x7b' ∉ before) (hk : isKey key.toList) (hc : '\x7d' ∉ key.toList)
    (ht : Text.trim key.toList = key.toList) :
    fill value (before ++ (("\x7b\x7b" ++ key ++ "\x7d\x7d").toList ++ after)) =
      before ++ (value key.toList ++ fill value after) := by
  have he : ("\x7b\x7b" ++ key ++ "\x7d\x7d").toList ++ after =
      opening ++ (key.toList ++ (closing ++ after)) := by simp [opening, closing]
  have ho : cutAt opening (before ++ (opening ++ (key.toList ++ (closing ++ after)))) =
      some (before, key.toList ++ (closing ++ after)) := cutAt_append hb
  rw [he, fill_of_isKey ho (cutAt_append hc) (ht.symm ▸ hk), ht]

-- The layout is a document with placeholders in the places of the values.
theorem layout_eq : layout = document ("\x7b\x7b" ++ "title" ++ "\x7d\x7d")
    ("\x7b\x7b" ++ "description" ++ "\x7d\x7d") ("\x7b\x7b" ++ "body" ++ "\x7d\x7d") := by
  simp only [layout, document, String.reduceAppend]

theorem render_layout (config : EffectiveConfig) (body : String) :
    render layout config body =
      document ((config.lookup "title").getD "") ((config.lookup "description").getD "") body := by
  obtain ⟨before, middle, after, behind, hd, h₁, h₂, h₃, h₄⟩ := exists_document
  have hv (key : String) (hk : key ≠ bodyKey) : substitute config body.toList key.toList =
      ((config.lookup key).getD "").toList := by
    rw [substitute, String.ofList_toList, if_neg hk]
    cases config.lookup key <;> rfl
  have hb : substitute config body.toList "body".toList = body.toList := if_pos rfl
  rw [← String.toList_inj, render, String.toList_ofList, layout_eq, hd, hd,
    fill_placeholder h₁ (by decide) (by decide) (by decide), hv _ (by decide),
    fill_placeholder h₂ (by decide) (by decide) (by decide), hv _ (by decide),
    fill_placeholder h₃ (by decide) (by decide) (by decide), hb, fill_of_unopened h₄]

theorem isDocument_home :
    IsDocument home.toList "title: Home\n".toList homeText.toList := by
  have hl : home.toList = [] ++ ("---".toList ++ '\n' :: ("title: Home\n".toList ++
      ("---".toList ++ (['\n'] ++ homeText.toList)))) := by
    simp only [home, homeText, toList_ofLines, List.flatMap_cons, List.append_assoc]
    rfl
  have hf : IsFence "---".toList := ⟨by decide, by decide⟩
  have ht : IsUnfenced ("title: Home".toList ++ '\n' :: []) :=
    (isUnfenced_line_iff (by decide)).mpr ⟨by decide, .nil⟩
  exact ⟨_, _, _, _, hl, .nil, hf, ht, hf, .inl rfl⟩

theorem render_homeText : Page.render homeText = homeBody := by
  have hr : Extension.rewriteExtensions homeText = linkedText := by decide +kernel
  have hm : Markdown.toHtml linkedText = homeBody := by decide +kernel
  rw [Page.render, hr, hm]

-- The configuration and the home page can be read, and ask for the layout that is there.
theorem exists_config : ∃ site page, SiteConfig.ofText config = .ok site ∧
    Page.ofText home = .ok page ∧ site.layouts = "layouts" ∧
    (EffectiveConfig.merge site page.config).layout = EffectiveConfig.defaultLayout ∧
    render layout (.merge site page.config) page.body =
      document "Home" "Built with quire" homeBody := by
  have h : (SiteConfig.ofText config).toOption.any fun site =>
      (PageConfig.ofText "title: Home\n").toOption.any fun own =>
        let effective := EffectiveConfig.merge site own
        site.layouts = "layouts" ∧ effective.layout = EffectiveConfig.defaultLayout ∧
          effective.lookup "title" = some "Home" ∧
          effective.lookup "description" = some "Built with quire" := by
    decide +kernel
  rcases hs : SiteConfig.ofText config with e | site <;> rw [hs] at h
  case error => simp [Except.toOption] at h
  case ok =>
    rcases hp : PageConfig.ofText "title: Home\n" with e | own <;> rw [hp] at h
    case error => simp [Except.toOption] at h
    case ok =>
      simp only [Except.toOption, Option.any_some, decide_eq_true_eq] at h
      obtain ⟨hl, hd, ht, hc⟩ := h
      refine ⟨site, ⟨own, homeBody⟩, rfl, ?_, hl, hd, ?_⟩
      · rw [Compile.ofText_of_isDocument isDocument_home, hp, render_homeText]
      · rw [render_layout, ht, hc]
        rfl

end StaticSite.Skeleton
