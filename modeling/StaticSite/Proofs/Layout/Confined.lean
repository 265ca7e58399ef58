import StaticSite.Proofs.Build.Compile
import StaticSite.Proofs.FileSystem.Below
/-!
Layouts come from their own directory. Main statements: which names of layouts are valid
(`isValidName_iff`), and that putting a page into its layout opens no file, or one that stands right
in the directory of the layouts (`inject_confined`).
-/
namespace StaticSite.Layout

open Path Location FileSystem Action

variable {name : String} {layouts page : Path} {config : EffectiveConfig} {body : String}

-- A name without slashes is a single component unless it is empty or leads nowhere or up.
theorem components_name (h : '/' ∉ name.toList) :
    (∃ n, (Path.mk name).components = [.normal n]) ↔ name ≠ "" ∧ name ≠ "." ∧ name ≠ ".." := by
  by_cases he : name = ""
  case pos =>
    have hc : (Path.mk "").components = [] := by decide
    simp [he, hc]
  by_cases hd : name = "."
  case pos =>
    have hc : (Path.mk ".").components = [.current] := by decide
    simp [hd, hc]
  by_cases hu : name = ".."
  case pos =>
    have hc : (Path.mk "..").components = [.parent] := by decide
    simp [hu, hc]
  have hk : IsPlain [name] := IsPlain.nil.concat ⟨by simp [isIdle, he, hd], h⟩
  have hp : (Path.mk name).pieces = [name] := by
    simpa [toRelative] using hk.pieces_toRelative (by simp)
  have ha : (Path.mk name).isAbsolute = false := by
    simpa [toRelative] using hk.isAbsolute_toRelative (by simp)
  simp [components, hp, ha, hd, componentOf?, isIdle, he, hu]

-- Both checks together leave out the names that lead elsewhere, and no others.
theorem isValidName_iff : isValidName name ↔
    name ≠ "" ∧ name ≠ "." ∧ name ≠ ".." ∧ '/' ∉ name.toList ∧ '\\' ∉ name.toList := by
  have hv : isValidName name ↔ ('/' ∉ name.toList ∧ '\\' ∉ name.toList) ∧
      ∃ n, (Path.mk name).components = [.normal n] := by
    rw [isValidName, Bool.and_eq_true]
    apply and_congr
    · have hc : (∀ c ∈ name.toList, c ≠ '/' ∧ c ≠ '\\') ↔
          '/' ∉ name.toList ∧ '\\' ∉ name.toList := by
        simp only [forall_and, ne_eq, imp_not_comm (b := _ = _), forall_eq]
      simpa using hc
    · split <;> simp_all
  rw [hv]
  constructor
  · rintro ⟨⟨hs, hb⟩, hc⟩
    obtain ⟨he, hd, hu⟩ := (components_name hs).mp hc
    exact ⟨he, hd, hu, hs, hb⟩
  · rintro ⟨he, hd, hu, hs, hb⟩
    exact ⟨⟨hs, hb⟩, (components_name hs).mpr ⟨he, hd, hu⟩⟩

theorem components_path (h : isValidName name) :
    (path layouts name).components = layouts.components ++ [.normal (name ++ ".html")] := by
  obtain ⟨hn, hu⟩ := isStep_fileName (slash_not_mem_of_isValidName h)
  have hp : path layouts name = layouts / toRelative ([] ++ [name ++ "." ++ fileExtension]) := rfl
  have hc : componentOf? (name ++ "." ++ fileExtension) =
      some (.normal (name ++ "." ++ fileExtension)) := by
    rw [componentOf?, hn.1]
    exact if_neg hu
  rw [hp, components_below (IsPlain.nil.concat hn) (by simp), List.nil_append,
    List.filterMap_cons_some hc, String.append_assoc]
  rfl

-- What the path of a layout names stands right in the directory of the layouts, whatever links have
-- led there.
theorem resolveLast_path {fs : FileSystem} {cwd l : Location} {step : LastStep}
    (h : isValidName name) (hl : fs.find cwd layouts = .ok (l, .directory))
    (hr : fs.resolveLast cwd (path layouts name) = .ok step) :
    step = .name l (name ++ ".html") := by
  obtain ⟨hn, hu⟩ := isStep_fileName (slash_not_mem_of_isValidName h)
  have hp : path layouts name = layouts / toRelative ([] ++ [name ++ "." ++ fileExtension]) := rfl
  obtain ⟨links, hs⟩ := exists_resolveLast_below hl (IsPlain.nil.concat hn)
  rw [hp, hs, takeSteps_nil (get?_of_find hl)] at hr
  cases hc : checkPath (layouts / toRelative ([] ++ [name ++ "." ++ fileExtension])) <;>
    rw [hc] at hr <;> simp only [Except.bind, reduceCtorEq, lastStep, if_neg hu] at hr
  split at hr
  case isTrue => simp at hr
  case isFalse => simpa [fileExtension, String.append_assoc, eq_comm] using hr

-- Layouts are confined to their directory: a name is valid unless it could lead elsewhere, a valid
-- one is a single file right in the directory, and no other path is looked for, whatever layout a
-- page or the site asks for.
theorem inject_confined :
    (∀ name, isValidName name ↔
      name ≠ "" ∧ name ≠ "." ∧ name ≠ ".." ∧ '/' ∉ name.toList ∧ '\\' ∉ name.toList) ∧
    (∀ layouts name, isValidName name →
      (path layouts name).components = layouts.components ++ [.normal (name ++ ".html")] ∧
      ∀ (fs : FileSystem) (cwd l : Location) (step : LastStep),
        fs.find cwd layouts = .ok (l, .directory) →
        fs.resolveLast cwd (path layouts name) = .ok step → step = .name l (name ++ ".html")) ∧
    ∀ layouts config body page,
      (¬isValidName config.layout ∧
        inject layouts config body page = throw (.invalidName config.layout page)) ∨
      (isValidName config.layout ∧
        Reads (· = path layouts config.layout) (inject layouts config body page) ∧
        inject layouts config body page = do
          let template ← (Disk.readText (path layouts config.layout)).orElseThrow
            (readError config.layout (path layouts config.layout) page)
          return Template.render template config body) := by
  refine ⟨fun _ => isValidName_iff, fun _ _ h => ⟨components_path h, fun _ _ _ _ =>
    resolveLast_path h⟩, fun layouts config body page => ?_⟩
  cases h : isValidName config.layout
  case false => exact .inl ⟨by simp, inject_of_not_isValidName h⟩
  case true => exact .inr ⟨rfl, reads_inject_path h, inject_of_isValidName h⟩

-- A source with a link to its layouts, which are beside it.
def linkedLayouts : FileSystem :=
  (((FileSystem.empty.put [] "s" .directory).put ["s"] "layouts" (.link "../t")).put [] "t"
    .directory).put ["t"] "post.html" (.file "a".toUTF8)

theorem linkedLayouts_inject_confined :
    isValidName "post" ∧ ¬isValidName "../post" ∧
      (path "/s/layouts" "post").components =
        (Path.mk "/s/layouts").components ++ [.normal "post.html"] ∧
      linkedLayouts.resolveLast [] (path "/s/layouts" "post") = .ok (.name ["t"] "post.html") ∧
      inject "/s/layouts" (.merge { layout := "../post" } {}) "" "/p" =
        throw (.invalidName "../post" "/p") := by
  obtain ⟨hv, hp, hi⟩ := inject_confined
  have hn : isValidName "post" := (hv "post").mpr (by decide +kernel)
  have hu : ¬isValidName "../post" := mt (hv "../post").mp (by decide +kernel)
  obtain ⟨hc, hr⟩ := hp "/s/layouts" "post" hn
  refine ⟨hn, hu, hc, ?_, ?_⟩
  · have hf : linkedLayouts.find [] "/s/layouts" = .ok (["t"], .directory) := by decide +kernel
    have hs : (linkedLayouts.resolveLast [] (path "/s/layouts" "post")).isOk := by decide +kernel
    cases hl : linkedLayouts.resolveLast [] (path "/s/layouts" "post") with
    | error => simp [hl, Except.isOk, Except.toBool] at hs
    | ok step => exact congrArg _ (hr linkedLayouts [] ["t"] step hf hl)
  · rcases hi "/s/layouts" (.merge { layout := "../post" } {}) "" "/p" with ⟨-, he⟩ | ⟨hc, -⟩
    case inl => exact he
    case inr => exact absurd hc hu

end StaticSite.Layout
