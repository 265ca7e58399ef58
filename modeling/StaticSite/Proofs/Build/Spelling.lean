import StaticSite.Proofs.Build.Failure
import StaticSite.Proofs.FileSystem.Links
/-!
Builds whose directories are written in different ways. Main statement: where the directories are
the same, the builds do the same, unless the configuration is found under one path of the source and
is behind too many links under the other (`site_of_same_directories`).
-/
namespace StaticSite

open FileSystem Action Location

namespace Disk

variable {p q : Path} {w : World}

theorem exec_readText_congr (h : w.files.find w.directory p = w.files.find w.directory q) :
    exec (readText p) w = exec (readText q) w := by
  have hr : exec (read p) w = exec (read q) w := by
    rw [read, read, exec_bind, exec_bind, exec_ask, exec_ask, h]
  rw [readText, readText, exec_bind, exec_bind, hr]

end Disk

namespace SiteConfig

-- The same failure, of a file at another path.
def LoadError.withPath (p : Path) : LoadError → LoadError
  | .io _ e => .io p e
  | .yaml _ e => .yaml p e

variable {p q source source' : Path} {w : World} {src : Location}

theorem load_congr (h : w.files.find w.directory p = w.files.find w.directory q) :
    (exec (load q) w).1 = (exec (load p) w).1.mapError (·.withPath q) := by
  rw [load, load, exec_bind, exec_bind, exec_orElseThrow, exec_orElseThrow,
    Disk.exec_readText_congr h]
  rcases exec (Disk.readText q) w with ⟨e | text, u⟩
  case error => rfl
  case ok =>
    simp only [Except.mapError]
    cases ofText text <;> rfl

-- The directory of a site, under a path that is short enough to look for the configuration.
structure Located (source : Path) (w : World) (src : Location) : Prop where
  find_eq : w.files.find w.directory source = .ok (src, .directory)
  isShort : (source / fileName).text.utf8ByteSize < pathLimit

-- The configuration is found under the first path, and not behind too many links under the second.
def Follows (source source' : Path) (w : World) : Prop :=
  Disk.isFile (source / fileName) w →
    w.files.find w.directory (source' / fileName) ≠ .error .filesystemLoop

namespace Located

variable (h : Located source w src) (h' : Located source' w src)

include h

theorem checkPath_eq_ok : checkPath (source / fileName) = .ok () :=
  checkPath_below (find_iff_takeSteps.mp h.find_eq).1 (by decide) (by decide) h.isShort

include h'

theorem find_file_eq (hf : Follows source source' w)
    (hi : Disk.isFile (source / fileName) w) :
    w.files.find w.directory (source / fileName) =
      w.files.find w.directory (source' / fileName) := by
  have hk : IsStraight [fileName.text] := by decide
  have hc := find_below_cases h.find_eq h'.find_eq hk.isPlain (by simp) h.checkPath_eq_ok
    h'.checkPath_eq_ok
  rcases hc with hl | hl | he
  case inl =>
    obtain ⟨l, c, hc⟩ := Disk.isFile_iff.mp hi
    exact absurd (hc.symm.trans hl) (by simp)
  case inr.inl => exact absurd hl (hf hi)
  case inr.inr => exact he

theorem isFile_of_isFile (hf : Follows source source' w)
    (hi : Disk.isFile (source / fileName) w) : Disk.isFile (source' / fileName) w := by
  rw [Disk.isFile_iff] at hi ⊢
  rwa [← h.find_file_eq h' hf (Disk.isFile_iff.mpr hi)]

theorem exec_loadFrom_eq (hf : Follows source source' w) (hf' : Follows source' source w) :
    (exec (loadFrom source') w).1 =
      (exec (loadFrom source) w).1.mapError (·.withPath (source' / fileName)) := by
  obtain ⟨_, hl⟩ := Build.exec_loadFrom source w
  obtain ⟨_, hl'⟩ := Build.exec_loadFrom source' w
  rw [hl, hl']
  by_cases hi : Disk.isFile (source / fileName) w
  case pos =>
    rw [if_pos hi, if_pos (h.isFile_of_isFile h' hf hi)]
    exact load_congr (h.find_file_eq h' hf hi)
  case neg =>
    rw [if_neg hi, if_neg (hi ∘ h'.isFile_of_isFile h hf')]
    rfl

end Located

end SiteConfig

namespace Build

open SiteConfig (Located Follows)

-- The same failure, if it is one of the configuration of a file at another path.
def Error.withConfig (p : Path) : Error → Error
  | .config x => .config (x.withPath p)
  | e => e

variable {source source' output output' p : Path} {src out : Location} {w : World} {s : Session}
  {config : SiteConfig} {e e' : Error}

theorem Error.withConfig_eq_iff (h : ∀ x, e' ≠ .config x) : e.withConfig p = e' ↔ e = e' := by
  cases e
  case config x => exact iff_of_false (Ne.symm (h _)) (Ne.symm (h x))
  all_goals rfl

theorem ignoresLog_visit {isDirectory : Bool} {r : Report} :
    IgnoresLog (visit s p isDirectory r) := by
  unfold visit
  split
  · exact (IgnoresLog.record _ _).bind fun _ => .pure _
  · exact ignoresLog_perform.bind fun _ => .pure _

theorem ignoresLog_run : IgnoresLog (run s) := by
  refine ignoresLog_makeDirectory.bind fun _ => ?_
  refine IgnoresLog.bind (Walk.ignoresLog_run fun _ _ _ => ignoresLog_visit) fun r => ?_
  exact (IgnoresLog.record _ _).bind fun _ => .pure r

-- What a build does whose directories are there. But for the configuration, it does not see how
-- they are written.
theorem exec_site_of_find {x : Entry} (hs : w.files.find w.directory source = .ok (src, x))
    (ho : w.files.find w.directory output = .ok (out, .directory)) :
    ∃ log, exec (site source output) w = match (exec (SiteConfig.loadFrom source) w).1 with
      | .error x => (.error (.config x), { w with log })
      | .ok config =>
        if src = out then (.error (.outputIsSource src.toPath), { w with log })
        else exec (run (.ofConfig src.toPath out.toPath config)) { w with log } := by
  rw [site_eq_prepare_run]
  rcases exec_prepare_cases source output w with ⟨config, k, hfound⟩ | ⟨e, log, he, hx⟩
  case inr =>
    rcases hx with ⟨x, hl, rfl⟩ | ⟨x, hf, -⟩
    case inl => exact ⟨log, by rw [exec_bind_of_error he, hl]⟩
    case inr => simp [hs] at hf
  case inl =>
    obtain ⟨log, hp⟩ := hfound.exec_prepare output
    obtain ⟨e, he⟩ := hfound.find
    obtain ⟨rfl, -⟩ : src = k ∧ x = e := by simpa [hs] using he
    have hsrc := (isStraight_of_find hs).isPlain
    have hout := (isStraight_of_find ho).isPlain
    have hm : exec (Disk.makeDirectories output) { w with log } = (.ok (), { w with log }) :=
      Disk.makeDirectories_of_find ho
    refine ⟨log, ?_⟩
    rw [exec_bind, hp, exec_settle, hm, hfound.load]
    dsimp only [settled]
    rw [ho]
    by_cases he : src = out
    case pos => simp [he, Path.same_refl]
    case neg => simp [he, hsrc.same_toPath_iff hout]

-- Once a build works on the source, it does not fail for its configuration.
theorem mapError_withConfig_run :
    (exec (run s) w).1.mapError (·.withConfig p) = (exec (run s) w).1 := by
  rcases hr : exec (run s) w with ⟨e | r, u⟩
  case ok => rfl
  case error =>
    have hn := throws_run _ _ _ hr
    have he : e.withConfig p = e := by
      refine (Error.withConfig_eq_iff ?_).mpr rfl
      rintro x rfl
      exact hn trivial
    exact congrArg Except.error he

theorem exec_site_of_same (hs : Located source w src) (hs' : Located source' w src)
    (ho : w.files.find w.directory output = .ok (out, .directory))
    (ho' : w.files.find w.directory output' = .ok (out, .directory))
    (hf : Follows source source' w) (hf' : Follows source' source w) :
    (exec (site source' output') w).2.files = (exec (site source output) w).2.files ∧
      (exec (site source' output') w).1 = (exec (site source output) w).1.mapError
        (·.withConfig (source' / SiteConfig.fileName)) := by
  obtain ⟨log, hx⟩ := exec_site_of_find hs.find_eq ho
  obtain ⟨log', hx'⟩ := exec_site_of_find hs'.find_eq ho'
  rw [hx, hx', hs.exec_loadFrom_eq hs' hf hf']
  rcases (exec (SiteConfig.loadFrom source) w).1 with x | config
  case error => exact ⟨rfl, rfl⟩
  case ok =>
    simp only [Except.mapError]
    split
    case isTrue => exact ⟨rfl, rfl⟩
    case isFalse =>
      have hi : IgnoresLog (run (.ofConfig src.toPath out.toPath config)) := ignoresLog_run
      obtain ⟨_, hr⟩ := hi w log
      obtain ⟨_, hr'⟩ := hi w log'
      rw [hr, hr']
      exact ⟨rfl, mapError_withConfig_run.symm⟩

-- Builds do the same where their directories are the same, however these are written: they succeed
-- with the same report or fail in the same way, and leave the same. Only a failure of the
-- configuration tells under which path that was looked for.
theorem site_of_same_directories (hs : Located source w src) (hs' : Located source' w src)
    (ho : w.files.find w.directory output = .ok (out, .directory))
    (ho' : w.files.find w.directory output' = .ok (out, .directory))
    (hf : Follows source source' w) (hf' : Follows source' source w) :
    (exec (site source' output') w).2.files = (exec (site source output) w).2.files ∧
      (exec (site source' output') w).1 = (exec (site source output) w).1.mapError
        (·.withConfig (source' / SiteConfig.fileName)) ∧
      (∀ e, (∀ x, e ≠ .config x) →
        ((exec (site source' output') w).1 = .error e ↔ (exec (site source output) w).1 = .error e)) ∧
      ∀ config, (exec (SiteConfig.loadFrom source) w).1 = .ok config →
        ((∃ q, (exec (site source output) w).1 = .error (.outputIsSource q)) ↔ src = out) := by
  obtain ⟨hfiles, hresult⟩ := exec_site_of_same hs hs' ho ho' hf hf'
  refine ⟨hfiles, hresult, fun e he => ?_, fun config hc => ?_⟩
  · rw [hresult]
    rcases (exec (site source output) w).1 with e' | r
    case ok => simp [Except.mapError]
    case error => simpa [Except.mapError] using Error.withConfig_eq_iff he
  · obtain ⟨log, hx⟩ := exec_site_of_find hs.find_eq ho
    rw [hx, hc]
    by_cases heq : src = out
    case pos => simp [heq]
    case neg =>
      dsimp only
      rw [if_neg heq]
      refine iff_of_false ?_ heq
      rintro ⟨q, hq⟩
      exact throws_run _ _ _ (Prod.ext hq rfl) trivial

-- A path over twenty links that lead back to where they are.
def overLinks (name : String) : Path :=
  ⟨"/".intercalate (List.replicate 20 "l" ++ [name])⟩

-- A source whose configuration is behind twenty-one links.
def farConfig : World where
  files := ((((FileSystem.empty.put [] "s" .directory).put [] "o" .directory).put [] "l"
    (.link ".")).put [] "c" (.file ⟨#[255]⟩)).put ["s"] "config.yaml" (.link (".." / overLinks "c"))
  directory := []
  log := []

theorem farConfig_sites_differ :
    Located "s" farConfig ["s"] ∧ Located (overLinks "s") farConfig ["s"] ∧
      farConfig.files.find farConfig.directory "o" = .ok (["o"], .directory) ∧
      (exec (site "s" "o") farConfig).1 = .error (.config (.io "s/config.yaml" .invalidData)) ∧
      (exec (site (overLinks "s") "o") farConfig).1 = .ok {} := by
  have hs : Located "s" farConfig ["s"] := ⟨by decide +kernel, by decide +kernel⟩
  have hd : Located (overLinks "s") farConfig ["s"] := ⟨by decide +kernel, by decide +kernel⟩
  exact ⟨hs, hd, by decide +kernel⟩

-- A source with a configuration and a file in it, and a link to the source.
def linkedSite : World where
  files := ((((FileSystem.empty.put [] "s" .directory).put ["s"] "config.yaml"
    (.file "a: b".toUTF8)).put ["s"] "x" (.file "c".toUTF8)).put [] "l" (.link "s")).put [] "o"
    .directory
  directory := []
  log := []

theorem linkedSite_site_of_same_directories :
    Located "s" linkedSite ["s"] ∧ Located "l/." linkedSite ["s"] ∧
      linkedSite.files.find linkedSite.directory "o" = .ok (["o"], .directory) ∧
      linkedSite.files.find linkedSite.directory "./o//" = .ok (["o"], .directory) ∧
      Follows "s" "l/." linkedSite ∧ Follows "l/." "s" linkedSite ∧
      (exec (site "s" "o") linkedSite).1 = .ok { files := 1 } ∧
      (exec (site "l/." "./o//") linkedSite).2.files = (exec (site "s" "o") linkedSite).2.files ∧
      (exec (site "l/." "./o//") linkedSite).1 = (exec (site "s" "o") linkedSite).1.mapError
        (·.withConfig ("l/." / SiteConfig.fileName)) ∧
      (∀ e, (∀ x, e ≠ .config x) → ((exec (site "l/." "./o//") linkedSite).1 = .error e ↔
        (exec (site "s" "o") linkedSite).1 = .error e)) ∧
      ∀ config, (exec (SiteConfig.loadFrom "s") linkedSite).1 = .ok config →
        ((∃ q, (exec (site "s" "o") linkedSite).1 = .error (.outputIsSource q)) ↔
          ["s"] = ["o"]) := by
  have hs : Located "s" linkedSite ["s"] := ⟨by decide +kernel, by decide +kernel⟩
  have hl : Located "l/." linkedSite ["s"] := ⟨by decide +kernel, by decide +kernel⟩
  have ho : linkedSite.files.find linkedSite.directory "o" = .ok (["o"], .directory) := by
    decide +kernel
  have ho' : linkedSite.files.find linkedSite.directory "./o//" = .ok (["o"], .directory) := by
    decide +kernel
  have hf : Follows "s" "l/." linkedSite := fun _ => by decide +kernel
  have hf' : Follows "l/." "s" linkedSite := fun _ => by decide +kernel
  exact ⟨hs, hl, ho, ho', hf, hf', by decide +kernel,
    site_of_same_directories hs hl ho ho' hf hf'⟩

end Build

end StaticSite
