import StaticSite.Build
import StaticSite.Proofs.Build.Compile
import StaticSite.Proofs.Build.Output
import StaticSite.Proofs.Disk.Canonical
/-!
What a build does for one entry of the source, where there are no links. Main statement: it makes
directories on the way to the place of the entry in the output, and writes at most one file, there
(`outcome_perform`).
-/
namespace StaticSite

open FileSystem Action Location Extension

-- The session works from the directory at one location into that at another.
structure Session.Between (s : Session) (src out : Location) : Prop where
  source : s.source = src.toPath
  output : s.output = out.toPath
  ne : src ≠ out
  straight_source : src.IsStraight
  straight_output : out.IsStraight

namespace Session.Between

variable {s : Session} {src out dir : Location} {name : String}

theorem source_div (hb : s.Between src out) (hs : IsStraight (dir ++ [name])) :
    s.source / toRelative (dir ++ [name]) = toPath (src ++ (dir ++ [name])) := by
  rw [hb.source, hb.straight_source.isPlain.toPath_div hs.isPlain (by simp)]

theorem output_div (hb : s.Between src out) (hs : IsStraight (dir ++ [name])) :
    s.output / toRelative (target (dir ++ [name])) = toPath (out ++ target (dir ++ [name])) := by
  rw [hb.output, hb.straight_output.isPlain.toPath_div (isPlain_target hs.isPlain) (by simp)]

end Session.Between

namespace Build

def Report.count (r : Report) (isDirectory isContent : Bool) : Report :=
  if isDirectory then { r with directories := r.directories + 1 }
  else if isContent then { r with pages := r.pages + 1 }
  else { r with files := r.files + 1 }

-- The part of the output that an entry of the source stands for.
def part (s : Session) (p target : Path) (isDirectory isContent : Bool) : Action Error Unit :=
  if isDirectory then makeDirectory target
  else if isContent then (Compile.write s p target).orElseThrow (.compile p)
  else copy p target

-- The contents of the file that a file of the source stands for.
def contents? (s : Session) (p : Path) (w : World) : Option ByteArray :=
  if isContent p then (exec (Compile.file s p) w).1.toOption.map String.toUTF8
  else match w.files.find w.directory p with
    | .ok (_, .file contents) => some contents
    | _ => none

-- How work on an entry that goes to `l` can end.
inductive Outcome {ε α : Type} (l : Location) (isDirectory : Bool) (contents : Option ByteArray)
    (w : World) : Except ε α × World → Prop
  | failed {e v} (h : w.AddsDirectories (· <+: l) v) :
    Outcome l isDirectory contents w (.error e, v)
  | directory {a v} (hd : isDirectory = true) (h : w.AddsDirectories (· <+: l) v) :
    Outcome l isDirectory contents w (.ok a, v)
  | file {a v dir name c} (hd : isDirectory = false) (hl : l = dir ++ [name])
    (hc : contents = some c) (h : w.AddsDirectories (· <+: l) v)
    (hw : v.files.Writable dir name) :
    Outcome l isDirectory contents w (.ok a, v.put dir name (.file c))

variable {s : Session} {src out dir : Location} {name : String} {w : World} {r r' : Report}
  {isDirectory : Bool}

theorem keeps_makeDirectory {p : Path} :
    Keeps (World.AddsDirectories fun _ => True) (makeDirectory p) :=
  Disk.keeps_makeDirectories.orElseThrow

-- Whatever making directories and writing the file of an entry keep, work on the entry keeps.
theorem keeps_part {R : World → World → Prop} [Std.Refl R] [IsTrans World R] {p target : Path}
    {isContent : Bool} (hd : Keeps R (Disk.makeDirectories target))
    (hq : ∀ q, target.parent? = some q → Keeps R (Disk.makeDirectories q))
    (hw : ∀ document, Keeps R (Disk.writeText target document))
    (hc : Keeps R (Disk.copy p target)) : Keeps R (part s p target isDirectory isContent) := by
  unfold part
  split
  case isTrue => exact hd.orElseThrow
  case isFalse =>
    split
    case isTrue =>
      refine Keeps.orElseThrow (Compile.reads_file.keeps.bind fun document => ?_)
      split
      case h_1 q h => exact (hq q h).orElseThrow.bind fun _ => (hw document).orElseThrow
      case h_2 => exact (hw document).orElseThrow
    case isFalse =>
      unfold copy
      split
      case h_1 q h => exact (hq q h).orElseThrow.bind fun _ => hc.orElseThrow
      case h_2 => exact hc.orElseThrow

section

variable {p : Path}

theorem part_directory {q : Path} {isContent : Bool} :
    part s p q true isContent = makeDirectory q :=
  if_pos rfl

-- For a page or a copy, the directory that it goes into is made first.
theorem part_page (hl : IsPlain (dir ++ [name])) :
    part s p (dir ++ [name]).toPath false true = Action.orElseThrow (do
      let document ← Compile.file s p
      (Disk.makeDirectories dir.toPath).orElseThrow .io
      (Disk.writeText (dir ++ [name]).toPath document).orElseThrow .io) (.compile p) := by
  simp only [part, Compile.write, hl.parent?_toPath, Bool.false_eq_true, if_false, if_true]

theorem part_copy (hl : IsPlain (dir ++ [name])) :
    part s p (dir ++ [name]).toPath false false = (do
      makeDirectory dir.toPath
      (Disk.copy p (dir ++ [name]).toPath).orElseThrow (.copy p (dir ++ [name]).toPath)) := by
  simp only [part, copy, hl.parent?_toPath, Bool.false_eq_true, if_false]

end

-- Where the part of the output goes that an entry of the source stands for.
def destination? (s : Session) (p : Path) : Option Path :=
  (p.stripPrefix? s.source).map s.outputPath

-- The source and the output may be written in any way.
theorem destination?_below (hs : IsStraight (dir ++ [name])) :
    destination? s (s.source / toRelative (dir ++ [name])) =
      some (s.output / toRelative (target (dir ++ [name]))) := by
  rw [destination?, Path.stripPrefix?_below hs.isPlain (by simp), Option.map_some,
    Session.outputPath_below hs]

theorem perform_eq_none {p : Path} (h : p.stripPrefix? s.source = none) :
    perform s p isDirectory r = pure r := by
  rw [perform, h]

-- Work on an entry below the source is logged, done, and counted.
theorem perform_eq {p relative : Path} (h : p.stripPrefix? s.source = some relative) :
    ∃ level message, perform s p isDirectory r = do
      record level message
      part s p (s.outputPath relative) isDirectory (isContent relative)
      return r.count isDirectory (isContent relative) := by
  rw [perform, h]
  cases isDirectory <;> cases hc : isContent relative <;> simp only [hc] <;> exact ⟨_, _, rfl⟩

theorem perform_below (hs : IsStraight (dir ++ [name])) :
    ∃ level message, perform s (s.source / toRelative (dir ++ [name])) isDirectory r = do
      record level message
      part s (s.source / toRelative (dir ++ [name]))
        (s.output / toRelative (target (dir ++ [name]))) isDirectory (isContentName name)
      return r.count isDirectory (isContentName name) := by
  rw [← isContent_toRelative hs, ← Session.outputPath_below hs]
  exact perform_eq (Path.stripPrefix?_below hs.isPlain (by simp))

theorem destination?_toPath (hb : s.Between src out) (hs : IsStraight (dir ++ [name])) :
    destination? s (src ++ (dir ++ [name])).toPath =
      some (out ++ target (dir ++ [name])).toPath := by
  rw [← hb.source_div hs, ← hb.output_div hs, destination?_below hs]

theorem perform_toPath (hb : s.Between src out) (hs : IsStraight (dir ++ [name])) :
    ∃ level message, perform s (src ++ (dir ++ [name])).toPath isDirectory r = do
      record level message
      part s (src ++ (dir ++ [name])).toPath (out ++ target (dir ++ [name])).toPath isDirectory
        (isContentName name)
      return r.count isDirectory (isContentName name) := by
  rw [← hb.source_div hs, ← hb.output_div hs]
  exact perform_below hs

theorem Outcome.orElseThrow {ε δ α : Type} {l : Location} {contents : Option ByteArray}
    {x : Action δ α} {tell : δ → ε} (h : Outcome l isDirectory contents w (exec x w)) :
    Outcome l isDirectory contents w (exec (x.orElseThrow tell) w) := by
  rw [exec_orElseThrow]
  generalize exec x w = y at h
  cases h
  case failed h => exact .failed h
  case directory hd h => exact .directory hd h
  case file hd hl hc h hw => exact .file hd hl hc h hw

-- Directories are made up to the one that a file is written into.
theorem outcome_file {ε : Type} {make put : Action ε Unit} {contents : Option ByteArray}
    (hf : w.files.Linkless)
    (hm : Keeps (Disk.AddsDirectoriesIfLinkless (· <+: dir ++ [name])) make)
    (hp : ∀ u, w.AddsDirectories (· <+: dir ++ [name]) u → (∃ e, exec put u = (.error e, u)) ∨
      u.files.Writable dir name ∧
        ∃ c, contents = some c ∧ exec put u = (.ok (), u.put dir name (.file c))) :
    Outcome (dir ++ [name]) false contents w (exec (make >>= fun _ => put) w) := by
  have ha := hm w hf
  rw [exec_bind]
  rcases hx : exec make w with ⟨e | _, u⟩ <;> rw [hx] at ha
  case error => exact .failed ha
  case ok =>
    dsimp only at ha ⊢
    rcases hp u ha with ⟨e, he⟩ | ⟨hw, c, hc, he⟩ <;> rw [he]
    case inl => exact .failed ha
    case inr => exact .file rfl rfl hc ha hw

-- A directory that a file is put into is made on the way to the file.
theorem keeps_makeDirectories_of_concat (hd : dir.IsStraight) :
    Keeps (Disk.AddsDirectoriesIfLinkless (· <+: dir ++ [name]))
      (Disk.makeDirectories dir.toPath) := by
  refine (Disk.keeps_makeDirectories_toPath hd.isPlain ?_).mono fun h hf => ?_
  · exact hd.of_prefix (List.dropLast_prefix _)
  · exact ⟨(h hf).1.mono fun _ hl => hl.trans (List.prefix_append _ _), (h hf).2⟩

section

variable {p : Path} (hf : w.files.Linkless) (hd : dir.IsStraight) (hn : Path.IsStep name)

include hf hd hn

theorem outcome_part_directory {contents : Option ByteArray} {isContent : Bool} :
    Outcome (dir ++ [name]) true contents w
      (exec (part s p (dir ++ [name]).toPath true isContent) w) := by
  have hk : Keeps (Disk.AddsDirectoriesIfLinkless (· <+: dir ++ [name]))
      (makeDirectory (dir ++ [name]).toPath) :=
    (Disk.keeps_makeDirectories_toPath (hd.isPlain.concat hn) (by simpa using hd)).orElseThrow
  have hk := hk w hf
  rw [part_directory]
  rcases hx : exec _ w with ⟨e | _, u⟩ <;> rw [hx] at hk
  case error => exact .failed hk
  case ok => exact .directory rfl hk

theorem outcome_part_page (hi : isContent p = true) :
    Outcome (dir ++ [name]) false (contents? s p w) w
      (exec (part s p (dir ++ [name]).toPath false true) w) := by
  rw [part_page (hd.isPlain.concat hn), contents?, if_pos hi]
  apply Outcome.orElseThrow
  have hr : Reads _ (Compile.file s p) := Compile.reads_file
  rcases hr.exec_cases w with ⟨e, hx⟩ | ⟨text, hx⟩
  case inl =>
    rw [exec_bind_of_error hx]
    exact .failed (Std.Refl.refl _)
  case inr =>
    rw [exec_bind_of_ok hx, hx]
    apply outcome_file hf (keeps_makeDirectories_of_concat hd).orElseThrow
    intro v hv
    have hv' := hv.1.linkless hf
    rcases Disk.write_toPath_cases hv' hd hn text.toUTF8 with ⟨e, he⟩ | hw
    case inl => exact .inl ⟨_, exec_orElseThrow_of_error he⟩
    case inr =>
      exact .inr ⟨hw, text.toUTF8, rfl, exec_orElseThrow_of_ok (Disk.write_toPath hv' hw _)⟩

theorem outcome_part_copy (hs : src.IsStraight) (hi : isContent src.toPath = false)
    (hne : src ≠ dir ++ [name]) :
    Outcome (dir ++ [name]) false (contents? s src.toPath w) w
      (exec (part s src.toPath (dir ++ [name]).toPath false false) w) := by
  rw [part_copy (hd.isPlain.concat hn)]
  apply outcome_file hf (keeps_makeDirectories_of_concat hd).orElseThrow
  intro u hu
  have hu' := hu.1.linkless hf
  rcases Disk.copy_toPath_cases hu' hd hn src.toPath with ⟨e, he⟩ | ⟨hw, k, old, hk⟩
  case inl => exact .inl ⟨_, exec_orElseThrow_of_error he⟩
  case inr =>
    -- the source has been there before the directories were made
    have hk' := hf.find_file_of_addsDirectories hu.1 hs (hu.2 ▸ hk)
    have hks : k ≠ dir ++ [name] := (hu'.find_toPath hs hk).1 ▸ hne
    refine .inr ⟨hw, old, by simp [contents?, hi, hk'], ?_⟩
    exact exec_orElseThrow_of_ok (Disk.copy_toPath hu' hw hk hks)

end

theorem outcome_part (hb : s.Between src out) (hs : IsStraight (dir ++ [name]))
    (hf : w.files.Linkless) :
    Outcome (out ++ target (dir ++ [name])) isDirectory
      (contents? s (src ++ (dir ++ [name])).toPath w) w
      (exec (part s (src ++ (dir ++ [name])).toPath (out ++ target (dir ++ [name])).toPath
        isDirectory (isContentName name)) w) := by
  have hd : IsStraight (out ++ dir) := hb.straight_output.append hs.of_append.1
  have hn : Path.IsStep (outputName name) := isStep_outputName (hs name (by simp)).1
  have hp : IsStraight (src ++ (dir ++ [name])) := hb.straight_source.append hs
  have hi : isContent (src ++ (dir ++ [name])).toPath = isContentName name := by
    rw [← List.append_assoc] at hp ⊢
    exact isContent_toPath hp
  rw [target_concat, ← List.append_assoc out dir]
  cases isDirectory
  case true => exact outcome_part_directory hf hd hn
  case false =>
    cases hc : isContentName name
    case true => exact outcome_part_page hf hd hn (hi.trans hc)
    case false =>
      refine outcome_part_copy hf hd hn hp (hi.trans hc) ?_
      rw [outputName_of_not_isContentName hc]
      simpa using hb.ne

theorem contents?_congr {p : Path} {v : World} (hf : v.files = w.files)
    (hd : v.directory = w.directory) : contents? s p v = contents? s p w := by
  have hc : (exec (Compile.file s p) v).1 = (exec (Compile.file s p) w).1 :=
    Compile.reads_file.congr v w fun q _ => by rw [hf, hd]
  rw [contents?, contents?, hc, hf, hd]

theorem Outcome.of_files {ε α : Type} {l : Location} {contents : Option ByteArray} {u : World}
    {x : Except ε α × World} (hf : u.files = w.files) (hd : u.directory = w.directory)
    (h : Outcome l isDirectory contents u x) : Outcome l isDirectory contents w x := by
  have ha {v} (h : u.AddsDirectories (· <+: l) v) : w.AddsDirectories (· <+: l) v :=
    ⟨hf ▸ h.1, h.2.trans hd⟩
  cases h
  case failed h => exact .failed (ha h)
  case directory hd h => exact .directory hd (ha h)
  case file hd hl hc h hw => exact .file hd hl hc (ha h) hw

theorem Outcome.andThen {ε α β : Type} {l : Location} {contents : Option ByteArray}
    {x : Action ε α} {b : β} (h : Outcome l isDirectory contents w (exec x w)) :
    Outcome l isDirectory contents w (exec (x >>= fun _ => pure b) w) := by
  rw [exec_bind]
  generalize exec x w = y at h
  cases h
  case failed h => exact .failed h
  case directory hd h => exact .directory hd h
  case file hd hl hc h hw => exact .file hd hl hc h hw

theorem outcome_perform (hb : s.Between src out) (hs : IsStraight (dir ++ [name]))
    (hf : w.files.Linkless) :
    Outcome (out ++ target (dir ++ [name])) isDirectory
      (contents? s (src ++ (dir ++ [name])).toPath w) w
      (exec (perform s (src ++ (dir ++ [name])).toPath isDirectory r) w) := by
  obtain ⟨level, message, hp⟩ : ∃ level message, perform s _ isDirectory r = _ :=
    perform_toPath hb hs
  rw [hp, exec_bind_of_ok (exec_record level message w)]
  let u : World := { w with log := w.log ++ [⟨level, message⟩] }
  have hc : contents? s (src ++ (dir ++ [name])).toPath u =
      contents? s (src ++ (dir ++ [name])).toPath w :=
    contents?_congr rfl rfl
  have hu : u.files.Linkless := hf
  rw [← hc]
  exact Outcome.of_files (u := u) rfl rfl (outcome_part hb hs hu).andThen

namespace Outcome

theorem map {ε α β : Type} {l : Location} {contents : Option ByteArray} {f : α → β}
    {x : Except ε α × World} (h : Outcome l isDirectory contents w x) :
    Outcome l isDirectory contents w (x.1.map f, x.2) := by
  cases h
  case failed h => exact .failed h
  case directory hd h => exact .directory hd h
  case file hd hl hc h hw => exact .file hd hl hc h hw

variable {ε α : Type} {l k : Location} {contents : Option ByteArray} {x : Except ε α × World}

theorem linkless (h : Outcome l isDirectory contents w x) (hf : w.files.Linkless) :
    x.2.files.Linkless := by
  cases h
  case failed h => exact h.1.linkless hf
  case directory h => exact h.1.linkless hf
  case file h _ => exact (h.1.linkless hf).put (by simp)

-- A file keeps its contents, or takes those of the entry that goes to its place.
theorem get?_file (h : Outcome l isDirectory contents w x) {c : ByteArray}
    (hk : w.files.get? k = some (.file c)) :
    x.2.files.get? k = some (.file
      ((if isDirectory = false ∧ x.1.isOk ∧ k = l then contents else none).getD c)) := by
  cases h
  case failed h => simpa [Except.isOk, Except.toBool] using h.1.get? hk
  case directory hd h => simpa [hd] using h.1.get? hk
  case file v dir name c' hd hl hc h hw =>
    show (v.files.put dir name _).get? k = _
    rw [get?_put hw.accepts, ← hl]
    by_cases hkl : k = l
    case pos => simp [hkl, hd, hc, Except.isOk, Except.toBool]
    case neg => simpa [hkl] using h.1.get? hk

-- When work on an entry has succeeded, there is one more file at most: that of the entry.
theorem isFile_iff (h : Outcome l isDirectory contents w x) (hx : x.1.isOk) :
    (∃ c, x.2.files.get? k = some (.file c)) ↔
      (∃ c, w.files.get? k = some (.file c)) ∨ isDirectory = false ∧ l = k := by
  have hadd {v : World} (h : w.AddsDirectories (· <+: l) v) :
      (∃ c, v.files.get? k = some (.file c)) ↔ ∃ c, w.files.get? k = some (.file c) :=
    exists_congr fun c => ⟨fun hc => h.1.of_get? hc (by simp), h.1.get?⟩
  cases h
  case failed => simp [Except.isOk, Except.toBool] at hx
  case directory v hd h => simpa [hd] using hadd h
  case file v dir name c hd hl hc h hw =>
    show (∃ c', (v.files.put dir name (.file c)).get? k = _) ↔ _
    rw [← hadd h, get?_put hw.accepts, ← hl]
    by_cases hk : k = l
    case pos => simp [hd, hk]
    case neg => simp [hk, Ne.symm hk]

end Outcome

-- What a successful build counts.
theorem exec_perform_below_eq_ok {u : World} {r' : Report} (hs : IsStraight (dir ++ [name]))
    (h : exec (perform s (s.source / toRelative (dir ++ [name])) isDirectory r) w = (.ok r', u)) :
    r' = r.count isDirectory (isContentName name) := by
  obtain ⟨level, message, hp⟩ : ∃ level message, perform s _ isDirectory r = _ := perform_below hs
  rw [hp, exec_bind_of_ok (exec_record level message w)] at h
  obtain ⟨_, _, -, h⟩ := exec_bind_eq_ok.mp h
  rw [exec_pure] at h
  simpa using (Prod.ext_iff.mp h).1.symm

end Build

end StaticSite
