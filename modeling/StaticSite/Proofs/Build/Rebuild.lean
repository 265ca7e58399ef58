import StaticSite.Proofs.Build.Collision
import StaticSite.Proofs.Build.Repeat
/-!
Building a site twice. Main statement: the second build ends as the first one has, and changes no
file (`rebuild_idempotent`).
-/
namespace StaticSite.Build

open FileSystem Action Location Walk Extension

variable {s : Session} {src out l dir : Location} {name : String} {w v w₁ : World} {t : Report}
  {isDirectory : Bool} {x : Location × Entry} {source output : Path}

-- The part of the output that an entry stands for is made again.
theorem repeats_part (h : Begun s src out w₁) (hr : IsStraight (dir ++ [name]))
    (hn : ¬IsWithin out (src ++ (dir ++ [name]))) (ha : s.layouts.isAbsolute)
    (hl : ¬out <+: s.layouts.location) :
    Repeats out w₁ (part s (src ++ (dir ++ [name])).toPath
      (out ++ target (dir ++ [name])).toPath isDirectory (isContentName name)) := by
  have hs : IsStraight (src ++ (dir ++ [name])) := h.between.straight_source.append hr
  have hd : IsStraight (out ++ dir) := h.between.straight_output.append hr.of_append.1
  have hname : Path.IsStep (outputName name) := isStep_outputName (hr.isPlain name (by simp))
  have hT : IsPlain (out ++ dir ++ [outputName name]) := hd.isPlain.concat hname
  have he : out ++ (dir ++ [outputName name]) = out ++ dir ++ [outputName name] := by simp
  have hparent : Repeats out w₁ (Disk.makeDirectories (out ++ dir).toPath) :=
    .makeDirectories h.get?_output hd.isPlain (hd.of_prefix (List.dropLast_prefix _))
  rw [target_concat, ← List.append_assoc out dir]
  cases isDirectory
  case true =>
    have hm : Repeats out w₁ (Disk.makeDirectories (out ++ (dir ++ [outputName name])).toPath) :=
      .makeDirectories h.get?_output (he ▸ hT) (by rw [he]; simpa using hd)
    rw [part_directory]
    exact he ▸ hm.orElseThrow
  case false =>
    cases isContentName name
    case true =>
      rw [part_page hT]
      apply Repeats.orElseThrow
      refine Repeats.bind (.of_reads Compile.reads_file ?_) fun document => ?_
      · rintro q (rfl | hq)
        case inl => exact ⟨isAbsolute_toPath, by rwa [hs.location_toPath]⟩
        case inr =>
          obtain ⟨hq, n, he⟩ := hq.location ha
          exact ⟨hq, he ▸ Begun.not_isWithin_concat hl⟩
      · exact hparent.orElseThrow.bind fun _ => (Repeats.write (by simp) he hd hname).orElseThrow
    case false =>
      rw [part_copy hT]
      exact hparent.orElseThrow.bind fun _ =>
        (Repeats.copy h.linkless (by simp) he hd hname hs hn).orElseThrow

theorem repeats_perform (h : Begun s src out w₁) (hr : IsStraight (dir ++ [name]))
    (hn : ¬IsWithin out (src ++ (dir ++ [name]))) (ha : s.layouts.isAbsolute)
    (hl : ¬out <+: s.layouts.location) :
    Repeats out w₁ (perform s (src ++ (dir ++ [name])).toPath isDirectory t) := by
  obtain ⟨level, message, hp⟩ : ∃ level message, perform s _ isDirectory t = _ :=
    perform_toPath h.between hr
  rw [hp]
  exact (Repeats.record level message).bind fun _ =>
    (repeats_part h hr hn ha hl).bind fun _ => .pure _

theorem repeats_look (h : Begun s src out w₁) (hl : Begun.IsOpen src out w₁ l) :
    Repeats out w₁ (look Error.walk l.toPath) :=
  .of_const fun _ hw => h.steady_visit.exec_look hl hw

theorem repeats_step (h : Begun s src out w₁) (ha : s.layouts.isAbsolute)
    (hl : ¬out <+: s.layouts.location) (hx : x ∈ entries s src w₁.files) :
    Repeats out w₁ (step s t x) := by
  obtain ⟨k, e⟩ := x
  have hn := h.not_prefix_of_mem_entries hx
  obtain ⟨dir, name, rfl, hr, hg⟩ := exists_of_mem_entries hx
  refine (repeats_perform h hr (fun hw => hn hw.1) ha hl).bind fun t => ?_
  split
  case isFalse => exact .pure t
  case isTrue he =>
    have ho := repeats_look h ⟨List.prefix_append _ _, hn, he ▸ hg⟩
    exact ho.bind fun _ => .pure t

theorem repeats_steps (h : Begun s src out w₁) (hs : w₁.files.get? src = some .directory)
    (ha : s.layouts.isAbsolute) (hl : ¬out <+: s.layouts.location) :
    Repeats out w₁ (steps s (entries s src w₁.files)) := by
  have hlook := repeats_look h ⟨List.prefix_refl src, h.outside, hs⟩
  rw [steps, h.between.source]
  exact hlook.bind fun _ => .foldlM (fun x hx t => repeats_step h ha hl hx) {}

-- A source that is a file holds nothing to go over.
theorem exec_walk_of_file {c : ByteArray} (h : w.files.get? src = some (.file c)) :
    exec (Walk.run .walk (visit s) src.toPath {}) w =
      ((checkPath src.toPath).map (fun _ => {}) |>.mapError fun e => .walk (.io src.toPath e),
        w) := by
  have hr : w.files.resolve w.directory false src.toPath = _ := resolve_toPath_eq_map h (by simp)
  rw [Walk.run, exec_bind_of_ok (exec_get w), start, hr]
  cases checkPath src.toPath <;> rfl

theorem repeats_run (h : Begun s src out w₁) {e : Entry} (hs : w₁.files.get? src = some e)
    (ha : s.layouts.isAbsolute) (hl : ¬out <+: s.layouts.location) : Repeats out w₁ (run s) := by
  have ho := h.between.straight_output
  have hm : Repeats out w₁ (Disk.makeDirectories (out ++ []).toPath) := by
    refine .makeDirectories h.get?_output ?_ ?_ <;> rw [List.append_nil]
    · exact ho.isPlain
    · exact ho.of_prefix (List.dropLast_prefix _)
  rw [List.append_nil, ← h.between.output] at hm
  have hw : Repeats out w₁ (Walk.run .walk (visit s) s.source {}) := by
    cases e
    case directory => exact (repeats_steps h hs ha hl).of_log fun w => h.exec_walk_eq_steps hs
    case file c =>
      rw [h.between.source]
      refine .of_const fun w hw => exec_walk_of_file (c := c) ?_
      exact (hw.get?_eq fun hw => h.outside hw.1).trans hs
    case link => exact absurd hs (h.linkless _ _)
  exact hm.orElseThrow.bind fun _ => hw.bind fun _ => (Repeats.record _ _).bind fun _ => .pure _

-- A build that is run once more where there are no links, with the source and the layouts outside
-- of its output, gives the same and changes no file. Only the way to an output that leads up again
-- may fail in another way, as parts of it have come to be.
theorem rebuild_idempotent {x x' : Except Error Report} {u u' : World} (hf : w.files.Linkless)
    (ho : ∀ s w₁, exec (prepare source output) w = (.ok s, w₁) →
      ¬s.output.steps <+: s.source.steps ∧ ¬s.output.steps <+: s.layouts.location)
    (hx : exec (site source output) w = (x, u)) (hx' : exec (site source output) u = (x', u')) :
    u'.files = u.files ∧ (x' = x ∨ x = .error (.makeDirectory output .alreadyExists) ∧
      x' = .error (.makeDirectory output .notADirectory) ∧
        ∃ q, output.parent? = some q ∧ ".." ∈ q.pieces) := by
  rw [site_eq_prepare_run] at hx hx'
  rcases hp : exec (prepare source output) w with ⟨e | s, w₁⟩
  case error =>
    obtain ⟨rfl, rfl⟩ := Prod.ext_iff.mp ((exec_bind_of_error hp).symm.trans hx)
    obtain ⟨e', log, hagain, hcases⟩ := exec_prepare_again hf hp
    obtain ⟨rfl, rfl⟩ := Prod.ext_iff.mp ((exec_bind_of_error hagain).symm.trans hx')
    refine ⟨rfl, hcases.imp (fun h => by rw [h]) ?_⟩
    rintro ⟨rfl, rfl, hq⟩
    exact ⟨rfl, rfl, hq⟩
  case ok =>
    obtain ⟨hsrc, hlayouts⟩ := ho s w₁ hp
    have h := begun_of_prepare_eq_ok hf hp hsrc
    obtain ⟨e, hs, -⟩ := get?_source_of_prepare_eq_ok hp
    have hrun := repeats_run h hs (isAbsolute_layouts_of_prepare_eq_ok hp) hlayouts
    rw [exec_bind_of_ok hp] at hx
    obtain ⟨hu, hg⟩ := hrun.keeps.of_exec hx (.refl h.linkless)
    obtain ⟨log, hagain⟩ := exec_prepare_of_grows hf hu.linkless hp hg
      (hu.get?_eq (Begun.not_isWithin_concat hsrc))
    have hr : Rerun s.output.steps w₁ w₁ { u with log } u :=
      .of_last (.refl h.linkless) hu hg rfl rfl
    obtain ⟨v, hv, hfiles⟩ := hrun.again hr hx
    obtain ⟨rfl, rfl⟩ := Prod.ext_iff.mp (hv.symm.trans ((exec_bind_of_ok hagain).symm.trans hx'))
    exact ⟨hfiles, .inl rfl⟩

theorem pageInSource_rebuild_idempotent :
    ∃ report u v, exec (site "s" "o") pageInSource = (.ok report, u) ∧
      exec (site "s" "o") u = (.ok report, v) ∧ v.files = u.files := by
  obtain ⟨s, w₁, hp, hn⟩ : ∃ s w₁, exec (prepare "s" "o") pageInSource = (.ok s, w₁) ∧
      (¬s.output.steps <+: s.source.steps ∧ ¬s.output.steps <+: s.layouts.location) := by
    decide +kernel
  obtain ⟨report, u, hu, -⟩ :
      ∃ report u, exec (site "s" "o") pageInSource = (.ok report, u) ∧ True := by
    decide +kernel
  have ho (s' w') (h : exec (prepare "s" "o") pageInSource = (.ok s', w')) :
      ¬s'.output.steps <+: s'.source.steps ∧ ¬s'.output.steps <+: s'.layouts.location := by
    obtain ⟨rfl, rfl⟩ : s = s' ∧ w₁ = w' := by simpa [hp] using h
    exact hn
  rcases hv : exec (site "s" "o") u with ⟨y, v⟩
  obtain ⟨hfiles, hsame⟩ := rebuild_idempotent pageInSource_linkless ho hu hv
  obtain rfl : y = .ok report := by simpa using hsame
  exact ⟨report, u, v, hu, hv, hfiles⟩

-- The way to the output leads through a directory that is missing, and up again to a file.
def detour : World where
  files := (FileSystem.empty.put [] "s" .directory).put [] "f" (.file "a".toUTF8)
  directory := []
  log := []

theorem detour_not_idempotent :
    detour.files.Linkless ∧ ¬Path.location "m/../f/x" <+: Path.location "s" ∧
      ¬Path.location "m/../f/x" <+: Path.location "s/layouts" ∧
      (exec (site "s" "m/../f/x") detour).1 =
        .error (.makeDirectory "m/../f/x" .alreadyExists) ∧
      (exec (site "s" "m/../f/x") (exec (site "s" "m/../f/x") detour).2).1 =
        .error (.makeDirectory "m/../f/x" .notADirectory) ∧
      (exec (site "s" "m/../f/x") (exec (site "s" "m/../f/x") detour).2).1 ≠
        (exec (site "s" "m/../f/x") detour).1 :=
  ⟨(Linkless.empty.put (by simp)).put (by simp), by decide +kernel⟩

end StaticSite.Build
