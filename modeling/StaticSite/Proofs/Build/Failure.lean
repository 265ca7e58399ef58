import StaticSite.Proofs.Build.Prepare
import StaticSite.Proofs.Build.Processed
import StaticSite.Proofs.Walk.Effects
/-!
How a build fails once it works on the source. Main statements: it fails neither for its
configuration nor for the directories that it was given (`throws_run`), and a failure at an entry of
the source names that entry exactly if no directory of the output is what could not be made
(`path_of_failed_visit_iff`).
-/
namespace StaticSite.Build

open FileSystem Action Location Walk Extension

-- How work on the entry at `p` can fail, if it is to go to `target`.
inductive Fault (p target : Path) (isDirectory : Bool) : Error → Prop
  | directory {x} (hd : isDirectory = true) : Fault p target isDirectory (.makeDirectory target x)
  | parent {q x} (hd : isDirectory = false) (hq : target.parent? = some q) :
    Fault p target isDirectory (.makeDirectory q x)
  | compile {x} : Fault p target isDirectory (.compile p x)
  | copy {x} : Fault p target isDirectory (.copy p target x)

-- The build is refused: what it was given is wrong, before any work on the source.
def Error.IsRefusal : Error → Prop
  | .config _ | .io .. | .outputIsSource _ => True
  | _ => False

variable {s : Session} {source output p target : Path} {isDirectory : Bool} {r : Report}
  {w u w₁ : World} {e : Error} {v : Visit Report}

theorem throws_makeDirectory {P : Error → Prop} (h : ∀ x, P (.makeDirectory p x)) :
    Throws P (makeDirectory p) :=
  .orElseThrow h

theorem throws_copy : Throws (Fault p target false) (copy p target) := by
  have hc : Throws (Fault p target false) ((Disk.copy p target).orElseThrow (.copy p target)) :=
    .orElseThrow fun _ => .copy
  unfold copy
  split
  case h_1 q hq => exact (throws_makeDirectory fun _ => .parent rfl hq).bind fun _ => hc
  case h_2 => exact hc

theorem throws_part {isContent : Bool} :
    Throws (Fault p target isDirectory) (part s p target isDirectory isContent) := by
  cases isDirectory
  case true =>
    rw [part_directory]
    exact throws_makeDirectory fun _ => .directory rfl
  case false =>
    rw [part, if_neg (by simp)]
    split
    case isTrue => exact Throws.orElseThrow fun _ => .compile
    case isFalse => exact throws_copy

theorem throws_perform (h : destination? s p = some target) :
    Throws (Fault p target isDirectory) (perform s p isDirectory r) := by
  obtain ⟨relative, hr, rfl⟩ := Option.map_eq_some_iff.mp h
  obtain ⟨level, message, hp⟩ : ∃ level message, perform s p isDirectory r = _ := perform_eq hr
  exact hp ▸ Throws.record.bind fun _ => throws_part.bind fun _ => .pure _

theorem Fault.not_isRefusal (h : Fault p target isDirectory e) : ¬e.IsRefusal := by
  cases h <;> simp [Error.IsRefusal]

theorem throws_visit : Throws (¬ ·.IsRefusal) (visit s p isDirectory r) := by
  have hp : Throws (¬ ·.IsRefusal) (perform s p isDirectory r) := by
    cases h : destination? s p
    case none => exact perform_eq_none (Option.map_eq_none_iff.mp h) ▸ .pure r
    case some => exact (throws_perform h).mono fun _ => Fault.not_isRefusal
  unfold visit
  split
  · exact Throws.record.bind fun _ => .pure _
  · exact hp.bind fun _ => .pure _

theorem throws_run : Throws (¬ ·.IsRefusal) (run s) := by
  refine (throws_makeDirectory fun _ => by simp [Error.IsRefusal]).bind fun _ => ?_
  refine Throws.bind (Walk.throws_run (fun _ => by simp [Error.IsRefusal]) fun _ _ _ => ?_)
    fun _ => Throws.record.bind fun _ => .pure _
  exact throws_visit

-- The first entry that fails ends the build.
theorem exec_run_of_failed_visit (hv : v ∈ visits s w) (h : v.exec (visit s) = (.error e, u)) :
    exec (run s) w = (.error e, u) := by
  obtain ⟨t, hm, -⟩ := exists_of_mem_visits hv
  have hw := (course_run hm).eq_of_exec_eq_error hv h
  rw [run, exec_bind_of_ok hm]
  exact exec_bind_of_error hw

-- What is left out does not fail.
theorem exec_visit_eq_error (h : v.exec (visit s) = (.error e, u)) :
    s.isExcluded v.path = false ∧
      exec (perform s v.path v.isDirectory v.state) v.world = (.error e, u) := by
  unfold Visit.exec at h
  cases hx : s.isExcluded v.path
  case true =>
    obtain ⟨log, he⟩ := exec_visit_of_isExcluded hx
    rw [he] at h
    simp at h
  case false =>
    rw [exec_visit hx] at h
    rcases he : exec (perform s v.path v.isDirectory v.state) v.world with ⟨e' | _, u'⟩ <;>
      rw [he] at h
    case ok => simp [Except.map] at h
    case error => exact ⟨rfl, by simpa [Except.map] using h⟩

theorem fault_of_failed_visit (hd : destination? s v.path = some target)
    (h : v.exec (visit s) = (.error e, u)) : Fault v.path target v.isDirectory e :=
  throws_perform hd _ _ _ (exec_visit_eq_error h).2

-- An entry does not go where it stands, nor does it stand where a directory is made for it: that
-- would be the output itself, which is left out.
theorem Fault.path_eq_iff {src out dir : Location} {name : String} (hb : s.Between src out)
    (hs : IsStraight (dir ++ [name]))
    (hx : ∀ k, k <+: dir ++ [name] → k ≠ [] → src ++ k ≠ out)
    (h : Fault (src ++ (dir ++ [name])).toPath (out ++ Location.target (dir ++ [name])).toPath
      isDirectory e) :
    e.path = (src ++ (dir ++ [name])).toPath ↔ ∀ q x, e ≠ .makeDirectory q x := by
  have hp := hb.straight_source.isPlain.append hs.isPlain
  have ht := hb.straight_output.isPlain.append (isPlain_target hs.isPlain)
  cases h
  case compile => simp [Error.path]
  case copy => simp [Error.path]
  case directory x hd =>
    refine iff_of_false ?_ (by simp)
    rw [Error.path, ht.toPath_inj hp, target_concat, ← List.append_assoc, ← List.append_assoc]
    intro he
    have he := (List.append_inj' he rfl).1
    exact hb.ne (List.append_cancel_right he).symm
  case parent q x hd hq =>
    refine iff_of_false ?_ (by simp)
    rw [target_concat, ← List.append_assoc] at ht hq
    obtain rfl : (out ++ dir).toPath = q := Option.some.inj (ht.parent?_toPath.symm.trans hq)
    rw [Error.path, ht.of_append.1.toPath_inj hp]
    intro he
    -- the output is right in the source, on the way to the entry
    obtain ⟨m, rfl⟩ : src <+: out := by
      refine List.prefix_of_prefix_length_le (he ▸ List.prefix_append _ _)
        (List.prefix_append out dir) ?_
      have := congrArg List.length he
      simp only [List.length_append, List.length_singleton] at this
      omega
    rw [List.append_assoc, List.append_cancel_left_eq] at he
    refine hx m (he ▸ List.prefix_append _ _) ?_ rfl
    rintro rfl
    simp at he

-- A failure at an entry ends the build. It names the entry exactly if no directory of the output is
-- what could not be made; else it names that directory, where the entry goes or the parent of that.
theorem path_of_failed_visit_iff (h : exec (prepare source output) w = (.ok s, w₁))
    (hv : v ∈ visits s w₁) (hf : v.exec (visit s) = (.error e, u)) :
    exec (site source output) w = (.error e, u) ∧
      (e.path = v.path ↔ ∀ q x, e ≠ .makeDirectory q x) ∧
      ∀ q x, e = .makeDirectory q x → ∃ target, destination? s v.path = some target ∧
        if v.isDirectory then q = target else target.parent? = some q := by
  have hb := between_of_prepare_eq_ok h
  have hm : v ∈ processed s w₁ := List.mem_filter.mpr ⟨hv, by simp [(exec_visit_eq_error hf).1]⟩
  obtain ⟨dir, name, hs, hp⟩ := isInside_of_mem_visits hb.source hb.straight_source.isPlain hv
  have hd := destination?_toPath hb hs
  rw [← hp] at hd
  have hfault := fault_of_failed_visit hd hf
  refine ⟨?_, ?_, ?_⟩
  · rw [site_eq_prepare_run, exec_bind_of_ok h, exec_run_of_failed_visit hv hf]
  · rw [hp] at hfault ⊢
    refine hfault.path_eq_iff hb hs fun k hk hne ho => ?_
    have hx := isExcluded_eq_false_of_mem_processed hb.source hb.straight_source.isPlain hm hp
      hs.isPlain hk hne
    rw [ho, ← hb.output] at hx
    simp [Session.isExcluded, Path.same_refl] at hx
  · rintro q x rfl
    refine ⟨_, hd, ?_⟩
    cases hfault
    case directory hd => rw [if_pos hd]
    case parent hd hq => rwa [if_neg (by simp [hd])]

-- A source with a directory in it that has the name of a file in the output.
def fileInOutput : World where
  files := (((FileSystem.empty.put [] "s" .directory).put ["s"] "d" .directory).put []
    "o" .directory).put ["o"] "d" (.file "b".toUTF8)
  directory := []
  log := []

theorem fileInOutput_path_ne :
    ∃ s w₁, exec (prepare "s" "o") fileInOutput = (.ok s, w₁) ∧ ∃ v ∈ visits s w₁,
      ∃ e u, v.exec (visit s) = (.error e, u) ∧ v.path = "/s/d" ∧ e.path = "/o/d" := by
  decide +kernel

theorem fileInOutput_path_of_failed_visit_iff :
    ∃ s w₁, exec (prepare "s" "o") fileInOutput = (.ok s, w₁) ∧ ∃ v ∈ visits s w₁,
      ∃ e u, v.exec (visit s) = (.error e, u) ∧ e = .makeDirectory "/o/d" .alreadyExists ∧
        exec (site "s" "o") fileInOutput = (.error e, u) ∧
        (e.path = v.path ↔ ∀ q x, e ≠ .makeDirectory q x) ∧
        ∀ q x, e = .makeDirectory q x → ∃ target, destination? s v.path = some target ∧
          if v.isDirectory then q = target else target.parent? = some q := by
  obtain ⟨s, w₁, h, v, hv, e, u, hf, he⟩ :
      ∃ s w₁, exec (prepare "s" "o") fileInOutput = (.ok s, w₁) ∧ ∃ v ∈ visits s w₁,
        ∃ e u, v.exec (visit s) = (.error e, u) ∧ e = .makeDirectory "/o/d" .alreadyExists := by
    decide +kernel
  exact ⟨s, w₁, h, v, hv, e, u, hf, he, path_of_failed_visit_iff h hv hf⟩

end StaticSite.Build
