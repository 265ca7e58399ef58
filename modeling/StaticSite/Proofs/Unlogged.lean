import StaticSite.Build
import StaticSite.Proofs.Build.Compile
/-!
The log is written and never read: what an action does in a world does not depend on what has been
logged there. Main statement: this holds of an action if it holds of its parts (`IgnoresLog.bind`),
and so of the work on an entry of the source (`ignoresLog_perform`).
-/
namespace StaticSite

open FileSystem Action

namespace Action

-- Whatever has been logged, the action gives the same and leaves the same files.
def IgnoresLog {ε α : Type} (x : Action ε α) : Prop :=
  ∀ w log, ∃ log', exec x { w with log } = ((exec x w).1, { (exec x w).2 with log := log' })

namespace IgnoresLog

variable {ε δ α β σ : Type} {x : Action ε α}

theorem congr (h : IgnoresLog x) {w v : World} (hf : v.files = w.files)
    (hd : v.directory = w.directory) :
    (exec x v).1 = (exec x w).1 ∧ (exec x v).2.files = (exec x w).2.files ∧
      (exec x v).2.directory = (exec x w).2.directory := by
  obtain ⟨log, he⟩ := h w v.log
  have hv : v = { w with log := v.log } := by
    cases v
    simp_all
  rw [hv, he]
  exact ⟨rfl, rfl, rfl⟩

theorem pure (a : α) : IgnoresLog (pure a : Action ε α) :=
  fun _ log => ⟨log, rfl⟩

theorem throw (e : ε) : IgnoresLog (throw e : Action ε α) :=
  fun _ log => ⟨log, rfl⟩

theorem record (level : Log.Level) (message : String) :
    IgnoresLog (record level message : Action ε Unit) :=
  fun _ log => ⟨log ++ [⟨level, message⟩], rfl⟩

theorem bind {f : α → Action ε β} (h : IgnoresLog x) (hf : ∀ a, IgnoresLog (f a)) :
    IgnoresLog (x >>= f) := by
  intro w log
  obtain ⟨log', he⟩ := h w log
  rw [exec_bind, exec_bind, he]
  rcases exec x w with ⟨e | a, u⟩
  case error => exact ⟨log', rfl⟩
  case ok => exact hf a u log'

theorem get_bind {f : World → Action ε β} (hc : ∀ w log, f { w with log } = f w)
    (hf : ∀ w, IgnoresLog (f w)) : IgnoresLog (get >>= f) := by
  intro w log
  rw [exec_bind_of_ok (exec_get _), exec_bind_of_ok (exec_get _), hc]
  exact hf w w log

theorem tryCatch {f : ε → Action ε α} (h : IgnoresLog x) (hf : ∀ e, IgnoresLog (f e)) :
    IgnoresLog (tryCatch x f) := by
  intro w log
  obtain ⟨log', he⟩ := h w log
  rw [exec_tryCatch, exec_tryCatch, he]
  rcases exec x w with ⟨e | a, u⟩
  case error => exact hf e u log'
  case ok => exact ⟨log', rfl⟩

theorem orElseThrow {x : Action δ α} {tell : δ → ε} (h : IgnoresLog x) :
    IgnoresLog (x.orElseThrow tell) := by
  intro w log
  obtain ⟨log', he⟩ := h w log
  rw [exec_orElseThrow, exec_orElseThrow, he]
  exact ⟨log', rfl⟩

theorem foldlM {f : σ → β → Action ε σ} (h : ∀ s b, IgnoresLog (f s b)) (bs : List β) (s : σ) :
    IgnoresLog (bs.foldlM f s) := by
  induction bs generalizing s
  case nil => exact .pure s
  case cons b bs hi => exact (h s b).bind hi

end IgnoresLog

-- Whatever only reads, reads no log.
theorem Reads.ignoresLog {ε α : Type} {P : Path → Prop} {x : Action ε α} (h : Reads P x) :
    IgnoresLog x := by
  intro w log
  have hw := h.world { w with log }
  have hc := h.congr { w with log } w fun _ _ => rfl
  exact ⟨log, Prod.ext hc (by rw [hw, h.world])⟩

end Action

namespace Disk

variable {α : Type} {p : Path} {contents : ByteArray}

theorem ignoresLog_ask (question : FileSystem → Location → Except IoError α) :
    IgnoresLog (ask question) :=
  fun w log => ⟨log, by rw [exec_ask, exec_ask]⟩

theorem ignoresLog_change (f : FileSystem → FileSystem) : IgnoresLog (change f) :=
  fun _ log => ⟨log, rfl⟩

theorem ignoresLog_canonical : IgnoresLog (canonical p) :=
  (ignoresLog_ask _).bind fun _ => .pure _

theorem ignoresLog_create {e : Entry} : IgnoresLog (create p e) := by
  apply (ignoresLog_ask _).bind
  intro step
  cases step
  case name =>
    refine .get_bind (fun _ _ => rfl) fun w => ?_
    split
    · exact .throw _
    · exact ignoresLog_change _
  all_goals exact .throw _

theorem ignoresLog_ensureDirectory : IgnoresLog (ensureDirectory p) := by
  refine ignoresLog_create.tryCatch fun e => .get_bind (fun _ _ => rfl) fun w => ?_
  split
  · exact .pure _
  · exact .throw _

theorem ignoresLog_makeAncestors {ps : List Path} : IgnoresLog (makeAncestors ps) := by
  induction ps
  case nil => exact .throw _
  case cons p ps hi =>
    rw [makeAncestors]
    split
    case isTrue => exact .pure _
    case isFalse =>
      refine ignoresLog_ensureDirectory.tryCatch fun e => ?_
      split
      · exact hi.bind fun _ => ignoresLog_ensureDirectory
      · exact .throw _

theorem ignoresLog_makeDirectories : IgnoresLog (makeDirectories p) :=
  ignoresLog_makeAncestors

theorem ignoresLog_write : IgnoresLog (write p contents) := by
  apply (ignoresLog_ask _).bind
  intro named
  split
  · exact ignoresLog_change _
  · exact .throw _
  · split
    · exact .throw _
    · exact ignoresLog_change _

theorem ignoresLog_copy {target : Path} : IgnoresLog (copy p target) := by
  apply (ignoresLog_ask _).bind
  intro x
  split
  case h_2 => exact .throw _
  case h_1 =>
    refine ignoresLog_write.bind fun _ => .get_bind (fun _ _ => rfl) fun w => ?_
    split
    · exact ignoresLog_write
    · exact .pure _

end Disk

theorem Compile.ignoresLog_write {s : Session} {source target : Path} :
    IgnoresLog (Compile.write s source target) := by
  refine reads_file.ignoresLog.bind fun document => ?_
  split
  · exact Disk.ignoresLog_makeDirectories.orElseThrow.bind fun _ =>
      Disk.ignoresLog_write.orElseThrow
  · exact Disk.ignoresLog_write.orElseThrow

namespace Build

theorem ignoresLog_makeDirectory {p : Path} : IgnoresLog (makeDirectory p) :=
  Disk.ignoresLog_makeDirectories.orElseThrow

theorem ignoresLog_copy {source target : Path} : IgnoresLog (copy source target) := by
  unfold copy
  split
  · exact ignoresLog_makeDirectory.bind fun _ => Disk.ignoresLog_copy.orElseThrow
  · exact Disk.ignoresLog_copy.orElseThrow

theorem ignoresLog_perform {s : Session} {p : Path} {isDirectory : Bool} {r : Report} :
    IgnoresLog (perform s p isDirectory r) := by
  unfold perform
  split
  case h_1 => exact .pure r
  case h_2 relative _ =>
    split
    · exact (IgnoresLog.record _ _).bind fun _ => ignoresLog_makeDirectory.bind fun _ => .pure _
    · split
      · exact (IgnoresLog.record _ _).bind fun _ =>
          Compile.ignoresLog_write.orElseThrow.bind fun _ => .pure _
      · exact (IgnoresLog.record _ _).bind fun _ => ignoresLog_copy.bind fun _ => .pure _

end Build

end StaticSite
