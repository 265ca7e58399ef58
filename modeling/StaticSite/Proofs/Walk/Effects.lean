import StaticSite.FileSystem.Walk
import StaticSite.Proofs.Unlogged
/-!
What a walk does by itself, apart from its visits. Main statements: it fails in its own way or in
that of a visit (`throws_run`), and it does not read the log (`ignoresLog_run`).
-/
namespace StaticSite.Walk

open FileSystem Action

variable {ε σ : Type} {tell : Error → ε} {visit : Visitor ε σ} {P : ε → Prop} {depth : Nat}
  {way : List Step} {p dir : Path} {listing : Listing} {s : σ}

theorem throws_orThrow {α : Type} {x : Except Error α} (ht : ∀ e, P (tell e)) :
    Throws P (orThrow tell x) := by
  cases x
  case error e => exact .throw (ht e)
  case ok a => exact .pure a

theorem ignoresLog_orThrow {α : Type} {x : Except Error α} : IgnoresLog (orThrow tell x) := by
  cases x
  case error e => exact .throw _
  case ok a => exact .pure a

theorem throws_visitBelow (ht : ∀ e, P (tell e)) (hv : ∀ p d s, Throws P (visit p d s)) :
    Throws P (visitBelow tell visit depth way dir listing s) := by
  induction depth generalizing way dir listing s
  case zero => rcases listing with e | ⟨l, entries⟩ <;> exact .throw (ht _)
  case succ depth hi =>
    rcases listing with e | ⟨l, entries⟩
    case error => exact .throw (ht _)
    case ok =>
      refine Throws.foldlM (fun s x => ?_) s
      refine Throws.get.bind fun w => (throws_orThrow ht).bind fun found => ?_
      refine (hv _ _ _).bind fun s' => ?_
      split
      case h_1 => exact .pure s
      case h_2 =>
        split
        · exact .pure _
        · exact hi

theorem throws_run (ht : ∀ e, P (tell e)) (hv : ∀ p d s, Throws P (visit p d s)) :
    Throws P (run tell visit p s) := by
  refine Throws.get.bind fun w => (throws_orThrow ht).bind fun found => ?_
  split
  · exact .pure s
  · exact throws_visitBelow ht hv

theorem ignoresLog_visitBelow (hv : ∀ p d s, IgnoresLog (visit p d s)) :
    IgnoresLog (visitBelow tell visit depth way dir listing s) := by
  induction depth generalizing way dir listing s
  case zero => rcases listing with e | ⟨l, entries⟩ <;> exact .throw _
  case succ depth hi =>
    rcases listing with e | ⟨l, entries⟩
    case error => exact .throw _
    case ok =>
      refine IgnoresLog.foldlM (fun s x => ?_) entries s
      refine .get_bind (fun _ _ => rfl) fun w => ignoresLog_orThrow.bind fun found => ?_
      refine (hv _ _ _).bind fun s' => ?_
      split
      case h_1 => exact .pure s
      case h_2 =>
        split
        · exact .pure _
        · exact hi

theorem ignoresLog_run (hv : ∀ p d s, IgnoresLog (visit p d s)) :
    IgnoresLog (run tell visit p s) := by
  refine .get_bind (fun _ _ => rfl) fun w => ignoresLog_orThrow.bind fun found => ?_
  split
  · exact .pure s
  · exact ignoresLog_visitBelow hv

end StaticSite.Walk
