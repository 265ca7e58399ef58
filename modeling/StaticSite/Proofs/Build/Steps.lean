import StaticSite.Proofs.Build.Begun
import StaticSite.Proofs.Unlogged
/-!
A build as the steps that it takes, one for each entry of the site. Main statement: that is all that
a build does once its output has been made, but for what it logs (`Begun.exec_run`).
-/
namespace StaticSite.Build

open FileSystem Action Location Walk

-- The entries of the source that are part of the site, a directory before its contents and
-- neighbours in the order of their names.
def entries (s : Session) (src : Location) (fs : FileSystem) : List (Location × Entry) :=
  (fs.walked (s.isExcluded ·.toPath) src).filter (!s.isExcluded ·.1.toPath)

-- What a build does for an entry of the site. A directory is looked into when it has been mirrored.
def step (s : Session) (t : Report) (x : Location × Entry) : Action Error Report := do
  let t ← perform s x.1.toPath (x.2 = .directory) t
  if x.2 = .directory then look .walk x.1.toPath
  return t

-- What a build does for the source and for some of its entries.
def steps (s : Session) (xs : List (Location × Entry)) : Action Error Report := do
  look .walk s.source
  xs.foldlM (step s) {}

variable {s : Session} {src out k : Location} {fs : FileSystem} {w u w₁ : World} {e : Entry}
  {t : Report} {x : Location × Entry}

theorem steps_append {xs ys : List (Location × Entry)} :
    steps s (xs ++ ys) = steps s xs >>= ys.foldlM (step s) := by
  simp [steps]

-- An entry is part of the site if neither it nor a directory that it is reached through is left
-- out.
theorem mem_entries : (k, e) ∈ entries s src fs ↔ ∃ r ≠ [], k = src ++ r ∧ fs.get? k = some e ∧
    ∀ m, m <+: r → m ≠ [] → s.isExcluded (src ++ m).toPath = false := by
  simp only [entries, List.mem_filter, mem_walked, Bool.not_eq_true']
  constructor
  · rintro ⟨⟨r, hr, rfl, hg, hm⟩, hx⟩
    refine ⟨r, hr, rfl, hg, fun m hp hn => ?_⟩
    by_cases he : m = r
    case pos => exact he ▸ hx
    case neg => exact hm m hp hn he
  · rintro ⟨r, hr, rfl, hg, hm⟩
    exact ⟨⟨r, hr, rfl, hg, fun m hp hn _ => hm m hp hn⟩, hm r (List.prefix_refl r) hr⟩

theorem exists_of_mem_entries (hx : (k, e) ∈ entries s src fs) :
    ∃ dir name, k = src ++ (dir ++ [name]) ∧ IsStraight (dir ++ [name]) ∧ fs.get? k = some e := by
  obtain ⟨r, hr, rfl, hg, -⟩ := mem_entries.mp hx
  obtain ⟨dir, name, rfl⟩ := (List.eq_nil_or_concat' r).resolve_left hr
  exact ⟨dir, name, rfl, (isStraight_of_get? hg).of_append.2, hg⟩

theorem get?_source_of_mem_entries (hx : (k, e) ∈ entries s src fs) :
    fs.get? src = some .directory := by
  obtain ⟨dir, name, rfl, -, hg⟩ := exists_of_mem_entries hx
  exact get?_of_append hg (by simp)

theorem sorted_entries : Keyed.Sorted (entries s src fs) :=
  sorted_walked.filter _

theorem keeps_look {R : World → World → Prop} [Std.Refl R] {tell : Walk.Error → Error} {p : Path} :
    Keeps R (look tell p) := by
  intro w
  rw [look, exec_bind_of_ok (exec_get w)]
  split <;> exact Std.Refl.refl w

theorem ignoresLog_look {tell : Walk.Error → Error} {p : Path} : IgnoresLog (look tell p) := by
  refine .get_bind (fun _ _ => rfl) fun w => ?_
  split
  · exact .pure _
  · exact .throw _

theorem ignoresLog_step : IgnoresLog (step s t x) := by
  apply ignoresLog_perform.bind
  intro t
  split
  · exact ignoresLog_look.bind fun _ => .pure t
  · exact .pure t

theorem sweepInto_eq_step (h : s.isExcluded x.1.toPath = false) :
    sweepInto .walk (visit s) t x = step s t x := by
  simp [sweepInto, visit, step, h]

theorem sweepInto_of_isExcluded (h : s.isExcluded x.1.toPath) :
    sweepInto .walk (visit s) t x =
      record .debug ("Skipping " ++ quoted x.1.toPath.text) >>= fun _ => pure t := by
  simp [sweepInto, visit, h]

-- What is left out is logged, and nothing else is done for it.
theorem exec_foldlM_sweepInto (xs : List (Location × Entry)) (t : Report) (w : World) :
    ∃ log, exec (xs.foldlM (sweepInto .walk (visit s)) t) w =
      ((exec ((xs.filter (!s.isExcluded ·.1.toPath)).foldlM (step s) t) w).1,
        { (exec ((xs.filter (!s.isExcluded ·.1.toPath)).foldlM (step s) t) w).2 with log }) := by
  induction xs generalizing t w
  case nil => exact ⟨w.log, rfl⟩
  case cons x xs hi =>
    rw [List.foldlM_cons]
    cases hx : s.isExcluded x.1.toPath
    case true =>
      rw [List.filter_cons_of_neg (by simp [hx]), sweepInto_of_isExcluded hx, bind_assoc,
        exec_bind_of_ok (exec_record _ _ w), pure_bind]
      obtain ⟨log, he⟩ := hi t { w with log := w.log ++ [⟨.debug, "Skipping " ++ quoted _⟩] }
      obtain ⟨log', hl⟩ := IgnoresLog.foldlM (fun _ _ => ignoresLog_step)
        (xs.filter (!s.isExcluded ·.1.toPath)) t w (w.log ++ [⟨.debug, "Skipping " ++ quoted _⟩])
      rw [hl] at he
      exact ⟨log, he⟩
    case false =>
      rw [List.filter_cons_of_pos (by simp [hx]), sweepInto_eq_step hx, List.foldlM_cons,
        exec_bind, exec_bind]
      rcases exec (step s t x) w with ⟨e | t', u⟩
      case error => exact ⟨u.log, rfl⟩
      case ok => exact hi t' u

-- A step changes nothing but in the output.
theorem keeps_step (h : Begun s src out w₁) (hx : x ∈ entries s src fs) :
    Keeps (Extends out w₁) (step s t x) := by
  obtain ⟨k, e⟩ := x
  obtain ⟨dir, name, rfl, hr, -⟩ := exists_of_mem_entries hx
  refine Keeps.bind (fun w hw => ⟨hw.exec_perform h hr, keeps_perform w⟩) fun t => ?_
  split
  · exact keeps_look.bind fun _ => .pure t
  · exact .pure t

theorem keeps_steps {xs : List (Location × Entry)} (h : Begun s src out w₁)
    (hx : ∀ x ∈ xs, x ∈ entries s src fs) : Keeps (Extends out w₁) (steps s xs) :=
  keeps_look.bind fun _ => Keeps.foldlM (fun x hm _ => keeps_step h (hx x hm)) {}

namespace Begun

theorem not_prefix_of_mem_entries (h : Begun s src out w₁) (hx : (k, e) ∈ entries s src fs) :
    ¬out <+: k := by
  obtain ⟨r, -, rfl, -, hm⟩ := mem_entries.mp hx
  intro hp
  cases List.prefix_or_prefix_of_prefix hp (List.prefix_append src r)
  case inl hp => exact h.outside hp
  case inr hs =>
    obtain ⟨m, rfl⟩ := hs
    have hn : m ≠ [] := by
      rintro rfl
      exact h.outside (by simp)
    exact h.ne_output (hm m ((List.prefix_append_right_inj src).mp hp) hn) rfl

-- Once the output has been made, a build takes one step after another.
theorem exec_walk_eq_steps (h : Begun s src out w₁) (hs : w₁.files.get? src = some .directory)
    (hw : Frame out w₁ w) : ∃ log, exec (Walk.run .walk (visit s) s.source {}) w =
      ((exec (steps s (entries s src w₁.files)) w).1,
        { (exec (steps s (entries s src w₁.files)) w).2 with log }) := by
  rw [h.exec_walk hs hw, steps, exec_bind, exec_bind]
  rcases exec (look Error.walk s.source) w with ⟨e | _, u⟩
  case error => exact ⟨u.log, rfl⟩
  case ok => exact exec_foldlM_sweepInto _ _ u

theorem exec_run (h : Begun s src out w₁) (hs : w₁.files.get? src = some .directory)
    (hw : Frame out w₁ u) (hm : exec (makeDirectory s.output) w = (.ok (), u)) :
    (exec (run s) w).1 = (exec (steps s (entries s src w₁.files)) u).1 ∧
      (exec (run s) w).2.files = (exec (steps s (entries s src w₁.files)) u).2.files := by
  obtain ⟨log, he⟩ := h.exec_walk_eq_steps hs hw
  obtain ⟨h₁, h₂⟩ := Build.exec_run hm
  rw [he] at h₁ h₂
  exact ⟨h₁, h₂⟩

end Begun

end StaticSite.Build
