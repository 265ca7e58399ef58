import StaticSite.Proofs.FileSystem.Below
/-!
When it makes no difference which links are followed. Main statements: how many may be followed does
not matter as long as they are enough, so what stands below a directory is found in the same way
through any two paths of the directory, unless one of them has used up the links
(`find_below_cases`); and whether one at the end is followed matters only if there is one
(`resolve_follow_cases`).
-/
namespace StaticSite.FileSystem

open Location

variable {fs : FileSystem} {cwd l k : Location} {p q : Path} {follow : Bool} {steps : List String}
  {m n : Nat}

-- What relates the ends of jumps relates the ends of steps, if it relates a link that is left to
-- whatever it leads to.
theorem takeStepsWith_rel {R : Except IoError Named → Except IoError Named → Prop} {follow' : Bool}
    {jump jump' : Location → List String → Except IoError Named} (hr : ∀ x, R x x)
    (hl : follow = follow' ∨ follow = false ∧ ∀ k target x, R (.ok (.entry k (.link target))) x)
    (hj : ∀ l steps, R (jump l steps) (jump' l steps)) :
    R (fs.takeStepsWith jump follow l steps) (fs.takeStepsWith jump' follow' l steps) := by
  fun_induction fs.takeStepsWith jump follow l steps <;> rw [takeStepsWith.eq_def fs jump']
  case case3 hd hi ih => simpa [hd, hi] using ih
  case case4 hd hi ih => simpa [hd, hi] using ih
  case case8 hd hi hp hn target ht hf =>
    rcases hl with rfl | ⟨-, hl⟩
    case inl => simpa [hd, hi, hp, hn, ht, hf] using hr _
    case inr => exact hl _ _ _
  case case9 hd hi hp hn target ht hf =>
    rcases hl with rfl | ⟨rfl, -⟩
    case inl => simpa [hd, hi, hp, hn, ht, hf] using hj _ _
    case inr =>
      simp only [Bool.not_false, Bool.and_true, List.isEmpty_iff] at hf
      simpa [hd, hi, hp, hn, ht, hf] using hj _ _
  case case10 hd hi hp hn e he ht ih =>
    cases e
    case link target => exact absurd rfl (he target)
    all_goals simpa [hd, hi, hp, hn, ht] using ih
  all_goals simp [*]

-- With more links to follow, steps lead to the same, unless the links were not enough.
theorem takeSteps_of_le (h : n ≤ m) :
    fs.takeSteps follow n l steps = .error .filesystemLoop ∨
      fs.takeSteps follow m l steps = fs.takeSteps follow n l steps := by
  simp only [takeSteps_eq_takeStepsWith]
  induction n generalizing m l steps
  all_goals
    refine takeStepsWith_rel (R := fun x y => x = .error .filesystemLoop ∨ y = x) (fun _ => .inr rfl)
      (.inl rfl) fun l steps => ?_
  case zero => exact .inl rfl
  case succ n hi l steps =>
    obtain ⟨m, rfl⟩ := Nat.exists_eq_add_of_lt h
    simp only [jump, takeSteps_eq_takeStepsWith]
    exact hi (Nat.le_add_right _ _)

theorem takeSteps_cases (n m : Nat) :
    fs.takeSteps follow n l steps = .error .filesystemLoop ∨
      fs.takeSteps follow m l steps = .error .filesystemLoop ∨
      fs.takeSteps follow n l steps = fs.takeSteps follow m l steps := by
  rcases Nat.le_total n m with h | h
  · exact (takeSteps_of_le h).imp_right fun h => .inr h.symm
  · exact .inr (takeSteps_of_le h)

theorem find_below_cases (hp : fs.find cwd p = .ok (l, .directory))
    (hq : fs.find cwd q = .ok (l, .directory)) (hk : k.IsPlain) (hne : k ≠ [])
    (hpk : checkPath (p / k.toRelative) = .ok ()) (hqk : checkPath (q / k.toRelative) = .ok ()) :
    fs.find cwd (p / k.toRelative) = .error .filesystemLoop ∨
      fs.find cwd (q / k.toRelative) = .error .filesystemLoop ∨
      fs.find cwd (p / k.toRelative) = fs.find cwd (q / k.toRelative) := by
  obtain ⟨n, hn⟩ := exists_resolve_below hp hk hne
  obtain ⟨m, hm⟩ := exists_resolve_below hq hk hne
  have hn : fs.resolve cwd true (p / k.toRelative) = fs.takeSteps true n l k := by rw [hn, hpk]; rfl
  have hm : fs.resolve cwd true (q / k.toRelative) = fs.takeSteps true m l k := by rw [hm, hqk]; rfl
  unfold find
  rw [hn, hm]
  rcases takeSteps_cases n m with h | h | h <;> rw [h]
  case inl => exact .inl rfl
  case inr.inl => exact .inr (.inl rfl)
  case inr.inr => exact .inr (.inr rfl)

theorem takeSteps_follow_cases :
    (∃ k target, fs.takeSteps false n l steps = .ok (.entry k (.link target))) ∨
      fs.takeSteps false n l steps = fs.takeSteps true n l steps := by
  simp only [takeSteps_eq_takeStepsWith]
  induction n generalizing l steps
  all_goals
    refine takeStepsWith_rel (R := fun x y => (∃ k target, x = .ok (.entry k (.link target))) ∨ x = y)
      (fun _ => .inr rfl) (.inr ⟨rfl, fun k target _ => .inl ⟨k, target, rfl⟩⟩) fun l steps => ?_
  case zero => exact .inr rfl
  case succ n hi l steps =>
    simp only [jump, takeSteps_eq_takeStepsWith]
    exact hi

-- A path leads to the same whether a link at its end is followed or not, unless it ends in a link.
theorem resolve_follow_cases (fs : FileSystem) (cwd : Location) (p : Path) :
    (∃ k target, fs.resolve cwd false p = .ok (.entry k (.link target))) ∨
      fs.resolve cwd false p = fs.resolve cwd true p := by
  unfold resolve
  cases checkPath p <;> simp only [bind, Except.bind]
  case error => exact .inr trivial
  case ok => exact takeSteps_follow_cases

-- Without links, it makes no difference whether one at the end is followed.
theorem Linkless.resolve_follow (hf : fs.Linkless) :
    fs.resolve cwd false p = fs.resolve cwd true p := by
  refine (resolve_follow_cases fs cwd p).resolve_left ?_
  rintro ⟨k, target, h⟩
  exact hf k target (get?_of_resolve h)

end StaticSite.FileSystem
