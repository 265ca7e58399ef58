import StaticSite.FileSystem.Resolve
import StaticSite.Proofs.Path.Canonical
/-!
Taking the steps of a path. Main statements: the path of a location leads to it if something is
there (`takeSteps_of_get?`), and without links it leads nowhere else
(`LinklessBelow.takeSteps_cases`) and where it leads depends on nothing but what stands on the way
(`Linkless.takeSteps_congr`).
-/
namespace StaticSite

namespace Location

-- The way to a location, without a step that leads up again.
def IsStraight (l : Location) : Prop :=
  ∀ name ∈ l, Path.IsStep name ∧ name ≠ ".."

instance (l : Location) : Decidable l.IsStraight := by
  unfold IsStraight; infer_instance

namespace IsStraight

variable {l k : Location} {name : String}

theorem isPlain (h : l.IsStraight) : l.IsPlain :=
  fun n hn => (h n hn).1

theorem of_append (h : IsStraight (l ++ k)) : l.IsStraight ∧ k.IsStraight :=
  ⟨fun n hn => h n (List.mem_append_left _ hn), fun n hn => h n (List.mem_append_right _ hn)⟩

theorem append (hl : l.IsStraight) (hk : k.IsStraight) : IsStraight (l ++ k) :=
  fun n hn => (List.mem_append.mp hn).elim (hl n) (hk n)

theorem of_prefix (h : l.IsStraight) (hk : k <+: l) : k.IsStraight :=
  fun n hn => h n (hk.subset hn)

end IsStraight

end Location

namespace FileSystem

def Linkless (fs : FileSystem) : Prop :=
  ∀ l target, fs.get? l ≠ some (.link target)

-- Nothing at a location or below it is a link.
def LinklessBelow (fs : FileSystem) (l : Location) : Prop :=
  ∀ k target, fs.get? (l ++ k) ≠ some (.link target)

variable {fs : FileSystem} {l k dir : Location} {name : String} {e : Entry}

theorem get?_of_append (h : fs.get? (l ++ k) = some e) (hk : k ≠ []) :
    fs.get? l = some .directory := by
  induction k using List.reverseRecOn generalizing e
  case nil => contradiction
  case append_singleton k name hi =>
    rw [← List.append_assoc] at h
    have hd := (get?_concat h).2
    by_cases hn : k = []
    case pos => simpa [hn] using hd
    case neg => exact hi hd hn

theorem get?_dropLast (h : fs.get? l = some .directory) :
    fs.get? l.dropLast = some .directory := by
  obtain rfl | ⟨m, n, rfl⟩ := List.eq_nil_or_concat' l
  case inl => rfl
  case inr => simpa using (get?_concat (by simpa using h)).2

theorem get?_append_of_none (h : fs.get? l = none) (hk : k ≠ []) : fs.get? (l ++ k) = none := by
  apply Option.eq_none_iff_forall_ne_some.mpr
  intro e he
  have hl := get?_of_append he hk
  simp [h] at hl

theorem get?_of_prefix (h : fs.get? l = some e) (hk : k <+: l) (hn : k ≠ l) :
    fs.get? k = some .directory := by
  obtain ⟨m, rfl⟩ := hk
  exact get?_of_append h (by simpa using hn)

theorem isName_of_get? (h : fs.get? l = some e) : ∀ n ∈ l, IsName n := by
  intro n hn
  obtain ⟨m, k, rfl⟩ := List.append_of_mem hn
  rw [List.append_cons] at h
  by_cases hk : k = []
  case pos => exact (get?_concat (by simpa [hk] using h)).1
  case neg => exact (get?_concat (get?_of_append h hk)).1

theorem isStraight_of_isName (h : ∀ n ∈ l, IsName n) : l.IsStraight :=
  fun n hn => ⟨(h n hn).isStep, (h n hn).ne_parent⟩

theorem isStraight_of_get? (h : fs.get? l = some e) : l.IsStraight :=
  isStraight_of_isName (isName_of_get? h)

theorem find_eq_ok {cwd : Location} {p : Path} :
    fs.find cwd p = .ok (l, e) ↔ fs.resolve cwd true p = .ok (.entry l e) := by
  unfold find
  rcases fs.resolve cwd true p with _ | ⟨_ | _⟩ <;>
    simp [bind, Except.bind, pure, Except.pure, throw, throwThe, MonadExceptOf.throw]

theorem get?_of_find {cwd : Location} {p : Path} (h : fs.find cwd p = .ok (l, e)) :
    fs.get? l = some e :=
  get?_of_resolve (find_eq_ok.mp h)

theorem isStraight_of_find {cwd : Location} {p : Path} (h : fs.find cwd p = .ok (l, e)) :
    l.IsStraight :=
  isStraight_of_get? (get?_of_find h)

-- Goes on where a link leads, if one more may be followed.
def jump (fs : FileSystem) (follow : Bool) (links : Nat) (l : Location) (steps : List String) :
    Except IoError Named :=
  match links with
  | 0 => .error .filesystemLoop
  | links + 1 => fs.takeSteps follow links l steps

section

variable {follow : Bool} {links : Nat} {step : String} {steps : List String}

theorem takeSteps_eq_takeStepsWith :
    fs.takeSteps follow links l steps = fs.takeStepsWith (fs.jump follow links) follow l steps := by
  cases links <;> rfl

theorem takeSteps_of_none (h : fs.get? l = none) :
    fs.takeSteps follow links l steps = .error .notFound := by
  rw [takeSteps_eq_takeStepsWith, takeStepsWith.eq_def, h]

theorem takeSteps_nil (h : fs.get? l = some e) :
    fs.takeSteps follow links l [] = .ok (.entry l e) := by
  rw [takeSteps_eq_takeStepsWith, takeStepsWith.eq_def, h]

theorem takeSteps_of_not_directory (h : fs.get? l = some e) (he : e ≠ .directory) :
    fs.takeSteps follow links l (step :: steps) = .error .notADirectory := by
  rw [takeSteps_eq_takeStepsWith, takeStepsWith.eq_def, h]
  cases e
  case directory => exact absurd rfl he
  all_goals rfl

theorem takeSteps_of_isIdle (h : fs.get? l = some .directory) (hi : Path.isIdle step) :
    fs.takeSteps follow links l (step :: steps) = fs.takeSteps follow links l steps := by
  rw [takeSteps_eq_takeStepsWith, takeSteps_eq_takeStepsWith, takeStepsWith.eq_def, h]
  simp [hi]

theorem takeSteps_parent (h : fs.get? l = some .directory) :
    fs.takeSteps follow links l (".." :: steps) = fs.takeSteps follow links l.dropLast steps := by
  have : Path.isIdle ".." = false := by decide
  rw [takeSteps_eq_takeStepsWith, takeSteps_eq_takeStepsWith, takeStepsWith.eq_def, h]
  simp [this]

theorem takeSteps_of_long (h : fs.get? l = some .directory) (hi : Path.isIdle step = false)
    (hp : step ≠ "..") (hs : nameLimit < step.utf8ByteSize) :
    fs.takeSteps follow links l (step :: steps) = .error .invalidFilename := by
  rw [takeSteps_eq_takeStepsWith, takeStepsWith.eq_def, h]
  simp [hi, hp, hs]

theorem takeSteps_name (h : fs.get? l = some .directory) (hi : Path.isIdle step = false)
    (hp : step ≠ "..") (hs : step.utf8ByteSize ≤ nameLimit) :
    fs.takeSteps follow links l (step :: steps) = match fs.get? (l ++ [step]) with
      | none =>
        if steps.all (· == "") then .ok (.vacant l step !steps.isEmpty) else .error .notFound
      | some (.link target) =>
        if steps.isEmpty && !follow then .ok (.entry (l ++ [step]) (.link target))
        else fs.jump follow links (if target.isAbsolute then [] else l) (target.pieces ++ steps)
      | some _ => fs.takeSteps follow links (l ++ [step]) steps := by
  rw [takeSteps_eq_takeStepsWith, takeSteps_eq_takeStepsWith, takeStepsWith.eq_def, h]
  refine (if_neg (by simp [hi])).trans ((if_neg hp).trans ((if_neg (Nat.not_lt.mpr hs)).trans ?_))
  rfl

end

theorem takeSteps_of_get? {follow : Bool} {links : Nat} (h : fs.get? (l ++ k) = some e)
    (he : follow → ∀ target, e ≠ .link target) :
    fs.takeSteps follow links l k = .ok (.entry (l ++ k) e) := by
  induction k generalizing l
  case nil => simpa using takeSteps_nil (by simpa using h)
  case cons step k hi =>
    have hl := get?_of_append h (by simp)
    have hn := isName_of_get? h step (by simp)
    rw [List.append_cons] at h ⊢
    rw [takeSteps_name hl hn.isStep.1 hn.ne_parent hn.size_le, ← hi h]
    by_cases hk : k = []
    case neg => simp [get?_of_append h hk]
    case pos =>
      subst hk
      rw [List.append_nil] at h
      cases e
      case link target =>
        cases follow
        case false => simp [h, takeSteps_nil h]
        case true => exact absurd rfl (he rfl target)
      all_goals simp [h]

theorem takeSteps_append {follow : Bool} {links : Nat} {steps : List String}
    (h : fs.get? (l ++ k) = some .directory) :
    fs.takeSteps follow links l (k ++ steps) = fs.takeSteps follow links (l ++ k) steps := by
  induction k generalizing l
  case nil => simp
  case cons step k hi =>
    have hl := get?_of_append h (by simp)
    have hn := isName_of_get? h step (by simp)
    rw [List.append_cons] at h ⊢
    have hs : fs.get? (l ++ [step]) = some .directory := by
      by_cases hk : k = []
      case pos => simpa [hk] using h
      case neg => exact get?_of_append h hk
    rw [List.cons_append, takeSteps_name hl hn.isStep.1 hn.ne_parent hn.size_le, hs]
    exact hi h

-- Steps are taken in a directory.
theorem get?_of_takeSteps_cons {follow : Bool} {links : Nat} {step : String} {steps : List String}
    {named : Named} (h : fs.takeSteps follow links l (step :: steps) = .ok named) :
    fs.get? l = some .directory := by
  cases hl : fs.get? l
  case none => simp [takeSteps_of_none hl] at h
  case some e =>
    by_cases he : e = .directory
    case pos => rw [he]
    case neg => simp [takeSteps_of_not_directory hl he] at h

theorem exists_takeSteps_append_of_jump {links : Nat} {steps rest : List String} (hr : rest ≠ [])
    (hj : ∀ l steps, fs.jump true links l steps = .ok (.entry k .directory) →
      ∃ n, ∀ follow, fs.jump follow links l (steps ++ rest) = fs.takeSteps follow n k rest)
    (h : fs.takeSteps true links l steps = .ok (.entry k .directory)) :
    ∃ n, ∀ follow, fs.takeSteps follow links l (steps ++ rest) = fs.takeSteps follow n k rest := by
  induction steps generalizing l
  case nil =>
    cases hl : fs.get? l
    case none => simp [takeSteps_of_none hl] at h
    case some e =>
      obtain ⟨rfl, rfl⟩ : l = k ∧ e = .directory := by simpa [takeSteps_nil hl] using h
      exact ⟨links, fun _ => rfl⟩
  case cons step steps hi =>
    have hl := get?_of_takeSteps_cons h
    rw [List.cons_append]
    cases hs : Path.isIdle step
    case true =>
      simp only [takeSteps_of_isIdle hl hs] at h ⊢
      exact hi h
    case false =>
      by_cases hp : step = ".."
      case pos =>
        subst hp
        simp only [takeSteps_parent hl] at h ⊢
        exact hi h
      case neg =>
        by_cases hn : step.utf8ByteSize ≤ nameLimit
        case neg => simp [takeSteps_of_long hl hs hp (Nat.not_le.mp hn)] at h
        case pos =>
          simp only [takeSteps_name hl hs hp hn] at h ⊢
          rcases hx : fs.get? (l ++ [step]) with _ | ⟨_ | _ | target⟩ <;> rw [hx] at h
          case none =>
            dsimp only at h
            split at h <;> simp at h
          case some.link =>
            have := hj _ _ (by simpa using h)
            simpa [hr] using this
          all_goals exact hi h

-- Steps that lead to a directory lead on from there. Fewer links may be left to follow.
theorem exists_takeSteps_append {links : Nat} {steps rest : List String} (hr : rest ≠ [])
    (h : fs.takeSteps true links l steps = .ok (.entry k .directory)) :
    ∃ n, ∀ follow, fs.takeSteps follow links l (steps ++ rest) = fs.takeSteps follow n k rest := by
  induction links generalizing l steps
  case zero => exact exists_takeSteps_append_of_jump hr (by simp [jump]) h
  case succ hi => exact exists_takeSteps_append_of_jump hr (fun _ _ => hi) h

theorem exists_takeSteps_of_append_of_jump {links : Nat} {steps rest : List String}
    (hr : rest ≠ [])
    (hj : ∀ l steps, fs.jump true links l (steps ++ rest) = .ok (.entry k e) →
      ∃ d, fs.jump true links l steps = .ok (.entry d .directory))
    (h : fs.takeSteps true links l (steps ++ rest) = .ok (.entry k e)) :
    ∃ d, fs.takeSteps true links l steps = .ok (.entry d .directory) := by
  induction steps generalizing l
  case nil =>
    obtain ⟨step, rest, rfl⟩ := List.exists_cons_of_ne_nil hr
    exact ⟨l, takeSteps_nil (get?_of_takeSteps_cons h)⟩
  case cons step steps hi =>
    rw [List.cons_append] at h
    have hl := get?_of_takeSteps_cons h
    cases hs : Path.isIdle step
    case true =>
      rw [takeSteps_of_isIdle hl hs] at h ⊢
      exact hi h
    case false =>
      by_cases hp : step = ".."
      case pos =>
        subst hp
        rw [takeSteps_parent hl] at h ⊢
        exact hi h
      case neg =>
        by_cases hn : step.utf8ByteSize ≤ nameLimit
        case neg => simp [takeSteps_of_long hl hs hp (Nat.not_le.mp hn)] at h
        case pos =>
          rw [takeSteps_name hl hs hp hn] at h ⊢
          rcases hx : fs.get? (l ++ [step]) with _ | ⟨_ | _ | target⟩ <;> rw [hx] at h
          case none =>
            dsimp only at h
            split at h <;> simp at h
          case some.link =>
            have := hj (if target.isAbsolute then [] else l) (target.pieces ++ steps)
              (by simpa [hr] using h)
            simpa using this
          all_goals exact hi h

-- Steps that lead on have led to a directory before.
theorem exists_takeSteps_of_append {links : Nat} {steps rest : List String} (hr : rest ≠ [])
    (h : fs.takeSteps true links l (steps ++ rest) = .ok (.entry k e)) :
    ∃ d, fs.takeSteps true links l steps = .ok (.entry d .directory) := by
  induction links generalizing l steps
  case zero => exact exists_takeSteps_of_append_of_jump hr (by simp [jump]) h
  case succ hi => exact exists_takeSteps_of_append_of_jump hr (fun _ _ => hi) h

theorem get?_of_takeStepsWith_vacant {jump : Location → List String → Except IoError Named}
    {follow : Bool} {steps : List String} {isDirectory : Bool}
    (hj : ∀ l steps, jump l steps = .ok (.vacant dir name isDirectory) →
      fs.get? dir = some .directory ∧ fs.get? (dir ++ [name]) = none)
    (h : fs.takeStepsWith jump follow l steps = .ok (.vacant dir name isDirectory)) :
    fs.get? dir = some .directory ∧ fs.get? (dir ++ [name]) = none := by
  fun_induction fs.takeStepsWith jump follow l steps
  case case9 => exact hj _ _ h
  all_goals simp_all

-- A name that a path finds vacant is vacant, in a directory.
theorem get?_of_takeSteps_vacant {follow : Bool} {links : Nat} {steps : List String}
    {isDirectory : Bool}
    (h : fs.takeSteps follow links l steps = .ok (.vacant dir name isDirectory)) :
    fs.get? dir = some .directory ∧ fs.get? (dir ++ [name]) = none := by
  induction links generalizing l steps <;> rw [takeSteps] at h
  case zero => exact get?_of_takeStepsWith_vacant (fun _ _ he => by simp at he) h
  case succ hi => exact get?_of_takeStepsWith_vacant (fun _ _ => hi) h

theorem get?_of_resolve_vacant {cwd : Location} {follow : Bool} {p : Path} {isDirectory : Bool}
    (h : fs.resolve cwd follow p = .ok (.vacant dir name isDirectory)) :
    fs.get? dir = some .directory ∧ fs.get? (dir ++ [name]) = none := by
  unfold resolve at h
  cases hc : checkPath p
  case error => simp [hc, bind, Except.bind] at h
  case ok => exact get?_of_takeSteps_vacant (by simpa [hc, bind, Except.bind] using h)

theorem ne_link_of_takeStepsWith {jump : Location → List String → Except IoError Named}
    {steps : List String} {target : Path}
    (hj : ∀ l steps, steps ≠ [] → jump l steps = .ok (.entry k e) → e ≠ .link target)
    (hl : steps = [] → fs.get? l ≠ some (.link target))
    (h : fs.takeStepsWith jump true l steps = .ok (.entry k e)) : e ≠ .link target := by
  fun_induction fs.takeStepsWith jump true l steps
  case case2 l x hx =>
    obtain ⟨rfl, rfl⟩ : l = k ∧ x = e := by simpa using h
    exact fun he => hl rfl (he ▸ hx)
  case case3 hd hi ih => exact ih (by simp [hd]) h
  case case4 l rest hd hi ih =>
    refine ih (fun _ => ?_) h
    by_cases hl : l = []
    case pos => simp [hl]
    case neg =>
      rw [← List.dropLast_append_getLast hl] at hd
      simp [get?_of_append hd]
  case case9 => exact hj _ _ (by simp [Path.pieces_ne_nil]) h
  case case10 hx ht ih => exact ih (fun _ => by simpa [ht] using hx target) h
  all_goals simp_all

-- What a path is followed to is no link.
theorem ne_link_of_find {cwd : Location} {p target : Path} (h : fs.find cwd p = .ok (k, e)) :
    e ≠ .link target := by
  have hs : ∀ {links l steps}, steps ≠ [] →
      fs.takeSteps true links l steps = .ok (.entry k e) → e ≠ .link target := by
    intro links
    induction links <;> intro l steps hs h <;> rw [takeSteps] at h
    case zero => exact ne_link_of_takeStepsWith (by simp) (fun he => absurd he hs) h
    case succ hi => exact ne_link_of_takeStepsWith (fun _ _ => hi) (fun he => absurd he hs) h
  have h := find_eq_ok.mp h
  unfold resolve at h
  cases hc : checkPath p
  case error => simp [hc, bind, Except.bind] at h
  case ok => exact hs Path.pieces_ne_nil (by simpa [hc, bind, Except.bind] using h)

theorem Linkless.below (h : fs.Linkless) : fs.LinklessBelow l :=
  fun _ => h _

namespace LinklessBelow

variable (hf : fs.LinklessBelow l) {follow : Bool} {links : Nat} {steps : Location}

include hf

theorem append : fs.LinklessBelow (l ++ k) :=
  fun m target => List.append_assoc l k m ▸ hf (k ++ m) target

-- What the steps of a path may lead to where there are no links on the way.
theorem takeSteps_cases {named : Named} (hs : steps.IsStraight)
    (h : fs.takeSteps follow links l steps = .ok named) :
    (∃ e, fs.get? (l ++ steps) = some e ∧ named = .entry (l ++ steps) e) ∨
      ∃ dir name, l ++ steps = dir ++ [name] ∧ fs.get? dir = some .directory ∧
        fs.get? (dir ++ [name]) = none ∧ name.utf8ByteSize ≤ nameLimit ∧
        named = .vacant dir name false := by
  rw [takeSteps_eq_takeStepsWith] at h
  fun_induction fs.takeStepsWith (fs.jump follow links) follow l steps
  case case2 l x hx =>
    refine .inl ⟨x, by simpa using hx, ?_⟩
    simpa using h.symm
  case case3 hl hi ih => simp [(hs _ List.mem_cons_self).1.1] at hi
  case case4 hl hi ih => exact absurd rfl (hs _ List.mem_cons_self).2
  case case6 l step rest hl hi hp hn hv hr =>
    obtain rfl : rest = [] := by
      apply List.eq_nil_iff_forall_not_mem.mpr
      intro n hn
      have := (hs n (List.mem_cons_of_mem _ hn)).1.1
      simp [beq_iff_eq.mp (List.all_eq_true.mp hr n hn)] at this
    refine .inr ⟨l, step, rfl, hl, hv, by omega, ?_⟩
    simpa using h.symm
  case case8 ht _ => exact absurd ht (hf [_] _)
  case case9 ht _ => exact absurd ht (hf [_] _)
  case case10 hl hi hp hn x hx ht ih =>
    have := ih hf.append (fun n hn => hs n (List.mem_cons_of_mem _ hn)) h
    rwa [← List.append_cons] at this
  all_goals simp at h

theorem takeSteps_entry (hs : steps.IsStraight)
    (h : fs.takeSteps follow links l steps = .ok (.entry k e)) :
    k = l ++ steps ∧ fs.get? k = some e := by
  rcases hf.takeSteps_cases hs h with ⟨x, hx, he⟩ | ⟨_, _, _, _, _, _, he⟩
  case inl =>
    obtain ⟨rfl, rfl⟩ : k = l ++ steps ∧ e = x := by simpa using he
    exact ⟨rfl, hx⟩
  case inr => simp at he

theorem takeSteps_vacant (hs : steps.IsStraight) {isDirectory : Bool}
    (h : fs.takeSteps follow links l steps = .ok (.vacant dir name isDirectory)) :
    l ++ steps = dir ++ [name] ∧ fs.get? dir = some .directory ∧
      fs.get? (dir ++ [name]) = none ∧ name.utf8ByteSize ≤ nameLimit ∧ isDirectory = false := by
  rcases hf.takeSteps_cases hs h with ⟨_, _, he⟩ | ⟨_, _, hd, hdir, hn, hs, he⟩
  case inl => simp at he
  case inr =>
    obtain ⟨rfl, rfl, rfl⟩ := by simpa using he
    exact ⟨hd, hdir, hn, hs, rfl⟩

-- Steps lead below where they are taken from, idle ones among them or not.
theorem prefix_of_takeSteps {pieces : List String} (hp : ".." ∉ pieces)
    (h : fs.takeSteps follow links l pieces = .ok (.entry k e)) : l <+: k := by
  rw [takeSteps_eq_takeStepsWith] at h
  fun_induction fs.takeStepsWith (fs.jump follow links) follow l pieces
  case case2 l x hx =>
    obtain rfl : l = k := (by simpa using h : l = k ∧ x = e).1
    exact List.prefix_refl l
  case case3 hl hi ih => exact ih hf (fun hm => hp (List.mem_cons_of_mem _ hm)) h
  case case4 hl hi ih => exact absurd List.mem_cons_self hp
  case case8 ht _ => exact absurd ht (hf [_] _)
  case case9 ht _ => exact absurd ht (hf [_] _)
  case case10 hl hi hu hn x hx ht ih =>
    exact (List.prefix_append _ _).trans
      (ih hf.append (fun hm => hp (List.mem_cons_of_mem _ hm)) h)
  all_goals simp at h

-- Steps that end by leading up lead to a directory, if anywhere.
theorem takeSteps_parent_eq_ok (hs : steps.IsStraight) {named : Named}
    (h : fs.takeSteps follow links l (steps ++ [".."]) = .ok named) :
    ∃ k, named = .entry k .directory := by
  induction steps generalizing l
  case nil =>
    have hl := get?_of_takeSteps_cons h
    rw [List.nil_append, takeSteps_parent hl, takeSteps_nil (get?_dropLast hl)] at h
    exact ⟨l.dropLast, by simpa using h.symm⟩
  case cons step rest hi =>
    rw [List.cons_append] at h
    have hl := get?_of_takeSteps_cons h
    have hr : Location.IsStraight rest := fun n hn => hs n (List.mem_cons_of_mem _ hn)
    obtain ⟨⟨hi', -⟩, hp⟩ := hs step List.mem_cons_self
    by_cases hn : step.utf8ByteSize ≤ nameLimit
    case neg => simp [takeSteps_of_long hl hi' hp (Nat.not_le.mp hn)] at h
    case pos =>
      rw [takeSteps_name hl hi' hp hn] at h
      rcases hx : fs.get? (l ++ [step]) with _ | ⟨_ | _ | target⟩ <;> rw [hx] at h
      case none => simp at h
      case some.link => exact absurd hx (hf [step] target)
      all_goals exact hi hf.append hr h

-- Where there is a file at the end of the way, or can be one.
theorem takeSteps_file {dir d : Location} {n : String} (hd : dir.IsStraight)
    (hn : Path.IsStep name)
    (h : (∃ old, fs.takeSteps follow links l (dir ++ [name]) =
        .ok (.entry (d ++ [n]) (.file old))) ∨
      fs.takeSteps follow links l (dir ++ [name]) = .ok (.vacant d n false)) :
    d = l ++ dir ∧ n = name ∧ name ≠ ".." ∧ name.utf8ByteSize ≤ nameLimit ∧
      fs.get? (l ++ dir) = some .directory ∧ (fs.get? (l ++ dir ++ [name]) = none ∨
        ∃ old, fs.get? (l ++ dir ++ [name]) = some (.file old)) := by
  have hp : name ≠ ".." := by
    rintro rfl
    rcases h with ⟨old, h⟩ | h <;> simpa using hf.takeSteps_parent_eq_ok hd h
  have hs : Location.IsStraight (dir ++ [name]) :=
    hd.append (by simpa [Location.IsStraight] using ⟨hn, hp⟩)
  rcases h with ⟨old, h⟩ | h
  case inl =>
    obtain ⟨he, hx⟩ := hf.takeSteps_entry hs h
    rw [← List.append_assoc, ← List.concat_eq_append, ← List.concat_eq_append,
      List.concat_inj] at he
    obtain ⟨rfl, rfl⟩ := he
    obtain ⟨hname, hdir⟩ := get?_concat hx
    exact ⟨rfl, rfl, hp, hname.size_le, hdir, .inr ⟨old, hx⟩⟩
  case inr =>
    obtain ⟨he, hdir, hv, hb, -⟩ := hf.takeSteps_vacant hs h
    rw [← List.append_assoc, ← List.concat_eq_append, ← List.concat_eq_append,
      List.concat_inj] at he
    obtain ⟨rfl, rfl⟩ := he
    exact ⟨rfl, rfl, hp, hb, hdir, .inl hv⟩

end LinklessBelow

namespace Linkless

variable (hf : fs.Linkless) {follow : Bool} {links : Nat}

include hf

-- Steps lead to the same where the same stands on the way.
theorem takeSteps_congr {b : FileSystem} {pieces : List String} (hp : ".." ∉ pieces)
    (h : ∀ k, k <+: pieces.filter (! Path.isIdle ·) → b.get? (l ++ k) = fs.get? (l ++ k)) :
    b.takeSteps follow links l pieces = fs.takeSteps follow links l pieces := by
  induction pieces generalizing l
  case nil =>
    have hl : b.get? l = fs.get? l := by simpa using h [] List.nil_prefix
    rcases hx : fs.get? l with _ | e
    case none => rw [takeSteps_of_none hx, takeSteps_of_none (hl.trans hx)]
    case some => rw [takeSteps_nil hx, takeSteps_nil (hl.trans hx)]
  case cons step pieces hi =>
    obtain ⟨hd, hp⟩ : step ≠ ".." ∧ ".." ∉ pieces := by simpa [eq_comm] using hp
    have hl : b.get? l = fs.get? l := by simpa using h [] List.nil_prefix
    rcases hx : fs.get? l with _ | e
    case none => rw [takeSteps_of_none hx, takeSteps_of_none (hl.trans hx)]
    case some =>
      by_cases he : e = .directory
      case neg =>
        rw [takeSteps_of_not_directory hx he, takeSteps_of_not_directory (hl.trans hx) he]
      case pos =>
        subst he
        cases hs : Path.isIdle step
        case true =>
          rw [takeSteps_of_isIdle hx hs, takeSteps_of_isIdle (hl.trans hx) hs]
          exact hi hp (by simpa [hs] using h)
        case false =>
          simp only [List.filter_cons, hs, Bool.not_false, if_true] at h
          have hk : b.get? (l ++ [step]) = fs.get? (l ++ [step]) := h [step] (by simp)
          have hr := hi (l := l ++ [step]) hp fun k hk => by
            simpa using h (step :: k) (List.cons_prefix_cons.mpr ⟨rfl, hk⟩)
          by_cases hn : step.utf8ByteSize ≤ nameLimit
          case neg =>
            have hn := Nat.not_le.mp hn
            rw [takeSteps_of_long hx hs hd hn, takeSteps_of_long (hl.trans hx) hs hd hn]
          case pos =>
            rw [takeSteps_name hx hs hd hn, takeSteps_name (hl.trans hx) hs hd hn, hk]
            rcases hy : fs.get? (l ++ [step]) with _ | ⟨_ | _ | _⟩
            case none => rfl
            case some.link => exact absurd hy (hf _ _)
            all_goals exact hr

end Linkless

end FileSystem

end StaticSite
