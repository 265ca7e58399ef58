import StaticSite.Proofs.FileSystem.Canonical
import StaticSite.Proofs.Walk.Visits
/-!
The directories that the visits of a walk are made in. Main statements: an entry is visited in the
directory that the walk starts at or in one that has been visited before (`parent_of_mem_visits`),
and unless it is a link it is right in that directory (`IsEntryOf.location_eq`).
-/
namespace StaticSite.Walk

open FileSystem
open scoped List

variable {ε σ α : Type} {tell : Error → ε} {visit : Visitor ε σ} {s : σ} {w w₀ : World}
  {vs : List (Visit σ)} {v : Visit σ} {r : Except ε σ × World} {p : Path}

namespace Visit

-- Where the entry is, links followed.
def location? (v : Visit σ) : Option Location :=
  (v.world.files.find v.world.directory v.path).toOption.map (·.1)

-- Whether the entry is a link.
def IsLink (v : Visit σ) : Prop :=
  ∃ l target, v.world.files.resolve v.world.directory false v.path = .ok (.entry l (.link target))

theorem mem_location? {l : Location} :
    l ∈ v.location? ↔ ∃ e, v.world.files.find v.world.directory v.path = .ok (l, e) := by
  unfold location?
  cases v.world.files.find v.world.directory v.path <;>
    simp [Except.toOption, Prod.ext_iff, eq_comm]

end Visit

-- The entry has been listed in a directory of a world.
def IsEntryOf (w : World) (dir : Path) (v : Visit σ) : Prop :=
  ∃ l name e, w.files.find w.directory dir = .ok (l, .directory) ∧
    w.files.get? (l ++ [name]) = some e ∧ v.path = dir / ⟨name⟩

theorem IsEntryOf.path_eq (h : IsEntryOf w p v) :
    ∃ name, IsName name ∧ v.path = p / Location.toRelative [name] := by
  obtain ⟨l, name, e, -, hx, hp⟩ := h
  exact ⟨name, isName_of_get? hx name (by simp), hp.trans Path.below_name⟩

-- An entry that is no link is right in the directory that it has been listed in.
theorem IsEntryOf.location_eq {dir l : Location} (h : IsEntryOf w dir.toPath v) (hd : dir.IsPlain)
    (hg : w.Grows v.world) (hl : l ∈ v.location?) (hn : ¬v.IsLink) :
    ∃ k name, w.files.find w.directory dir.toPath = .ok (k, .directory) ∧ l = k ++ [name] := by
  obtain ⟨k, name, e, hf, hx, hp⟩ := h
  refine ⟨k, name, hf, ?_⟩
  have hname : IsName name := isName_of_get? hx name (by simp)
  rw [hd.toPath_div_name hname.isStep] at hp
  obtain ⟨e', hf, hk⟩ := hg.find hf
  obtain rfl := Entry.SameKind.directory_iff.mp hk
  obtain ⟨x, hx, -⟩ := hg.1 _ _ hx
  obtain ⟨y, hy⟩ := Visit.mem_location?.mp hl
  rw [hp] at hy
  have hs := hd.concat hname.isStep
  have hc := ((resolve_toPath_eq_ok hs).mp (find_eq_ok.mp hy)).1
  by_cases ht : ∃ target, x = .link target
  case pos =>
    obtain ⟨target, rfl⟩ := ht
    refine absurd ⟨k ++ [name], target, ?_⟩ hn
    rw [hp]
    exact resolve_toPath_concat hs hc hf hx (by simp)
  case neg =>
    have hz : v.world.files.resolve v.world.directory true (dir ++ [name]).toPath =
        .ok (.entry (k ++ [name]) x) :=
      resolve_toPath_concat hs hc hf hx fun _ target he => ht ⟨target, he⟩
    obtain ⟨rfl, rfl⟩ : k ++ [name] = l ∧ x = y := by simpa [hz] using find_eq_ok.mp hy
    rfl

-- The worlds that the visits are made in come one after another.
theorem Course.worlds {R : World → World → Prop} [Std.Refl R] [IsTrans World R]
    (h : Course visit s w vs r) (hr : ∀ v ∈ vs, R v.world (v.exec visit).2) :
    (∀ v ∈ vs, R w v.world) ∧ vs.Pairwise (R ·.world ·.world) := by
  induction h
  case done => simp
  case lost => simp
  case failed => simpa using Std.Refl.refl _
  case step v x u vs r hv _ hi =>
    have hu := hr v List.mem_cons_self
    rw [hv] at hu
    obtain ⟨hw, hp⟩ := hi fun v hv => hr v (List.mem_cons_of_mem _ hv)
    have hs : ∀ v' ∈ vs, R v.world v'.world := fun v' h => IsTrans.trans _ _ _ hu (hw v' h)
    exact ⟨List.forall_mem_cons.mpr ⟨Std.Refl.refl _, hs⟩, List.pairwise_cons.mpr ⟨hs, hp⟩⟩

theorem exists_sublist_of_mem_visitsAlong {f : σ → α → Action ε σ}
    {visits : σ → World → α → List (Visit σ)} {as : List α}
    (h : v ∈ visitsAlong f visits as s w) :
    ∃ a ∈ as, ∃ s' w', v ∈ visits s' w' a ∧ visits s' w' a <+ visitsAlong f visits as s w := by
  induction as generalizing s w
  case nil => simp [visitsAlong] at h
  case cons a as hi =>
    rw [visitsAlong] at h ⊢
    cases List.mem_append.mp h
    case inl h => exact ⟨a, by simp, s, w, h, List.sublist_append_left _ _⟩
    case inr h =>
      split at h
      case h_1 s' w' he =>
        obtain ⟨b, hb, s'', w'', hv, hs⟩ := hi h
        exact ⟨b, List.mem_cons_of_mem _ hb, s'', w'', hv, hs.trans (List.sublist_append_right _ _)⟩
      case h_2 => simp at h

theorem parent_of_mem_visitsBelow {depth : Nat} {way : List Step}
    (h : v ∈ visitsBelow tell visit depth way p (list w₀.files w₀.directory p) s w) :
    IsEntryOf w₀ p v ∨
      ∃ u, [u, v] <+ visitsBelow tell visit depth way p (list w₀.files w₀.directory p) s w ∧
        u.isDirectory ∧ (∃ x u', u.exec visit = (.ok (some x), u')) ∧
        IsEntryOf u.world u.path v := by
  induction depth generalizing w₀ way p s w
  case zero => simp [visitsBelow] at h
  case succ depth hi =>
    cases hl : list w₀.files w₀.directory p <;> rw [hl] at h
    case error => simp [visitsBelow] at h
    case ok x =>
      obtain ⟨l, entries⟩ := x
      obtain ⟨hf, rfl⟩ := list_eq_ok hl
      obtain ⟨⟨name, e⟩, hx, s', w', hv, hs⟩ := exists_sublist_of_mem_visitsAlong h
      dsimp only at hv hs
      split at hv
      case h_1 => simp at hv
      case h_2 found he =>
        rw [he] at hs
        dsimp only at hs
        cases List.mem_cons.mp hv
        case inl hv => exact .inl ⟨l, name, e, hf, mem_children.mp hx, congrArg Visit.path hv⟩
        case inr hv =>
          split at hv
          case h_2 => simp at hv
          case h_1 s'' w'' _ hy =>
            obtain rfl := enter_eq_directory he
            rw [hy] at hs
            cases hi hv
            case inl hc =>
              refine .inr ⟨_, .trans ?_ hs, rfl, ⟨_, _, hy⟩, hc⟩
              exact (List.singleton_sublist.mpr hv).cons_cons _
            case inr hc =>
              obtain ⟨u, hu, hc⟩ := hc
              exact .inr ⟨u, (hu.cons _).trans hs, hc⟩

-- An entry is visited in the directory that the walk starts at or in one that it has entered.
theorem parent_of_mem_visits (h : v ∈ visits tell visit p s w) :
    IsEntryOf w p v ∨ ∃ u, [u, v] <+ visits tell visit p s w ∧ u.isDirectory ∧
      (∃ x u', u.exec visit = (.ok (some x), u')) ∧ IsEntryOf u.world u.path v := by
  unfold visits at h ⊢
  split at h
  case h_1 contents hs =>
    obtain rfl := start_eq_directory hs
    simpa only [hs] using parent_of_mem_visitsBelow h
  case h_2 => simp at h

end StaticSite.Walk
