import StaticSite.Proofs.FileSystem.Growth
import StaticSite.Proofs.Walk.Order
/-!
What a walk comes to for certain. Entries may be added while it goes on, but none is taken away.
Main statement: a walk that succeeds has visited every entry that was there when it started, unless
it has left out a directory on the way to it (`exists_mem_visits`).
-/
namespace StaticSite.Walk

open FileSystem Action

variable {ε σ α : Type} {tell : Error → ε} {visit : Visitor ε σ} {s s' : σ} {w w₀ u : World}
  {depth : Nat} {way : List Step} {dir : Path} {l k : Location} {e : Entry}

section

variable {R : World → World → Prop} [Std.Refl R] [IsTrans World R]

theorem keeps_visitEntry (hv : ∀ p d s, Keeps R (visit p d s)) (x : String × Entry) :
    Keeps R (visitEntry tell visit depth way dir s x) := by
  refine Keeps.get.bind fun w => Keeps.bind ?_ fun found => (hv _ _ s).bind fun next => ?_
  · cases enter w.files w.directory way (dir / ⟨x.1⟩) x.2
    case error => exact .throw _
    case ok => exact .pure _
  · cases next
    case none => exact .pure _
    case some s =>
      cases found
      case file => exact .pure _
      case directory => exact fun w => course_visitsBelow.keeps fun v _ => hv _ _ _ v.world

-- If the steps of a fold succeed, each of them has been made, and so have its visits.
theorem exists_of_mem_of_foldlM {f : σ → α → Action ε σ} {as : List α} {a : α}
    (hf : ∀ s a, Keeps R (f s a)) (h : exec (as.foldlM f s) w = (.ok s', u)) (ha : a ∈ as) :
    ∃ t v t' v', R w v ∧ exec (f t a) v = (.ok t', v') ∧
      ∀ visits : σ → World → α → List (Visit σ), visits t v a ⊆ visitsAlong f visits as s w := by
  induction as generalizing s w
  case nil => simp at ha
  case cons b as hi =>
    rw [List.foldlM_cons] at h
    obtain ⟨t, v, hb, h⟩ := exec_bind_eq_ok.mp h
    simp only [visitsAlong, hb]
    rcases List.mem_cons.mp ha with rfl | ha
    case inl =>
      exact ⟨s, w, t, v, Std.Refl.refl w, hb, fun _ => List.subset_append_left _ _⟩
    case inr =>
      obtain ⟨t', v', t'', v'', hr, he, hs⟩ := hi h ha
      exact ⟨t', v', t'', v'', IsTrans.trans _ _ _ ((hf s b).of_exec hb) hr, he,
        fun visits => List.Subset.trans (hs visits) (List.subset_append_right _ _)⟩

end

-- An entry is come to and visited, and then its contents are.
theorem exec_visitEntry_eq_ok {x : String × Entry}
    (h : exec (visitEntry tell visit depth way dir s x) w = (.ok s', u)) :
    ∃ found, enter w.files w.directory way (dir / ⟨x.1⟩) x.2 = .ok found ∧
      ∃ next v, exec (visit (dir / ⟨x.1⟩) found.isDirectory s) w = (.ok next, v) ∧
        ∀ t contents, next = some t → found = .directory contents →
          exec (visitBelow tell visit depth way (dir / ⟨x.1⟩) contents t) v = (.ok s', u) := by
  rw [visitEntry, exec_bind_of_ok (exec_get w)] at h
  cases hf : enter w.files w.directory way (dir / ⟨x.1⟩) x.2 <;> rw [hf, orThrow] at h
  case error => exact absurd (Prod.ext_iff.mp h).1 (by simp)
  case ok found =>
    rw [pure_bind] at h
    obtain ⟨next, v, hv, h⟩ := exec_bind_eq_ok.mp h
    refine ⟨found, rfl, next, v, hv, ?_⟩
    rintro t contents rfl rfl
    exact h

-- A visit is all that is done for an entry that is no directory, or is left out.
theorem exec_visitEntry_of_visit {x : String × Entry} {found : Found} {next : Option σ}
    (hf : enter w.files w.directory way (dir / ⟨x.1⟩) x.2 = .ok found)
    (hv : exec (visit (dir / ⟨x.1⟩) found.isDirectory s) w = (.ok next, u))
    (hn : found = .file ∧ next = some s' ∨ next = none ∧ s' = s) :
    exec (visitEntry tell visit depth way dir s x) w = (.ok s', u) := by
  rw [visitEntry, exec_bind_of_ok (exec_get w), hf, orThrow, pure_bind, exec_bind_of_ok hv]
  rcases hn with ⟨rfl, rfl⟩ | ⟨rfl, rfl⟩ <;> rfl

-- Only a link may lead nowhere.
theorem exists_enter {fs : FileSystem} {cwd : Location} {p : Path}
    (he : ∀ target, e ≠ .link target) : ∃ found, enter fs cwd way p e = .ok found := by
  cases e
  case directory => exact ⟨_, rfl⟩
  case file => exact ⟨_, rfl⟩
  case link target => exact absurd rfl (he target)

-- The contents of a directory are visited once it can be looked into.
theorem exists_list_of_exec_visitBelow (hd : w₀.files.get? l = some .directory)
    (h : exec (visitBelow tell visit depth way l.toPath
      (list w₀.files w₀.directory l.toPath) s) w = (.ok s', u)) :
    ∃ n, depth = n + 1 ∧
      list w₀.files w₀.directory l.toPath = .ok (l, w₀.files.children l) ∧
      exec ((w₀.files.children l).foldlM
        (visitEntry tell visit n (⟨l.toPath, l⟩ :: way) l.toPath) s) w = (.ok s', u) := by
  have hl : list w₀.files w₀.directory l.toPath = _ := list_toPath hd
  rw [hl] at h ⊢
  cases hc : checkPath l.toPath <;> rw [hc, Except.map] at h
  case error => cases depth <;> simp [visitBelow] at h
  case ok =>
    cases depth
    case zero => simp [visitBelow] at h
    case succ n => exact ⟨n, rfl, rfl, h⟩

-- The visits that are made of an entry of a directory and of what that holds.
def visitsOf (tell : Error → ε) (visit : Visitor ε σ) (depth : Nat) (way : List Step) (dir : Path)
    (s : σ) (w : World) (x : String × Entry) : List (Visit σ) :=
  match enter w.files w.directory way (dir / ⟨x.1⟩) x.2 with
  | .error _ => []
  | .ok found =>
    let v : Visit σ := ⟨dir / ⟨x.1⟩, found.isDirectory, s, w⟩
    v :: match found, v.exec visit with
      | .directory contents, (.ok (some s), w) =>
        visitsBelow tell visit depth way (dir / ⟨x.1⟩) contents s w
      | _, _ => []

theorem visitsBelow_succ {entries : List (String × Entry)} :
    visitsBelow tell visit (depth + 1) way dir (.ok (l, entries)) s w =
      visitsAlong (visitEntry tell visit depth (⟨dir, l⟩ :: way) dir)
        (visitsOf tell visit depth (⟨dir, l⟩ :: way) dir) entries s w :=
  rfl

-- An entry is visited, and what a directory holds is, unless that is left out.
theorem exists_mem_visitsOf {x : String × Entry}
    (h : exec (visitEntry tell visit depth way dir s x) w = (.ok s', u)) :
    ∃ v ∈ visitsOf tell visit depth way dir s w x, v.path = dir / ⟨x.1⟩ ∧ v.world = w ∧
      ∃ next u₁, v.exec visit = (.ok next, u₁) ∧ ∀ t, next = some t → x.2 = .directory →
        exec (visitBelow tell visit depth way (dir / ⟨x.1⟩)
          (list w.files w.directory (dir / ⟨x.1⟩)) t) u₁ = (.ok s', u) ∧
        visitsBelow tell visit depth way (dir / ⟨x.1⟩)
          (list w.files w.directory (dir / ⟨x.1⟩)) t u₁ ⊆
            visitsOf tell visit depth way dir s w x := by
  obtain ⟨found, hfound, next, u₁, hnext, hbelow⟩ := exec_visitEntry_eq_ok h
  rw [visitsOf, hfound]
  refine ⟨_, List.mem_cons_self, rfl, rfl, next, u₁, hnext, ?_⟩
  rintro t rfl hx
  obtain rfl : Found.directory (list w.files w.directory (dir / ⟨x.1⟩)) = found := by
    rw [hx] at hfound
    exact Except.ok.inj hfound
  refine ⟨hbelow t _ rfl rfl, ?_⟩
  simp only [Visit.exec, hnext]
  exact List.subset_cons_self _ _

-- The way to an entry leads through directories that are listed when the walk comes to them.
theorem exists_mem_visitsBelow (hv : ∀ p d s, Keeps World.Grows (visit p d s))
    (h : exec (visitBelow tell visit depth way l.toPath
      (list w₀.files w₀.directory l.toPath) s) w = (.ok s', u)) (hw : w₀.Grows w)
    (hx : ∀ m, m <+: k → m ≠ [] → m ≠ k → ∀ d s w u,
      exec (visit (l ++ m).toPath d s) w ≠ (.ok none, u))
    (hg : w₀.files.get? (l ++ k) = some e) (hk : k ≠ []) :
    ∃ v ∈ visitsBelow tell visit depth way l.toPath (list w₀.files w₀.directory l.toPath) s w,
      v.path = (l ++ k).toPath := by
  induction k generalizing l depth way w₀ w s s' u e
  case nil => contradiction
  case cons name k hi =>
    obtain ⟨n, rfl, hl, hf⟩ := exists_list_of_exec_visitBelow (get?_of_append hg hk) h
    rw [← List.singleton_append, ← List.append_assoc] at hg ⊢
    obtain ⟨e', he, hd⟩ : ∃ e', w₀.files.get? (l ++ [name]) = some e' ∧
        (k ≠ [] → e' = .directory) := by
      by_cases hn : k = []
      case pos => exact ⟨e, by rw [← hg, hn, List.append_nil], fun h => absurd hn h⟩
      case neg => exact ⟨.directory, get?_of_append hg hn, fun _ => rfl⟩
    have hp : l.toPath / ⟨name⟩ = (l ++ [name]).toPath :=
      (isStraight_of_get? (get?_concat he).2).isPlain.toPath_div_name (get?_concat he).1.isStep
    obtain ⟨t, w', t', u', hww', hentry, hs⟩ := exists_of_mem_of_foldlM (R := World.Grows)
      (fun s x => keeps_visitEntry hv x) hf (mem_children.mpr he)
    obtain ⟨v, hm, hvp, rfl, next, u₁, hnext, hb⟩ := exists_mem_visitsOf hentry
    rw [hl, visitsBelow_succ]
    dsimp only at hvp hb
    rw [hp] at hvp hb
    by_cases hn : k = []
    case pos => exact ⟨v, hs _ hm, by rw [hvp, hn, List.append_nil]⟩
    case neg =>
      cases next
      case none =>
        rw [Visit.exec, hvp] at hnext
        exact absurd hnext (hx [name] ⟨k, rfl⟩ (by simp) (by simpa [eq_comm] using hn) _ _ _ _)
      case some t₁ =>
        obtain ⟨hb, hsub⟩ := hb t₁ rfl (hd hn)
        have hgrows : v.world.Grows u₁ := (hv v.path v.isDirectory v.state).of_exec hnext
        obtain ⟨e₁, hg₁, -⟩ := (IsTrans.trans _ _ _ hw hww').1 _ _ hg
        have hx' : ∀ m, m <+: k → m ≠ [] → m ≠ k → ∀ d s w u,
            exec (visit (l ++ [name] ++ m).toPath d s) w ≠ (.ok none, u) := by
          intro m hm _ hne
          rw [List.append_assoc]
          exact hx (name :: m) (by simpa using hm) (by simp) (by simpa using hne)
        obtain ⟨y, hy, hyp⟩ := hi hb hgrows hx' hg₁ hn
        exact ⟨y, hs _ (hsub hy), hyp⟩

-- A walk that succeeds has visited all that was there when it started, unless it has left out a
-- directory on the way.
theorem exists_mem_visits (hv : ∀ p d s, Keeps World.Grows (visit p d s))
    (h : exec (run tell visit l.toPath s) w = (.ok s', u))
    (hx : ∀ m, m <+: k → m ≠ [] → m ≠ k → ∀ d s w u,
      exec (visit (l ++ m).toPath d s) w ≠ (.ok none, u))
    (hg : w.files.get? (l ++ k) = some e) (hk : k ≠ []) :
    ∃ v ∈ visits tell visit l.toPath s w, v.path = (l ++ k).toPath := by
  rw [run, exec_bind_of_ok (exec_get w)] at h
  have hd : w.files.get? l = some .directory := get?_of_append hg hk
  have hr : w.files.resolve w.directory false l.toPath = _ := resolve_toPath_eq_map hd (by simp)
  cases hc : checkPath l.toPath <;> rw [hc] at hr
  case error y =>
    have hs : start w.files w.directory l.toPath = .error (.io l.toPath y) := by
      rw [start, hr]
      rfl
    rw [hs] at h
    exact absurd (Prod.ext_iff.mp h).1 (by simp [orThrow])
  case ok =>
    have hs : start w.files w.directory l.toPath =
        .ok (.directory (list w.files w.directory l.toPath)) := by
      rw [start, hr]
      rfl
    rw [hs] at h
    rw [visits, hs]
    exact exists_mem_visitsBelow hv h (Std.Refl.refl w) hx hg hk

end StaticSite.Walk
