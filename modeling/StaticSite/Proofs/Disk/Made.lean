import StaticSite.Proofs.Disk.Again
/-!
Which directories come to be when directories are made up to a path, with or without links on the
way. Main statements: the path or one of its ancestors names each of them
(`addsDirectories_makeAncestors`), and if the path does not lead up again, it names one of them
itself (`find_of_makeAncestors`).
-/
namespace StaticSite.Disk

open FileSystem Action

variable {p q r : Path} {ps : List Path} {w v : World} {l : Location} {x : Except IoError Unit}

-- What the paths lead to once directories have been made.
def IsNamed (ps : List Path) (v : World) (l : Location) : Prop :=
  ∃ p ∈ ps, v.files.find v.directory p = .ok (l, .directory)

theorem IsNamed.of_grows {u : World} (h : IsNamed ps v l) (hg : v.Grows u) : IsNamed ps u l := by
  obtain ⟨p, hp, hf⟩ := h
  obtain ⟨e, he, hk⟩ := hg.find hf
  obtain rfl := Entry.SameKind.directory_iff.mp hk
  exact ⟨p, hp, he⟩

theorem IsNamed.cons (h : IsNamed ps v l) : IsNamed (p :: ps) v l :=
  h.imp fun _ h => ⟨List.mem_cons_of_mem _ h.1, h.2⟩

theorem addsDirectories_ensureDirectory (h : exec (ensureDirectory p) w = (x, v)) :
    w.AddsDirectories (IsNamed [p] v) v := by
  rcases x with e | _
  case error =>
    obtain ⟨rfl, -⟩ := exec_ensureDirectory_eq_error h
    exact Std.Refl.refl _
  case ok =>
    rcases ensureDirectory_eq_ok h with ⟨rfl, -⟩ | hm
    case inl => exact Std.Refl.refl _
    case inr =>
      obtain ⟨dir, name, -, hv, -, rfl, hf⟩ := makeDirectory_eq_ok hm
      refine (World.addsDirectories_put hv).mono ?_
      rintro l rfl
      exact ⟨p, List.mem_singleton_self p, hf⟩

-- Every directory that comes to be is one that the paths name in the end.
theorem addsDirectories_makeAncestors (h : exec (makeAncestors ps) w = (x, v)) :
    w.AddsDirectories (IsNamed ps v) v := by
  induction ps generalizing x v
  case nil =>
    obtain rfl := (Prod.ext_iff.mp h).2
    exact Std.Refl.refl _
  case cons p ps hi =>
    rw [makeAncestors] at h
    split at h
    case isTrue =>
      obtain rfl := (Prod.ext_iff.mp h).2
      exact Std.Refl.refl _
    case isFalse =>
      have hp {w v x} (h : exec (ensureDirectory p) w = (x, v)) :
          w.AddsDirectories (IsNamed (p :: ps) v) v := by
        refine (addsDirectories_ensureDirectory h).mono ?_
        rintro l ⟨q, hq, hf⟩
        exact ⟨q, by simp [List.mem_singleton.mp hq], hf⟩
      rw [exec_tryCatch] at h
      rcases he : exec (ensureDirectory p) w with ⟨e | _, u⟩ <;> rw [he] at h <;> dsimp only at h
      case ok =>
        obtain rfl := (Prod.ext_iff.mp h).2
        exact hp he
      case error =>
        obtain ⟨rfl, -⟩ := exec_ensureDirectory_eq_error he
        split at h
        case isFalse =>
          obtain rfl := (Prod.ext_iff.mp h).2
          exact Std.Refl.refl _
        case isTrue =>
          rcases hm : exec (makeAncestors ps) u with ⟨y | _, t⟩
          case error =>
            rw [exec_bind_of_error hm] at h
            obtain rfl := (Prod.ext_iff.mp h).2
            exact (hi hm).mono fun _ => .cons
          case ok =>
            rw [exec_bind_of_ok hm] at h
            have hg := (hp h).grows
            exact IsTrans.trans _ _ _ ((hi hm).mono fun _ hl => (hl.of_grows hg).cons) (hp h)

-- A path leads to what is in the directory that its parent leads to, unless over a link there or up
-- again.
theorem exists_of_find_parent {fs : FileSystem} {cwd k : Location} {e : Entry}
    (hq : p.parent? = some q) (hne : q.pieces ≠ [""]) (hp : ".." ∉ p.pieces)
    (hk : fs.find cwd q = .ok (k, .directory)) (hl : fs.find cwd p = .ok (l, e))
    (ht : ∀ name target, fs.get? (k ++ [name]) ≠ some (.link target)) :
    ∃ name, l = k ++ [name] := by
  obtain ⟨hd, hr⟩ := Path.exists_of_parent? hq
  obtain ⟨-, idle, name, rest, hr, hi, hidle, hrest⟩ := hr.resolve_left hne
  obtain ⟨-, hk⟩ := find_iff_takeSteps.mp hk
  obtain ⟨-, hl⟩ := find_iff_takeSteps.mp hl
  have hg := get?_of_takeSteps hk
  have hu : name ≠ ".." := by
    rintro rfl
    exact hp (by simp [hr])
  have hsteps : idle ++ name :: rest ≠ [] := by simp
  obtain ⟨links, hs⟩ := exists_takeSteps_append hsteps hk
  rw [hr, ← hd, hs, takeSteps_idle_append hg hidle] at hl
  have hb : name.utf8ByteSize ≤ nameLimit := by
    by_contra hb
    simp [takeSteps_of_long hg hi hu (Nat.not_le.mp hb)] at hl
  rw [takeSteps_name hg hi hu hb] at hl
  refine ⟨name, ?_⟩
  rcases hx : fs.get? (k ++ [name]) with _ | _ | c | target <;> rw [hx] at hl <;> dsimp only at hl
  case none => split at hl <;> simp at hl
  case some.link => exact absurd hx (ht name target)
  case some.directory =>
    rw [takeSteps_idle hx hrest] at hl
    exact (Named.entry.inj (Except.ok.inj hl)).1.symm
  case some.file =>
    cases rest
    case nil =>
      rw [takeSteps_nil hx] at hl
      exact (Named.entry.inj (Except.ok.inj hl)).1.symm
    case cons => simp [takeSteps_of_not_directory hx] at hl

-- So if that directory is new, the path leads to something new.
theorem get?_of_find_parent {P : Location → Prop} {k : Location} (ha : w.AddsDirectories P v)
    (hn : w.files.get? k = none) (hq : p.parent? = some q) (hne : q.pieces ≠ [""])
    (hk : v.files.find v.directory q = .ok (k, .directory))
    (hl : v.files.find v.directory p = .ok (l, .directory)) (hp : ".." ∉ p.pieces) :
    w.files.get? l = none := by
  have hw (name : String) : w.files.get? (k ++ [name]) = none := get?_append_of_none hn (by simp)
  obtain ⟨name, rfl⟩ := exists_of_find_parent hq hne hp hk hl fun name target ht =>
    nomatch (hw name).symm.trans (ha.1.of_get? ht (by simp))
  exact hw name

-- Nothing is made up to the root.
theorem pieces_ne_of_makeAncestors {n : Nat}
    (h : exec (makeAncestors (Path.ancestors.go n p)) w = (.ok (), v)) (hne : v ≠ w) :
    p.pieces ≠ [""] := by
  intro hp
  cases n
  case zero => simp [Path.ancestors.go, makeAncestors] at h
  case succ =>
    exact hne (by simpa [Path.ancestors.go, makeAncestors_of_pieces_eq hp, eq_comm] using h)

-- If directories had to be made up to a path, it leads to a new one in the end.
theorem find_of_makeAncestors {n : Nat} (hp : ".." ∉ p.pieces)
    (h : exec (makeAncestors (Path.ancestors.go n p)) w = (.ok (), v)) :
    v = w ∨ ∃ l, v.files.find v.directory p = .ok (l, .directory) ∧ w.files.get? l = none := by
  induction n generalizing p v
  case zero => exact .inl (Prod.ext_iff.mp h).2.symm
  case succ n hi =>
    rcases makeAncestors_cons_eq_ok h with ⟨-, rfl⟩ | he | ⟨t, hn, hm, he⟩
    case inl => exact .inl rfl
    case inr.inl =>
      refine (ensureDirectory_eq_ok he).imp And.left fun hm => ?_
      obtain ⟨dir, name, -, hv, -, -, hf⟩ := makeDirectory_eq_ok hm
      exact ⟨dir ++ [name], hf, hv⟩
    case inr.inr =>
      cases hq : p.parent? <;> rw [hq] at hm
      case none => simp [makeAncestors] at hm
      case some q =>
        have ha := addsDirectories_makeAncestors hm
        have hqp : ".." ∉ q.pieces := fun hm =>
          (Path.mem_pieces_of_parent? hq hm).elim (by simp) hp
        have hne : t ≠ w := by
          rintro rfl
          simp [hn] at he
        obtain ⟨k, hk, hkn⟩ := (hi hqp hm).resolve_left hne
        rcases ensureDirectory_eq_ok he with ⟨rfl, l, hl⟩ | hmade
        case inl =>
          have hr := pieces_ne_of_makeAncestors hm hne
          exact .inr ⟨l, hl, get?_of_find_parent ha hkn hq hr hk hl hp⟩
        case inr =>
          obtain ⟨dir, name, -, hv, -, -, hf⟩ := makeDirectory_eq_ok hmade
          refine .inr ⟨dir ++ [name], hf, Option.eq_none_iff_forall_ne_some.mpr fun e hx => ?_⟩
          simp [ha.1.get? hx] at hv

-- From a directory on the way up, some steps of a path lead on to where all of them do.
theorem exists_takeSteps_of_mem_ancestors {n : Nat} {k : Location} {e : Entry}
    {fs : FileSystem} {cwd : Location} (hq : q ∈ Path.ancestors.go n p)
    (hk : fs.find cwd q = .ok (k, .directory)) (hl : fs.find cwd p = .ok (l, e)) :
    ∃ links, ∃ steps ⊆ p.pieces, fs.takeSteps true links k steps = .ok (.entry l e) := by
  obtain ⟨hd, hr⟩ := Path.exists_of_mem_ancestors hq
  obtain ⟨-, hk⟩ := find_iff_takeSteps.mp hk
  obtain ⟨-, hl⟩ := find_iff_takeSteps.mp hl
  rw [hd] at hk
  rcases hr with hr | ⟨rest, hr⟩
  case inl =>
    rw [hr] at hk
    rw [takeSteps_idle (get?_of_takeSteps_cons hk) (by simp)] at hk
    obtain rfl := (Named.entry.inj (Except.ok.inj hk)).1
    exact ⟨linkLimit, p.pieces, List.Subset.refl _, hl⟩
  case inr =>
    by_cases hne : rest = []
    case pos =>
      rw [hr, hne, List.append_nil, hk] at hl
      obtain ⟨rfl, rfl⟩ := Named.entry.inj (Except.ok.inj hl)
      exact ⟨linkLimit, [], List.nil_subset _, takeSteps_nil (get?_of_takeSteps hk)⟩
    case neg =>
      obtain ⟨links, hs⟩ := exists_takeSteps_append hne hk
      exact ⟨links, rest, by simp [hr], by rw [← hs, ← hr, hl]⟩

-- Nothing is in a new directory that directories are made up to.
theorem get?_concat_of_makeAncestors {n : Nat} (hp : ".." ∉ p.pieces)
    (h : exec (makeAncestors (Path.ancestors.go n p)) w = (.ok (), v))
    (hl : v.files.find v.directory p = .ok (l, .directory)) (hn : w.files.get? l = none)
    (name : String) : v.files.get? (l ++ [name]) = none := by
  have ha := addsDirectories_makeAncestors h
  have hw (k : Location) : w.files.get? (l ++ [name] ++ k) = none := by
    rw [List.append_assoc]
    exact get?_append_of_none hn (by simp)
  rcases ha.1 (l ++ [name]) with hv | ⟨⟨q, hq, hf⟩, -⟩
  case inl => rw [hv, ← hw [], List.append_nil]
  case inr =>
    -- the path would lead on from there to what is above
    obtain ⟨links, steps, hs, hk⟩ := exists_takeSteps_of_mem_ancestors hq hf hl
    have hb : v.files.LinklessBelow (l ++ [name]) := fun k target hk =>
      nomatch (hw k).symm.trans (ha.1.of_get? hk (by simp))
    have hle := (hb.prefix_of_takeSteps (fun hm => hp (hs hm)) hk).length_le
    rw [List.length_append, List.length_singleton] at hle
    omega

-- Nothing has to be made up to the directory that a path is in, if there is one.
theorem makeAncestors_of_enclosing {n : Nat} (hr : p.parent? = some r)
    (hq : p.enclosing? = some q) (hd : w.files.find w.directory q = .ok (l, .directory)) :
    (exec (makeAncestors (Path.ancestors.go n r)) w).2 = w := by
  cases n
  case zero => rfl
  case succ n =>
    obtain rfl : (if r.text.isEmpty then ⟨"."⟩ else r) = q := by
      simpa [Path.enclosing?, hr] using hq
    by_cases ht : r.text.isEmpty
    case pos =>
      obtain rfl : r = ⟨""⟩ := Path.text_inj.mp (String.isEmpty_iff.mp ht)
      rfl
    case neg =>
      rw [if_neg ht] at hd
      rw [Path.ancestors.go, makeAncestors_of_find hd]

-- So if anything is made for a path, it is what the path names.
theorem makeDirectories_of_enclosing (hq : p.enclosing? = some q)
    (hd : w.files.find w.directory q = .ok (l, .directory))
    (h : exec (makeDirectories p) w = (x, v)) :
    v = w ∨ exec (makeDirectory p) w = (.ok (), v) := by
  obtain ⟨r, hr, -⟩ := Option.map_eq_some_iff.mp hq
  have hw {n} := makeAncestors_of_enclosing (n := n) hr hq hd
  rcases x with x | _
  case error =>
    left
    rcases makeAncestors_eq_error h with hv | ⟨-, -, r', hr', hx⟩
    case inl => exact hv
    case inr =>
      obtain rfl := Option.some.inj (hr.symm.trans hr')
      rcases hx with hx | ⟨hx, -⟩ <;> exact (congrArg Prod.snd hx).symm.trans hw
  case ok =>
    rcases makeAncestors_cons_eq_ok h with ⟨-, rfl⟩ | he | ⟨t, hn, hm, he⟩
    case inl => exact .inl rfl
    case inr.inl => exact (ensureDirectory_eq_ok he).imp_left And.left
    case inr.inr =>
      rw [hr] at hm
      obtain rfl : t = w := (congrArg Prod.snd hm).symm.trans hw
      simp [hn] at he

end StaticSite.Disk
