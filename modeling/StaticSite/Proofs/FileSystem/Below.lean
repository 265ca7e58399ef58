import StaticSite.Proofs.FileSystem.Canonical
import StaticSite.Proofs.Path.Below
/-!
What stands below a directory, named by what is put behind a path of the directory. That path may be
written in any way and lead over links. Main statements: the steps below are taken from the
directory on (`exists_resolve_below`), and without links there they lead nowhere else
(`Opens.accepts_of_resolveLast`, `Opens.file_of_resolve`).
-/
namespace StaticSite.FileSystem

open Location

-- The path leads to a directory, with no links in it.
structure Opens (fs : FileSystem) (cwd : Location) (p : Path) (l : Location) : Prop where
  find_eq : fs.find cwd p = .ok (l, .directory)
  linkless : fs.LinklessBelow l

variable {fs : FileSystem} {cwd l k dir d : Location} {name n : String} {e : Entry} {p : Path}

theorem resolve_eq_ok {follow : Bool} {named : Named} : fs.resolve cwd follow p = .ok named ↔
    checkPath p = .ok () ∧
      fs.takeSteps follow linkLimit (if p.isAbsolute then [] else cwd) p.pieces = .ok named := by
  unfold resolve
  cases checkPath p <;> simp [bind, Except.bind]

theorem find_iff_takeSteps :
    fs.find cwd p = .ok (l, e) ↔ checkPath p = .ok () ∧
      fs.takeSteps true linkLimit (if p.isAbsolute then [] else cwd) p.pieces = .ok (.entry l e) :=
  find_eq_ok.trans resolve_eq_ok

theorem takeSteps_idle_append {follow : Bool} {links : Nat} {steps rest : List String}
    (h : fs.get? l = some .directory) (hi : ∀ n ∈ steps, Path.isIdle n) :
    fs.takeSteps follow links l (steps ++ rest) = fs.takeSteps follow links l rest := by
  induction steps
  case nil => rfl
  case cons step steps ih =>
    rw [List.cons_append, takeSteps_of_isIdle h (hi step List.mem_cons_self)]
    exact ih fun n hn => hi n (List.mem_cons_of_mem _ hn)

theorem takeSteps_idle {follow : Bool} {links : Nat} {steps : List String}
    (h : fs.get? l = some .directory) (hi : ∀ n ∈ steps, Path.isIdle n) :
    fs.takeSteps follow links l steps = .ok (.entry l .directory) := by
  rw [← List.append_nil steps, takeSteps_idle_append h hi, takeSteps_nil h]

-- Idle steps at the end lead nowhere.
theorem takeSteps_of_append_idle {links : Nat} {steps rest : List String}
    (hi : ∀ n ∈ rest, Path.isIdle n)
    (h : fs.takeSteps true links k (steps ++ rest) = .ok (.entry l .directory)) :
    fs.takeSteps true links k steps = .ok (.entry l .directory) := by
  by_cases hr : rest = []
  case pos => simpa [hr] using h
  case neg =>
    obtain ⟨d, hd⟩ := exists_takeSteps_of_append hr h
    obtain ⟨n, hn⟩ := exists_takeSteps_append hr hd
    have ht : fs.takeSteps true n d rest = .ok (.entry d .directory) :=
      takeSteps_idle (get?_of_takeSteps hd) hi
    obtain rfl : d = l := by simpa [hn, ht] using h
    exact hd

theorem takeSteps_base (h : fs.find cwd p = .ok (l, .directory)) :
    fs.takeSteps true linkLimit (if p.isAbsolute then [] else cwd) p.base =
      .ok (.entry l .directory) := by
  have ht := (find_iff_takeSteps.mp h).2
  rcases Path.pieces_eq_base (p := p) with hp | hp <;> rw [hp] at ht
  case inl => exact ht
  case inr =>
    have hi : ∀ n ∈ [""], Path.isIdle n := by simp
    exact takeSteps_of_append_idle hi ht

-- The steps below a directory are taken from there, whatever links have led to it.
theorem exists_resolve_below (h : fs.find cwd p = .ok (l, .directory)) (hk : k.IsPlain)
    (hne : k ≠ []) : ∃ links, ∀ follow, fs.resolve cwd follow (p / k.toRelative) =
      (checkPath (p / k.toRelative)).bind fun _ => fs.takeSteps follow links l k := by
  obtain ⟨links, ht⟩ := exists_takeSteps_append hne (takeSteps_base h)
  refine ⟨links, fun follow => ?_⟩
  rw [resolve, Path.pieces_toRelative_below hk hne,
    Path.isAbsolute_below (hk.isAbsolute_toRelative hne), ht]
  rfl

theorem exists_resolveLast_below (h : fs.find cwd p = .ok (l, .directory))
    (hp : IsPlain (dir ++ [name])) : ∃ links, fs.resolveLast cwd (p / toRelative (dir ++ [name])) =
      (checkPath (p / toRelative (dir ++ [name]))).bind fun _ =>
        (fs.takeSteps true links l dir).bind (lastStep name) := by
  have hs := Path.pieces_toRelative_below (p := p) hp (by simp)
  rw [← List.append_assoc] at hs
  have ht : ∃ links, fs.takeSteps true linkLimit (if p.isAbsolute then [] else cwd)
      (p.base ++ dir) = fs.takeSteps true links l dir := by
    by_cases hd : dir = []
    case pos =>
      refine ⟨0, ?_⟩
      rw [hd, List.append_nil, takeSteps_base h, takeSteps_nil (get?_of_find h)]
    case neg =>
      obtain ⟨links, ht⟩ := exists_takeSteps_append hd (takeSteps_base h)
      exact ⟨links, ht true⟩
  obtain ⟨links, ht⟩ := ht
  exact ⟨links, by rw [resolveLast_of_pieces hs (hp name (by simp)).1 (by simp),
    Path.isAbsolute_below (hp.isAbsolute_toRelative (by simp)), ht]⟩

-- The root is a directory below which everything stands.
theorem Linkless.opens_root (hf : fs.Linkless) : fs.Opens cwd (toPath []) [] where
  find_eq := FileSystem.find_toPath get?_nil (by decide) (by simp)
  linkless := hf.below

theorem checkPath_ofPieces {ps rest : List String} (hc : checkPath p = .ok ())
    (hp : p.pieces = ps ++ rest) (hne : (Path.ofPieces p.isAbsolute ps).text ≠ "") :
    checkPath (Path.ofPieces p.isAbsolute ps) = .ok () := by
  obtain ⟨text, ht⟩ := Path.text_ofPieces_of_append hp
  rw [checkPath_eq_ok] at hc ⊢
  simp only [ht, String.toList_append, List.mem_append, not_or,
    String.utf8ByteSize_append] at hc
  exact ⟨hc.1.1, hne, by omega⟩

-- A path that leads to a directory still does so without idle steps at its end.
theorem find_ofPieces {ps rest : List String} (h : fs.find cwd p = .ok (l, .directory))
    (hp : p.pieces = ps ++ rest) (hi : ∀ n ∈ rest, Path.isIdle n)
    (hne : (Path.ofPieces p.isAbsolute ps).text ≠ "") :
    fs.find cwd (Path.ofPieces p.isAbsolute ps) = .ok (l, .directory) := by
  obtain ⟨hc, ht⟩ := find_iff_takeSteps.mp h
  rw [hp] at ht
  have ht := takeSteps_of_append_idle hi ht
  refine find_iff_takeSteps.mpr ⟨checkPath_ofPieces hc hp hne, ?_⟩
  rw [Path.isAbsolute_ofPieces_of_append hp, Path.pieces_ofPieces_of_append hp]
  generalize (if p.isAbsolute then [] else cwd) = start at ht ⊢
  by_cases hps : ps = []
  case neg => rwa [if_neg hps]
  case pos =>
    subst hps
    have hs : fs.get? start = some .directory := by
      cases hx : fs.get? start
      case none => simp [takeSteps_of_none hx] at ht
      case some x =>
        obtain ⟨-, rfl⟩ : start = l ∧ x = .directory := by simpa [takeSteps_nil hx] using ht
        rfl
    rw [if_pos rfl, takeSteps_of_isIdle hs Path.isIdle_empty, ht]

-- Idle steps at its end do not matter the other way round either.
theorem find_of_ofPieces {ps rest : List String}
    (h : fs.find cwd (Path.ofPieces p.isAbsolute ps) = .ok (l, .directory))
    (hp : p.pieces = ps ++ rest) (hi : ∀ n ∈ rest, Path.isIdle n) (hc : checkPath p = .ok ()) :
    fs.find cwd p = .ok (l, .directory) := by
  obtain ⟨-, ht⟩ := find_iff_takeSteps.mp h
  rw [Path.isAbsolute_ofPieces_of_append hp, Path.pieces_ofPieces_of_append hp] at ht
  refine find_iff_takeSteps.mpr ⟨hc, ?_⟩
  rw [hp]
  by_cases hps : ps = []
  case pos =>
    rw [if_pos hps] at ht
    have hs := get?_of_takeSteps_cons ht
    rw [takeSteps_idle hs (by simp)] at ht
    rw [hps, List.nil_append, takeSteps_idle hs hi, ht]
  case neg =>
    rw [if_neg hps] at ht
    by_cases hr : rest = []
    case pos => rwa [hr, List.append_nil]
    case neg =>
      obtain ⟨links, hx⟩ := exists_takeSteps_append hr ht
      rw [hx, takeSteps_idle (get?_of_takeSteps ht) hi]

-- Where a name can be made at the end of a path, only slashes follow the name.
theorem resolveLast_eq_name (h : fs.resolveLast cwd p = .ok (.name dir name)) :
    checkPath p = .ok () ∧ Path.isIdle name = false ∧ name ≠ ".." ∧
      name.utf8ByteSize ≤ nameLimit ∧ ∃ ps rest, p.pieces = ps ++ name :: rest ∧
        (∀ n ∈ rest, n = "") ∧ fs.takeSteps true linkLimit (if p.isAbsolute then [] else cwd) ps =
          .ok (.entry dir .directory) := by
  have ha := List.takeWhile_append_dropWhile (p := (· == "")) (l := p.pieces.reverse)
  rw [resolveLast] at h
  cases hc : checkPath p <;> rw [hc] at h <;> simp only [bind, Except.bind, reduceCtorEq] at h
  cases hs : p.pieces.reverse.dropWhile (· == "") <;> rw [hs] at h ha
  case nil => simp [pure, Except.pure] at h
  case cons step before =>
    dsimp only at h
    rcases hb : fs.takeSteps true linkLimit (if p.isAbsolute then [] else cwd) before.reverse with
      y | ⟨d, _ | _ | _⟩ | _ <;> rw [hb] at h <;> dsimp only at h
    case ok.entry.directory =>
      split at h
      case isTrue => simp [pure, Except.pure] at h
      case isFalse hn =>
        split at h
        case isTrue => simp [throw, throwThe, MonadExceptOf.throw] at h
        case isFalse hl =>
          obtain ⟨rfl, rfl⟩ : d = dir ∧ step = name := by simpa [pure, Except.pure] using h
          obtain ⟨hi, hu⟩ : Path.isIdle step = false ∧ step ≠ ".." := by simpa using hn
          refine ⟨rfl, hi, hu, Nat.not_lt.mp hl, before.reverse,
            (p.pieces.reverse.takeWhile (· == "")).reverse, ?_, fun n hn => ?_, hb⟩
          · simpa using (congrArg List.reverse ha).symm
          · simpa using List.mem_takeWhile_imp (List.mem_reverse.mp hn)
    all_goals simp [throw, throwThe, MonadExceptOf.throw] at h

-- Where a name can be made at the end of a path stays the same as long as nothing is taken away.
theorem Grows.resolveLast {a b : FileSystem} (h : a.Grows b)
    (ha : a.resolveLast cwd p = .ok (.name dir name)) :
    b.resolveLast cwd p = .ok (.name dir name) := by
  unfold FileSystem.resolveLast at ha ⊢
  cases hc : checkPath p <;> rw [hc] at ha <;> simp only [bind, Except.bind, reduceCtorEq] at ha ⊢
  cases hs : p.pieces.reverse.dropWhile (· == "") <;> rw [hs] at ha <;> dsimp only at ha ⊢
  case nil => exact ha
  case cons step before =>
    rcases ht : a.takeSteps true linkLimit (if p.isAbsolute then [] else cwd) before.reverse with
      y | ⟨d, _ | _ | _⟩ | _ <;> rw [ht] at ha <;> dsimp only at ha
    case ok.entry.directory =>
      obtain ⟨e, hb, hk⟩ := h.takeSteps ht
      obtain rfl := Entry.SameKind.directory_iff.mp hk
      rw [hb]
      exact ha
    all_goals simp [throw, throwThe, MonadExceptOf.throw] at ha

-- What stands under that name is what the path names.
theorem resolve_of_resolveLast {follow : Bool}
    (hr : fs.resolveLast cwd p = .ok (.name dir name))
    (hg : fs.get? (dir ++ [name]) = some .directory) :
    fs.resolve cwd follow p = .ok (.entry (dir ++ [name]) .directory) := by
  obtain ⟨hc, hi, hu, hb, ps, rest, hp, hrest, ht⟩ := resolveLast_eq_name hr
  obtain ⟨links, hx⟩ := exists_takeSteps_append (List.cons_ne_nil name rest) ht
  refine resolve_eq_ok.mpr ⟨hc, ?_⟩
  rw [hp, hx, takeSteps_name (get?_of_takeSteps ht) hi hu hb, hg]
  exact takeSteps_idle hg fun n hn => by simp [hrest n hn]

-- Unless slashes come behind the name, this goes for whatever is no link.
theorem find_of_resolveLast (hr : fs.resolveLast cwd p = .ok (.name dir name))
    (hp : p.pieces.getLast? ≠ some "") (hg : fs.get? (dir ++ [name]) = some e)
    (he : ∀ target, e ≠ .link target) : fs.find cwd p = .ok (dir ++ [name], e) := by
  obtain ⟨hc, hi, hu, hb, ps, rest, hs, hrest, ht⟩ := resolveLast_eq_name hr
  obtain rfl : rest = [] := by
    by_contra hne
    rw [hs, List.getLast?_append_cons, List.getLast?_cons_of_ne_nil hne,
      List.getLast?_eq_some_getLast hne] at hp
    exact hp (congrArg some (hrest _ (List.getLast_mem hne)))
  obtain ⟨links, hx⟩ := exists_takeSteps_append (List.cons_ne_nil name []) ht
  refine find_iff_takeSteps.mpr ⟨hc, ?_⟩
  rw [hs, hx]
  exact takeSteps_of_get? hg fun _ => he

-- If a name can be made where a path ends, the path leads nowhere.
theorem get?_ne_none_of_resolve {follow : Bool} (h : fs.resolve cwd follow p = .ok (.entry l e))
    (hr : fs.resolveLast cwd p = .ok (.name dir name)) : fs.get? (dir ++ [name]) ≠ none := by
  intro hv
  obtain ⟨-, hi, hu, hb, ps, rest, hp, -, ht⟩ := resolveLast_eq_name hr
  obtain ⟨-, hf⟩ := resolve_eq_ok.mp h
  -- the slashes behind the name only say that it names a directory
  obtain ⟨links, hx⟩ := exists_takeSteps_append (List.cons_ne_nil name rest) ht
  rw [hp, hx, takeSteps_name (get?_of_takeSteps ht) hi hu hb, hv] at hf
  dsimp only at hf
  split at hf <;> simp at hf

theorem get?_ne_none_of_find (h : fs.find cwd p = .ok (l, e))
    (hr : fs.resolveLast cwd p = .ok (.name dir name)) : fs.get? (dir ++ [name]) ≠ none :=
  get?_ne_none_of_resolve (find_eq_ok.mp h) hr

-- A path below one that is well-formed can only be too long.
theorem checkPath_below_eq {q : Path} (h : checkPath p = .ok ()) (hq : q.isAbsolute = false)
    (h₀ : '\x00' ∉ q.text.toList) : checkPath (p / q) =
      if (p / q).text.utf8ByteSize ≥ pathLimit then .error .invalidFilename else .ok () := by
  obtain ⟨hp, hne, -⟩ := checkPath_eq_ok.mp h
  have hn : '\x00' ∉ (p / q).text.toList := by
    rw [Path.text_below hq]
    simp only [String.toList_append, List.mem_append, not_or]
    refine ⟨⟨hp, ?_⟩, h₀⟩
    split <;> decide
  have he : (p / q).text.isEmpty = false := by
    simp [Path.text_below hq, hne]
  rw [checkPath, if_neg hn, he, if_neg Bool.false_ne_true]

theorem checkPath_below {q : Path} (h : checkPath p = .ok ()) (hq : q.isAbsolute = false)
    (h₀ : '\x00' ∉ q.text.toList) (hb : (p / q).text.utf8ByteSize < pathLimit) :
    checkPath (p / q) = .ok () := by
  rw [checkPath_below_eq h hq h₀, if_neg (Nat.not_le.mpr hb)]

-- A way below that is no longer than another is not too long either.
theorem checkPath_below_of_le {m : Location} (h : checkPath p = .ok ()) (hk : k.IsPlain)
    (hne : k ≠ []) (h₀ : '\x00' ∉ k.toRelative.text.toList) (hm : m.IsPlain) (hme : m ≠ [])
    (hb : (p / m.toRelative).text.utf8ByteSize < pathLimit)
    (hle : k.toRelative.text.utf8ByteSize ≤ m.toRelative.text.utf8ByteSize) :
    checkPath (p / k.toRelative) = .ok () := by
  have hk := hk.isAbsolute_toRelative hne
  refine checkPath_below h hk h₀ ?_
  rw [Path.text_below (hm.isAbsolute_toRelative hme)] at hb
  rw [Path.text_below hk]
  simp only [String.utf8ByteSize_append] at hb ⊢
  omega

theorem isName_of_checkPath_below (hc : checkPath (p / toRelative (dir ++ [name])) = .ok ())
    (hp : IsPlain (dir ++ [name])) (hu : name ≠ "..") (hb : name.utf8ByteSize ≤ nameLimit) :
    IsName name := by
  refine isName_iff.mpr ⟨hp name (by simp), hu, hb, fun hm => ?_⟩
  have hn := (checkPath_eq_ok.mp hc).1
  rw [Path.below_eq_ofPieces hp (by simp), ← List.append_assoc, Path.text_ofPieces_concat,
    String.toList_append] at hn
  exact hn (List.mem_append_right _ hm)

namespace Opens

variable (h : fs.Opens cwd p l)

include h

theorem get?_eq : fs.get? l = some .directory :=
  get?_of_find h.find_eq

-- Where a name can be made at the end of a path below the directory.
theorem accepts_of_resolveLast (hd : dir.IsStraight) (hn : Path.IsStep name)
    (hr : fs.resolveLast cwd (p / toRelative (dir ++ [name])) = .ok (.name d n)) :
    d = l ++ dir ∧ n = name ∧ IsName name ∧ fs.get? (l ++ dir) = some .directory := by
  have hp : IsPlain (dir ++ [name]) := hd.isPlain.concat hn
  obtain ⟨links, ht⟩ := exists_resolveLast_below h.find_eq hp
  rw [ht] at hr
  cases hc : checkPath (p / toRelative (dir ++ [name]))
  case error => simp [hc, Except.bind] at hr
  case ok =>
    rw [hc] at hr
    cases hx : fs.takeSteps true links l dir
    case error => simp [hx, Except.bind] at hr
    case ok named =>
      obtain ⟨rfl, rfl, hu, hb⟩ := lastStep_eq_name.mp (by simpa [hx, Except.bind] using hr)
      obtain ⟨rfl, hg⟩ := h.linkless.takeSteps_entry hd hx
      exact ⟨rfl, rfl, isName_of_checkPath_below hc hp hu hb, hg⟩

-- Where a path below the directory names a file, or one can be written.
theorem file_of_resolve (hd : dir.IsStraight) (hn : Path.IsStep name)
    (hr : (∃ old, fs.resolve cwd true (p / toRelative (dir ++ [name])) =
        .ok (.entry (d ++ [n]) (.file old))) ∨
      fs.resolve cwd true (p / toRelative (dir ++ [name])) = .ok (.vacant d n false)) :
    d = l ++ dir ∧ n = name ∧ IsName name ∧ fs.get? (l ++ dir) = some .directory ∧
      (fs.get? (l ++ dir ++ [name]) = none ∨
        ∃ old, fs.get? (l ++ dir ++ [name]) = some (.file old)) := by
  have hp : IsPlain (dir ++ [name]) := hd.isPlain.concat hn
  obtain ⟨links, ht⟩ := exists_resolve_below h.find_eq hp (by simp)
  rw [ht] at hr
  cases hc : checkPath (p / toRelative (dir ++ [name])) <;> rw [hc] at hr
  case error => simp [Except.bind] at hr
  case ok =>
    obtain ⟨rfl, rfl, hu, hb, hg, hx⟩ := h.linkless.takeSteps_file hd hn hr
    exact ⟨rfl, rfl, isName_of_checkPath_below hc hp hu hb, hg, hx⟩

-- What a path below the directory leads to stands right there.
theorem find_below {e : Entry} (hk : k.IsStraight) (hne : k ≠ [])
    (hf : fs.find cwd (p / k.toRelative) = .ok (d, e)) : d = l ++ k ∧ fs.get? d = some e := by
  obtain ⟨links, ht⟩ := exists_resolve_below h.find_eq hk.isPlain hne
  have hf := find_eq_ok.mp hf
  rw [ht] at hf
  cases hc : checkPath (p / k.toRelative) <;> rw [hc] at hf
  case error => simp [Except.bind] at hf
  case ok => exact h.linkless.takeSteps_entry hk hf

end Opens

-- A path leads on from a directory only.
theorem eq_directory_of_find_below {e' : Entry} (h : fs.find cwd p = .ok (l, e)) (hk : k.IsPlain)
    (hne : k ≠ []) (hf : fs.find cwd (p / k.toRelative) = .ok (d, e')) : e = .directory := by
  have ht := (find_iff_takeSteps.mp h).2
  have hb := (find_iff_takeSteps.mp hf).2
  rw [Path.pieces_toRelative_below hk hne, Path.isAbsolute_below (hk.isAbsolute_toRelative hne)]
    at hb
  obtain ⟨d', hd⟩ := exists_takeSteps_of_append hne hb
  rcases Path.pieces_eq_base (p := p) with hp | hp <;> rw [hp] at ht
  case inl =>
    rw [ht] at hd
    simp_all
  case inr =>
    obtain ⟨links, hx⟩ := exists_takeSteps_append (List.cons_ne_nil "" []) hd
    have hi : fs.takeSteps true links d' [""] = .ok (.entry d' .directory) :=
      takeSteps_idle (get?_of_takeSteps hd) (by simp)
    rw [hx, hi] at ht
    simp_all

-- What stands below a directory is found there, unless the path is too long.
theorem find_below_of_get? (h : fs.find cwd p = .ok (l, .directory)) (hk : k.IsPlain) (hne : k ≠ [])
    (hc : checkPath (p / k.toRelative) = .ok ()) (hg : fs.get? (l ++ k) = some e)
    (he : ∀ target, e ≠ .link target) : fs.find cwd (p / k.toRelative) = .ok (l ++ k, e) := by
  obtain ⟨links, hr⟩ := exists_resolve_below h hk hne
  rw [find_eq_ok, hr, hc]
  exact takeSteps_of_get? hg fun _ => he

-- What is not in a directory is not found there, and nothing below it.
theorem not_find_below (h : fs.find cwd p = .ok (l, .directory)) (hk : IsStraight (name :: k))
    (hn : fs.get? (l ++ [name]) = none) :
    fs.find cwd (p / toRelative (name :: k)) ≠ .ok (d, e) := by
  intro hf
  obtain ⟨links, hr⟩ := exists_resolve_below h hk.isPlain (List.cons_ne_nil name k)
  obtain ⟨⟨hi, -⟩, hu⟩ := hk name List.mem_cons_self
  have hd := get?_of_find h
  have hf := find_eq_ok.mp hf
  rw [hr] at hf
  cases hc : checkPath (p / toRelative (name :: k)) <;> rw [hc] at hf <;>
    dsimp only [Except.bind] at hf
  case error => simp at hf
  case ok =>
    by_cases hb : name.utf8ByteSize ≤ nameLimit
    case neg => simp [takeSteps_of_long hd hi hu (Nat.not_le.mp hb)] at hf
    case pos =>
      rw [takeSteps_name hd hi hu hb, hn] at hf
      dsimp only at hf
      split at hf <;> simp at hf

-- Any name can be made in a directory, unless the path is too long.
theorem resolveLast_below_of_get? (h : fs.find cwd p = .ok (l, .directory))
    (hk : IsPlain (dir ++ [name])) (hn : IsName name)
    (hc : checkPath (p / toRelative (dir ++ [name])) = .ok ())
    (hg : fs.get? (l ++ dir) = some .directory) :
    fs.resolveLast cwd (p / toRelative (dir ++ [name])) = .ok (.name (l ++ dir) name) := by
  obtain ⟨links, hr⟩ := exists_resolveLast_below h hk
  rw [hr, hc, takeSteps_of_get? hg (by simp)]
  exact lastStep_eq_name.mpr ⟨rfl, rfl, hn.ne_parent, hn.size_le⟩

-- A file below a directory is the same as long as it stays and nothing is taken away.
theorem find_file_below_iff {b : FileSystem} {c : ByteArray} (hf : fs.Linkless) (hb : b.Linkless)
    (hg : fs.Grows b) (h : fs.find cwd p = .ok (l, e)) (hk : k.IsStraight) (hne : k ≠ [])
    (hl : b.get? (l ++ k) = fs.get? (l ++ k) ∨ b.get? (l ++ k) = some .directory) :
    b.find cwd (p / k.toRelative) = .ok (d, .file c) ↔
      fs.find cwd (p / k.toRelative) = .ok (d, .file c) := by
  obtain ⟨e', h', hs⟩ := hg.find h
  constructor
  · intro hx
    obtain rfl := eq_directory_of_find_below h' hk.isPlain hne hx
    have ho : b.Opens cwd p l := ⟨h', hb.below⟩
    obtain ⟨rfl, hm⟩ := ho.find_below hk hne hx
    rcases hl with hl | hl <;> rw [hm] at hl
    case inr => simp at hl
    case inl =>
      have he := get?_of_find h
      obtain rfl : e = .directory := Option.some.inj (he.symm.trans (get?_of_append hl.symm hne))
      have hc := (find_iff_takeSteps.mp hx).1
      exact find_below_of_get? h hk.isPlain hne hc hl.symm (by simp)
  · intro hx
    obtain rfl := eq_directory_of_find_below h hk.isPlain hne hx
    obtain ⟨y, hy, hk'⟩ := hg.find hx
    have ho : fs.Opens cwd p l := ⟨h, hf.below⟩
    obtain ⟨rfl, hm⟩ := ho.find_below hk hne hx
    have hy' := get?_of_find hy
    rcases hl with hl | hl <;> rw [hl] at hy'
    case inl => rw [hy, Option.some.inj (hy'.symm.trans hm)]
    case inr =>
      obtain rfl := Option.some.inj hy'
      exact absurd hk' (by simp [Entry.SameKind])

end StaticSite.FileSystem
