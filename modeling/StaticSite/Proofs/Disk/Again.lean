import StaticSite.Proofs.Disk.Below
import StaticSite.Proofs.FileSystem.Lexical
import StaticSite.Proofs.Path.Parent
/-!
Making directories once more. Main statements: directories that have been made are there
(`find_of_makeDirectories`), and a failure to make them comes again, where there are no links, with
one exception (`exec_makeDirectories_again`).
-/
namespace StaticSite

open FileSystem Action Location

namespace FileSystem

variable {fs : FileSystem} {cwd l k dir : Location} {p : Path} {name : String}
  {ps rest : List String} {x : IoError} {e : Entry}

-- Without links, steps are taken from where those before them lead, unless that is a vacant name.
theorem Linkless.takeSteps_append (hf : fs.Linkless) {links : Nat}
    (h : ∀ d n b, fs.takeSteps true links l ps ≠ .ok (.vacant d n b)) :
    fs.takeSteps true links l (ps ++ rest) = match fs.takeSteps true links l ps with
      | .ok (.entry k _) => fs.takeSteps true links k rest
      | r => r := by
  simp only [takeSteps_eq_takeStepsWith] at h ⊢
  fun_induction fs.takeStepsWith (fs.jump true links) true l ps
  case case1 hl => rw [takeStepsWith.eq_def, hl]
  case case2 => rfl
  case case6 => exact absurd rfl (h _ _ _)
  case case8 ht _ => exact absurd ht (hf _ _)
  case case9 ht _ => exact absurd ht (hf _ _)
  all_goals rw [List.cons_append, takeStepsWith.eq_def]
  case case3 hl hi ih => simpa [hl, hi] using ih h
  case case4 hl hi ih => simpa [hl, hi] using ih h
  case case5 hl hi hp hn => simp [hl, hi, hp, hn]
  case case7 ps hl hi hp hn hx hr =>
    have hr : (ps ++ rest).all (· == "") = false := by
      rw [List.all_append, Bool.eq_false_iff.mpr hr, Bool.false_and]
    simp [hl, hi, hp, hn, hx, hr]
  case case10 hl hi hp hn y hy hx ih =>
    cases y
    case link => exact absurd hx (hf _ _)
    all_goals simpa [hl, hi, hp, hn, hx] using ih h
  case case11 hl => simp [hl]

-- Steps do not lead on, be it that they fail or that they lead to a file.
def Stops (fs : FileSystem) (l : Location) (ps : List String) (x : IoError) : Prop :=
  fs.takeSteps true linkLimit l ps = .error x ∨
    x = .notADirectory ∧ ∃ k c, fs.takeSteps true linkLimit l ps = .ok (.entry k (.file c))

theorem Stops.append (hf : fs.Linkless) (h : fs.Stops l ps x) : fs.Stops l (ps ++ rest) x := by
  unfold Stops
  rcases h with h | ⟨rfl, k, c, h⟩ <;> rw [hf.takeSteps_append (by simp [h]), h]
  case inl => exact .inl rfl
  case inr =>
    have hg := get?_of_takeSteps h
    cases rest
    case nil => exact .inr ⟨rfl, k, c, takeSteps_nil hg⟩
    case cons => exact .inl (takeSteps_of_not_directory hg (by simp))

theorem resolveLast_of_stops (hf : fs.Linkless) (hp : p.pieces = ps ++ rest)
    (hr : ∃ n ∈ rest, n ≠ "") (hs : fs.Stops (if p.isAbsolute then [] else cwd) ps x) :
    fs.resolveLast cwd p = (checkPath p).bind fun _ => .error x := by
  rcases hd : rest.reverse.dropWhile (· == "") with _ | ⟨step, before⟩
  case nil =>
    obtain ⟨n, hn, hne⟩ := hr
    have := List.dropWhile_eq_nil_iff.mp hd n (List.mem_reverse.mpr hn)
    exact absurd (by simpa using this) hne
  case cons =>
    have hb : p.pieces.reverse.dropWhile (· == "") = step :: (before ++ ps.reverse) := by
      rw [hp, List.reverse_append, List.dropWhile_append, hd]
      rfl
    have hs : fs.Stops _ (ps ++ before.reverse) x := hs.append hf
    rw [resolveLast, hb]
    cases checkPath p
    case error => rfl
    case ok =>
      simp only [List.reverse_append, List.reverse_reverse]
      rcases hs with hs | ⟨rfl, k, c, hs⟩ <;> simp [hs, bind, Except.bind, throw, throwThe,
        MonadExceptOf.throw]

-- A path that does not lead on names no directory.
theorem not_find_of_stops (hf : fs.Linkless) (hp : p.pieces = ps ++ rest)
    (hs : fs.Stops (if p.isAbsolute then [] else cwd) ps x) :
    fs.find cwd p ≠ .ok (l, .directory) := by
  intro h
  have ht := (find_iff_takeSteps.mp h).2
  rw [hp] at ht
  have hs : fs.Stops _ (ps ++ rest) x := hs.append hf
  rcases hs with hs | ⟨-, k, c, hs⟩ <;> simp [hs] at ht

end FileSystem

namespace Disk

variable {p q : Path} {qs : List Path} {ps rest : List String} {w v : World} {x : IoError}
  {l : Location}

theorem exec_ensureDirectory_of_stops (hf : w.files.Linkless) (hc : checkPath p = .ok ())
    (hp : p.pieces = ps ++ rest) (hr : ∃ n ∈ rest, n ≠ "")
    (hs : w.files.Stops (if p.isAbsolute then [] else w.directory) ps x) :
    exec (ensureDirectory p) w = (.error x, w) := by
  have hd : isDirectory p w = false := by
    apply Bool.eq_false_iff.mpr
    intro hd
    obtain ⟨l, hl⟩ := isDirectory_iff.mp hd
    exact not_find_of_stops hf hp hs hl
  rw [exec_ensureDirectory, makeDirectory, create, exec_bind, exec_ask,
    resolveLast_of_stops hf hp hr hs, hc]
  simp [Except.bind, hd]

-- What has been created stands where nothing was before.
theorem create_eq_ok {e : Entry} (h : exec (create p e) w = (.ok (), v)) :
    ∃ dir name, w.files.resolveLast w.directory p = .ok (.name dir name) ∧
      w.files.get? (dir ++ [name]) = none ∧ w.files.Accepts dir name e ∧ v = w.put dir name e := by
  rcases create_cases p e w with ⟨y, hc⟩ | ⟨dir, name, hr, hv, hc⟩ <;> rw [hc] at h
  case inl => simp at h
  case inr =>
    obtain rfl : w.put dir name e = v := by simpa using h
    obtain ⟨hc, hi, hu, hb, ps, rest, hp, -, ht⟩ := resolveLast_eq_name hr
    have hm : name ∈ p.pieces := by simp [hp]
    have hname : IsName name := by
      refine isName_iff.mpr ⟨⟨hi, Path.slash_not_mem_of_mem_pieces hm⟩, hu, hb, fun h₀ => ?_⟩
      exact (checkPath_eq_ok.mp hc).1 (Path.mem_text_of_mem_pieces hm h₀)
    exact ⟨dir, name, hr, hv, ⟨hname, get?_of_takeSteps ht, by simp [hv]⟩, rfl⟩

-- A directory that has been made is what the path names.
theorem makeDirectory_eq_ok (h : exec (makeDirectory p) w = (.ok (), v)) :
    ∃ dir name, w.files.resolveLast w.directory p = .ok (.name dir name) ∧
      w.files.get? (dir ++ [name]) = none ∧ w.files.Accepts dir name .directory ∧
      v = w.put dir name .directory ∧
      v.files.find v.directory p = .ok (dir ++ [name], .directory) := by
  obtain ⟨dir, name, hr, hv, ha, rfl⟩ := create_eq_ok h
  have hg : (w.put dir name .directory).files.get? (dir ++ [name]) = some .directory :=
    (get?_put ha).trans (if_pos rfl)
  have hr' := (World.addsDirectories_put hv).grows.1.resolveLast hr
  exact ⟨dir, name, hr, hv, ha, rfl, find_eq_ok.mpr (resolve_of_resolveLast hr' hg)⟩

-- If there is a directory afterwards, it has been there before or has been made.
theorem ensureDirectory_eq_ok (h : exec (ensureDirectory p) w = (.ok (), v)) :
    (v = w ∧ ∃ l, v.files.find v.directory p = .ok (l, .directory)) ∨
      exec (makeDirectory p) w = (.ok (), v) := by
  rw [exec_ensureDirectory] at h
  rcases create_cases p .directory w with ⟨y, hc⟩ | ⟨d, n, -, -, hc⟩ <;>
    rw [makeDirectory, hc] at h <;> dsimp only at h
  case inl =>
    split at h
    case isTrue hd =>
      obtain rfl : w = v := by simpa using h
      exact .inl ⟨rfl, isDirectory_iff.mp hd⟩
    case isFalse => simp at h
  case inr => exact .inr (hc.trans h)

theorem find_of_ensureDirectory (h : exec (ensureDirectory p) w = (.ok (), v)) :
    ∃ l, v.files.find v.directory p = .ok (l, .directory) := by
  cases ensureDirectory_eq_ok h
  case inl h => exact h.2
  case inr h =>
    obtain ⟨dir, name, -, -, -, -, hf⟩ := makeDirectory_eq_ok h
    exact ⟨dir ++ [name], hf⟩

-- How making directories up to a path can succeed. A path without steps is left alone.
theorem makeAncestors_cons_eq_ok (h : exec (makeAncestors (p :: qs)) w = (.ok (), v)) :
    p.components.isEmpty ∧ v = w ∨ exec (ensureDirectory p) w = (.ok (), v) ∨
      ∃ u, exec (ensureDirectory p) w = (.error .notFound, w) ∧
        exec (makeAncestors qs) w = (.ok (), u) ∧ exec (ensureDirectory p) u = (.ok (), v) := by
  rw [makeAncestors] at h
  split at h
  case isTrue hc => exact .inl ⟨hc, (Prod.mk.inj h).2.symm⟩
  case isFalse =>
    right
    rw [exec_tryCatch] at h
    rcases he : exec (ensureDirectory p) w with ⟨y | _, t⟩ <;> rw [he] at h <;> dsimp only at h
    case ok => exact .inl h
    case error =>
      obtain ⟨rfl, -⟩ := exec_ensureDirectory_eq_error he
      split at h
      case isFalse => simp at h
      case isTrue hy =>
        obtain ⟨_, u, hm, h⟩ := exec_bind_eq_ok.mp h
        exact .inr ⟨u, hy ▸ rfl, hm, h⟩

theorem makeAncestors_eq_ok (h : exec (makeAncestors (p :: qs)) w = (.ok (), v)) :
    p.components.isEmpty ∧ v = w ∨ ∃ l, v.files.find v.directory p = .ok (l, .directory) := by
  rcases makeAncestors_cons_eq_ok h with h | he | ⟨u, -, -, he⟩
  case inl => exact .inl h
  case inr.inl => exact .inr (find_of_ensureDirectory he)
  case inr.inr => exact .inr (find_of_ensureDirectory he)

-- There is nothing more to make as long as nothing is taken away.
theorem makeAncestors_of_grows {u : World} (h : exec (makeAncestors (p :: qs)) w = (.ok (), v))
    (hg : v.Grows u) : exec (makeAncestors (p :: qs)) u = (.ok (), u) := by
  rcases makeAncestors_eq_ok h with ⟨hc, -⟩ | ⟨l, hl⟩
  case inl => rw [makeAncestors, if_pos hc, exec_pure]
  case inr =>
    obtain ⟨e, hu, hk⟩ := hg.1.find hl
    obtain rfl := Entry.SameKind.directory_iff.mp hk
    rw [← hg.2] at hu
    exact makeAncestors_of_find hu

theorem makeDirectories_of_grows {u : World} (h : exec (makeDirectories p) w = (.ok (), v))
    (hg : v.Grows u) : exec (makeDirectories p) u = (.ok (), u) :=
  makeAncestors_of_grows h hg

theorem find_of_makeDirectories (h : exec (makeDirectories p) w = (.ok (), v)) :
    p = ⟨""⟩ ∧ v = w ∨ ∃ l, v.files.find v.directory p = .ok (l, .directory) :=
  (makeAncestors_eq_ok h).imp_left fun ⟨hc, hv⟩ => ⟨Path.eq_of_isEmpty_components hc, hv⟩

theorem checkPath_of_notFound (hc : p.components.isEmpty = false)
    (h : exec (ensureDirectory p) w = (.error .notFound, v)) : checkPath p = .ok () := by
  obtain ⟨-, h⟩ := exec_ensureDirectory_eq_error h
  have hr := (create_eq_error h).resolve_right (by simp)
  have ht : p.text ≠ "" := by
    intro ht
    obtain rfl : p = ⟨""⟩ := Path.text_inj.mp ht
    exact absurd hc (by decide)
  cases hp : checkPath p
  case ok => rfl
  case error y =>
    rw [resolveLast, hp] at hr
    obtain rfl : y = .notFound := by simpa [bind, Except.bind] using hr
    exact absurd hp (checkPath_ne_notFound ht)

theorem exec_makeDirectory_of_name {d : Location} {name : String}
    (hr : w.files.resolveLast w.directory p = .ok (.name d name)) {e : Entry}
    (hx : w.files.get? (d ++ [name]) = some e) :
    exec (makeDirectory p) w = (.error .alreadyExists, w) := by
  rw [makeDirectory, exec_create, hr]
  simp [hx]

-- Only a path that leads up again fails to come to a file that is there.
theorem mem_parent_of_get?_file {P : Location → Prop} {name : String} {c : ByteArray}
    (hf : w.files.Linkless) (ha : w.AddsDirectories P v) (hp : q.pieces = ps ++ [name])
    (hi : Path.isIdle name = false) (hu : name ≠ "..") (hb : name.utf8ByteSize ≤ nameLimit)
    (hc : checkPath q = .ok ())
    (ht : v.files.takeSteps true linkLimit (if q.isAbsolute then [] else v.directory) ps =
      .ok (.entry l .directory))
    (hy : v.files.get? (l ++ [name]) = some (.file c))
    (hn : exec (makeDirectory q) w = (.error .notFound, w)) : ".." ∈ q.pieces := by
  by_contra hpar
  have hps : ".." ∉ ps := fun hm => hpar (hp ▸ List.mem_append_left _ hm)
  have hv := ha.1.linkless hf
  have hy' := ha.1.of_get? hy (by simp)
  rw [ha.2] at ht
  generalize ho : (if q.isAbsolute then [] else w.directory) = o at ht
  have hl := hv.takeSteps_along ht
  rw [along_eq_append hps] at hl
  -- on the way, the same directories have been there before
  have hsame : w.files.takeSteps true linkLimit o ps = v.files.takeSteps true linkLimit o ps := by
    refine hv.takeSteps_congr hps fun k hk => ?_
    have hkl : o ++ k <+: l := hl ▸ (List.prefix_append_right_inj o).mpr hk
    have hk' := hkl.trans (List.prefix_append l [name])
    have hne : o ++ k ≠ l ++ [name] := by
      intro he
      have hlen := hkl.length_le
      rw [he, List.length_append, List.length_singleton] at hlen
      omega
    have hd : w.files.get? (o ++ k) = some .directory := get?_of_prefix hy' hk' hne
    have hd' : v.files.get? (o ++ k) = some .directory := get?_of_prefix hy hk' hne
    exact hd.trans hd'.symm
  have hr : w.files.resolveLast w.directory q = .ok (.name l name) := by
    rw [resolveLast_of_pieces hp hi (by simp), hc, ho, hsame, ht]
    exact lastStep_eq_name.mpr ⟨rfl, rfl, hu, hb⟩
  simp [exec_makeDirectory_of_name hr hy'] at hn

-- If a directory is not made although its parent is there, its name is too long, or a file has it.
theorem ensureDirectory_eq_error_of_parent {name : String} (hv : v.files.Linkless)
    (hcheck : checkPath q = .ok ()) (hp : q.pieces = ps ++ [name]) (hi : Path.isIdle name = false)
    (ht : v.files.takeSteps true linkLimit (if q.isAbsolute then [] else v.directory) ps =
      .ok (.entry l .directory)) (hx : exec (ensureDirectory q) v = (.error x, v)) :
    name ≠ ".." ∧ (nameLimit < name.utf8ByteSize ∧ x = .invalidFilename ∨
      name.utf8ByteSize ≤ nameLimit ∧ x = .alreadyExists ∧
        ∃ c, v.files.get? (l ++ [name]) = some (.file c)) := by
  have hg := get?_of_takeSteps ht
  have hlast : v.files.resolveLast v.directory q = lastStep name (.entry l .directory) := by
    rw [resolveLast_of_pieces hp hi (by simp), hcheck, ht]
    rfl
  -- what the path names is no directory
  have hnot {k} : v.files.takeSteps true linkLimit l [name] ≠ .ok (.entry k .directory) := by
    intro hk
    have hfind : v.files.find v.directory q = .ok (k, .directory) := by
      refine find_iff_takeSteps.mpr ⟨hcheck, ?_⟩
      rw [hp, hv.takeSteps_append (by simp [ht]), ht]
      exact hk
    simp [ensureDirectory_of_find hfind] at hx
  obtain ⟨-, hx⟩ := exec_ensureDirectory_eq_error hx
  have hu : name ≠ ".." := by
    intro hu
    refine absurd ?_ (hnot (k := l.dropLast))
    rw [hu, takeSteps_parent hg, takeSteps_nil (get?_dropLast hg)]
  refine ⟨hu, ?_⟩
  rw [lastStep, if_neg hu] at hlast
  rcases Nat.lt_or_ge nameLimit name.utf8ByteSize with hb | hb
  case inl =>
    refine .inl ⟨hb, ?_⟩
    rw [makeDirectory, exec_create, hlast, if_pos hb] at hx
    simpa [eq_comm] using hx
  case inr =>
    rw [if_neg (Nat.not_lt.mpr hb)] at hlast
    rcases hy : v.files.get? (l ++ [name]) with _ | ⟨_ | c | target⟩
    case none =>
      rw [makeDirectory, exec_create, hlast] at hx
      simp [hy] at hx
    case some.directory =>
      have hstep : v.files.takeSteps true linkLimit l [name] = _ := takeSteps_name hg hi hu hb
      rw [hy] at hstep
      exact absurd (hstep.trans (takeSteps_nil hy)) hnot
    case some.link => exact absurd hy (hv _ _)
    case some.file =>
      rw [exec_makeDirectory_of_name hlast hy] at hx
      exact .inr ⟨hb, by simpa [eq_comm] using hx, c, rfl⟩

-- Both keep paths from leading on.
theorem stops_of_ensureDirectory {P : Location → Prop} {name : String} (hf : w.files.Linkless)
    (ha : w.AddsDirectories P v) (hp : q.pieces = ps ++ [name]) (hi : Path.isIdle name = false)
    (ht : v.files.takeSteps true linkLimit (if q.isAbsolute then [] else v.directory) ps =
      .ok (.entry l .directory)) (hc : q.components.isEmpty = false)
    (hn : exec (ensureDirectory q) w = (.error .notFound, w))
    (hx : exec (ensureDirectory q) v = (.error x, v)) :
    ∃ x', v.files.Stops (if q.isAbsolute then [] else v.directory) q.pieces x' ∧ x' ≠ .notFound ∧
      (x' = x ∨ x = .alreadyExists ∧ x' = .notADirectory ∧ ".." ∈ q.pieces) := by
  have hv : v.files.Linkless := ha.1.linkless hf
  have hcheck := checkPath_of_notFound hc hn
  have hg := get?_of_takeSteps ht
  obtain ⟨hu, hcases⟩ := ensureDirectory_eq_error_of_parent hv hcheck hp hi ht hx
  obtain ⟨-, hn⟩ := exec_ensureDirectory_eq_error hn
  have hsteps : v.files.takeSteps true linkLimit (if q.isAbsolute then [] else v.directory)
      q.pieces = v.files.takeSteps true linkLimit l [name] := by
    rw [hp, hv.takeSteps_append (by simp [ht]), ht]
  unfold Stops
  rw [hsteps]
  rcases hcases with ⟨hb, rfl⟩ | ⟨hb, rfl, c, hy⟩
  case inl => exact ⟨_, .inl (takeSteps_of_long hg hi hu hb), by simp, .inl rfl⟩
  case inr =>
    have hstep : v.files.takeSteps true linkLimit l [name] = _ := takeSteps_name hg hi hu hb
    rw [hy] at hstep
    refine ⟨_, .inr ⟨rfl, l ++ [name], c, hstep.trans (takeSteps_nil hy)⟩, by simp,
      .inr ⟨rfl, rfl, ?_⟩⟩
    exact mem_parent_of_get?_file hf ha hp hi hu hb hcheck ht hy hn

-- Why directories are not made up to a path, once some have been made. Either what is left to make
-- is the path itself, or its parent does not lead on.
inductive Blocked (w v : World) (n : Nat) (p q : Path) (x : IoError) : Prop
  | path (hm : exec (makeAncestors (Path.ancestors.go n q)) w = (.ok (), v))
    (hx : exec (ensureDirectory p) v = (.error x, v)) : Blocked w v n p q x
  | parent {x'} (hp : ∃ rest, p.pieces = q.pieces ++ rest ∧ ∃ n ∈ rest, n ≠ "")
    (hs : v.files.Stops (if q.isAbsolute then [] else v.directory) q.pieces x')
    (hx : x' ≠ .notFound ∧
      (x' = x ∨ x = .alreadyExists ∧ x' = .notADirectory ∧ ".." ∈ q.pieces)) : Blocked w v n p q x

-- The root is there, and the empty path is left alone.
theorem makeAncestors_of_pieces_eq (h : p.pieces = [""]) :
    exec (makeAncestors (p :: qs)) w = (.ok (), w) := by
  have hp := Path.ofPieces_pieces (p := p)
  rw [h] at hp
  cases ha : p.isAbsolute <;> rw [ha] at hp <;> subst hp
  case false => rfl
  case true =>
    have hr : w.files.find w.directory (toPath []) = .ok ([], .directory) :=
      find_toPath get?_nil (by decide) (by simp)
    exact makeAncestors_of_find hr

-- If the parent of a path has not been made, the path does not lead on from there.
theorem stops_of_blocked {P : Location → Prop} {n : Nat} {r : Path} (hf : w.files.Linkless)
    (ha : w.AddsDirectories P v) (hq : p.parent? = some q) (hr : q.parent? = some r)
    (hc : q.components.isEmpty = false) (hn : exec (ensureDirectory q) w = (.error .notFound, w))
    (hb : Blocked w v n q r x) : v = w ∨
      ∃ x', v.files.Stops (if q.isAbsolute then [] else v.directory) q.pieces x' ∧
        x' ≠ .notFound ∧ (x' = x ∨ x = .alreadyExists ∧ x' = .notADirectory ∧ ".." ∈ q.pieces) := by
  obtain ⟨ha', hr'⟩ := Path.exists_of_parent? hr
  cases hb
  case parent x' hp hs hx =>
    obtain ⟨rest, hp, -⟩ := hp
    right
    rw [ha'] at hs
    refine ⟨x', hp ▸ hs.append (ha.1.linkless hf), hx.1, hx.2.imp_right ?_⟩
    rintro ⟨h₁, h₂, h₃⟩
    exact ⟨h₁, h₂, hp ▸ List.mem_append_left _ h₃⟩
  case path hm hx =>
    cases n
    case zero => simp [Path.ancestors.go, makeAncestors] at hm
    case succ n =>
      rcases hr' with he | ⟨-, idle, name, rest, hp, hi, hidle, hrest⟩
      case inl =>
        rw [Path.ancestors.go, makeAncestors_of_pieces_eq he] at hm
        exact .inl (Prod.ext_iff.mp hm).2.symm
      case inr =>
        rcases makeAncestors_eq_ok hm with ⟨-, rfl⟩ | ⟨l, hl⟩
        case inl => exact .inl rfl
        case inr =>
          right
          -- there are no idle steps behind the name, as the path is a parent itself
          obtain rfl : rest = [] := by
            rw [← List.append_assoc] at hp
            exact Path.eq_nil_of_parent? hq hp hi hrest
          have ht := (find_iff_takeSteps.mp hl).2
          have hsteps : v.files.takeSteps true linkLimit (if q.isAbsolute then [] else v.directory)
              (r.pieces ++ idle) = .ok (.entry l .directory) := by
            rw [← ha', (ha.1.linkless hf).takeSteps_append (by simp [ht]), ht]
            exact takeSteps_idle (get?_of_takeSteps ht) hidle
          rw [← List.append_assoc] at hp
          exact stops_of_ensureDirectory hf ha hp hi hsteps hc hn hx

-- How making directories can fail once some have been made.
theorem makeAncestors_eq_error {n : Nat}
    (h : exec (makeAncestors (Path.ancestors.go n p)) w = (.error x, v)) : v = w ∨
      p.components.isEmpty = false ∧ exec (ensureDirectory p) w = (.error .notFound, w) ∧
        ∃ q, p.parent? = some q ∧
          (exec (makeAncestors (Path.ancestors.go (n - 1) q)) w = (.error x, v) ∨
            exec (makeAncestors (Path.ancestors.go (n - 1) q)) w = (.ok (), v) ∧
              exec (ensureDirectory p) v = (.error x, v)) := by
  cases n
  case zero => exact .inl (Prod.ext_iff.mp h).2.symm
  case succ n =>
    rw [Path.ancestors.go, makeAncestors] at h
    split at h
    case isTrue => simp at h
    case isFalse hc =>
      rw [exec_tryCatch] at h
      rcases he : exec (ensureDirectory p) w with ⟨e | _, u⟩ <;> rw [he] at h
      case ok => simp at h
      case error =>
        obtain ⟨rfl, -⟩ := exec_ensureDirectory_eq_error he
        dsimp only at h
        split at h
        case isFalse => exact .inl (Prod.ext_iff.mp h).2.symm
        case isTrue hx =>
          subst hx
          cases hq : p.parent? <;> rw [hq] at h
          case none => exact .inl (Prod.ext_iff.mp h).2.symm
          case some q =>
            refine .inr ⟨by simpa using hc, rfl, q, rfl, ?_⟩
            rw [Option.map_some, Option.getD_some, exec_bind] at h
            rw [Nat.add_sub_cancel]
            rcases hm : exec (makeAncestors (Path.ancestors.go n q)) u with ⟨y | _, t⟩ <;>
              rw [hm] at h
            case error => exact .inl h
            case ok =>
              obtain ⟨rfl, -⟩ := exec_ensureDirectory_eq_error h
              exact .inr ⟨rfl, h⟩

theorem blocked_of_makeAncestors {n : Nat} (hf : w.files.Linkless)
    (h : exec (makeAncestors (Path.ancestors.go n p)) w = (.error x, v)) : v = w ∨
      p.components.isEmpty = false ∧ exec (ensureDirectory p) w = (.error .notFound, w) ∧
        ∃ q, p.parent? = some q ∧ Blocked w v (n - 1) p q x := by
  induction n generalizing p
  case zero => exact .inl (Prod.ext_iff.mp h).2.symm
  case succ n hi =>
    have ha := (keeps_makeAncestors fun _ _ => keeps_makeDirectory).of_exec h
    refine or_iff_not_imp_left.mpr fun hne => ?_
    obtain ⟨hc, hn, q, hq, hm⟩ := (makeAncestors_eq_error h).resolve_left hne
    refine ⟨hc, hn, q, hq, ?_⟩
    rw [Nat.add_sub_cancel] at hm ⊢
    rcases hm with hm | ⟨hm, hx⟩
    case inr => exact .path hm hx
    case inl =>
      obtain ⟨hcq, hnq, r, hr, hb⟩ := (hi hm).resolve_left hne
      obtain ⟨x', hs, hx⟩ := (stops_of_blocked hf ha hq hr hcq hnq hb).resolve_left hne
      obtain ⟨-, hp | ⟨-, idle, name, rest, hp, hidle, -⟩⟩ := Path.exists_of_parent? hq
      case inl =>
        cases n
        case zero => exact absurd (Prod.ext_iff.mp hm).2.symm hne
        case succ => simp [Path.ancestors.go, makeAncestors_of_pieces_eq hp] at hm
      case inr =>
        refine .parent ⟨_, hp, name, by simp, ?_⟩ hs hx
        rintro rfl
        exact absurd hidle (by decide)

-- Where there are no links, a failure to make directories comes again. Only a path that leads up
-- again may have come to a file in another way.
theorem exec_makeDirectories_again (hf : w.files.Linkless)
    (h : exec (makeDirectories p) w = (.error x, v)) :
    ∃ x', exec (makeDirectories p) v = (.error x', v) ∧ (x' = x ∨
      x = .alreadyExists ∧ x' = .notADirectory ∧ ∃ q, p.parent? = some q ∧ ".." ∈ q.pieces) := by
  rcases blocked_of_makeAncestors hf h with rfl | ⟨hc, hn, q, hq, hb⟩
  case inl => exact ⟨x, h, .inl rfl⟩
  case inr =>
    have ha := keeps_makeDirectories.of_exec h
    have hcheck := checkPath_of_notFound hc hn
    have hp : p.ancestors = p :: Path.ancestors.go p.text.length q := by
      rw [Path.ancestors, Path.ancestors.go, hq]
      rfl
    rw [makeDirectories, hp, makeAncestors, if_neg (by simp [hc]), exec_tryCatch]
    rw [Nat.add_sub_cancel] at hb
    cases hb
    case path hm hx =>
      have hm' : exec (makeAncestors (Path.ancestors.go p.text.length q)) v = (.ok (), v) := by
        cases hl : p.text.length <;> rw [hl] at hm
        case zero => simp [Path.ancestors.go, makeAncestors] at hm
        case succ => exact makeAncestors_of_grows hm (Std.Refl.refl v)
      refine ⟨x, ?_, .inl rfl⟩
      rw [hx]
      dsimp only
      split
      case isTrue => rw [exec_bind_of_ok hm', hx]
      case isFalse => rfl
    case parent x' hpq hs hx =>
      obtain ⟨rest, hpq, hr⟩ := hpq
      obtain ⟨hne, hx⟩ := hx
      rw [(Path.exists_of_parent? hq).1] at hs
      refine ⟨x', ?_, hx.imp_right ?_⟩
      · rw [exec_ensureDirectory_of_stops (ha.1.linkless hf) hcheck hpq hr hs]
        simp [hne]
      · rintro ⟨h₁, h₂, h₃⟩
        exact ⟨h₁, h₂, q, hq, h₃⟩

-- To a location there is only one way.
theorem exec_makeDirectories_toPath_again (hf : w.files.Linkless) (hl : l.IsPlain)
    (hd : IsStraight l.dropLast) (h : exec (makeDirectories l.toPath) w = (.error x, v)) :
    exec (makeDirectories l.toPath) v = (.error x, v) := by
  obtain ⟨x', hx, rfl | ⟨-, -, q, hq, hm⟩⟩ := exec_makeDirectories_again hf h
  case inl => exact hx
  case inr =>
    obtain rfl | ⟨m, name, rfl⟩ := List.eq_nil_or_concat' l
    case inl =>
      have hn : (toPath []).parent? = none := by decide
      simp [hn] at hq
    case inr =>
      rw [List.dropLast_concat] at hd
      obtain rfl := Option.some.inj (hl.parent?_toPath.symm.trans hq)
      have hs : ".." ∈ (toPath m).steps := List.mem_filter.mpr ⟨hm, by decide⟩
      rw [hd.isPlain.steps_toPath] at hs
      exact absurd rfl (hd _ hs).2

end Disk

end StaticSite
