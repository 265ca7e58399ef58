import StaticSite.Proofs.FileSystem.Growth
/-!
What the path of a location names. Main statements: what is at the location (`find_toPath`), and
nothing else where there are no links (`Linkless.find_toPath`).
-/
namespace StaticSite

namespace Location

-- Whether the operating system takes a path that is as long as that of the location.
def IsShort (l : Location) : Prop :=
  l.toPath.text.utf8ByteSize < FileSystem.pathLimit

instance (l : Location) : Decidable l.IsShort := by
  unfold IsShort; infer_instance

variable {l k : Location}

theorem text_toPath_prefix (h : k <+: l) : ∃ text, l.toPath.text = k.toPath.text ++ text := by
  obtain ⟨m, rfl⟩ := h
  by_cases hk : k = []
  case pos => exact ⟨(k ++ m).toRelative.text, by simp [hk, toPath, toRelative]⟩
  by_cases hm : m = []
  case pos => exact ⟨"", by simp [hm]⟩
  exact ⟨"/" ++ (toRelative m).text, by rw [text_toPath_append hk hm, String.append_assoc]⟩

theorem IsShort.of_prefix (h : l.IsShort) (hk : k <+: l) : k.IsShort := by
  obtain ⟨text, ht⟩ := text_toPath_prefix hk
  rw [IsShort, ht, String.utf8ByteSize_append] at h
  exact Nat.lt_of_le_of_lt (Nat.le_add_right _ _) h

theorem IsShort.length_lt (h : l.IsShort) (hp : l.IsPlain) : l.length < FileSystem.pathLimit := by
  have hl := hp.length_le_length_text
  exact Nat.lt_of_le_of_lt (hl.trans (Path.length_le_utf8ByteSize _)) h

theorem mem_text_toPath {c : Char} (hc : c ≠ '/') :
    c ∈ l.toPath.text.toList ↔ ∃ name ∈ l, c ∈ name.toList := by
  rw [toList_text_toPath]
  induction l
  case nil => simp [hc]
  case cons name l hi =>
    cases l
    case nil => simp [hc]
    case cons => simp_all

end Location

namespace FileSystem

open Location

variable {fs : FileSystem} {cwd l k dir : Location} {name : String} {e : Entry} {follow : Bool}

theorem checkPath_eq_ok {p : Path} :
    checkPath p = .ok () ↔
      '\x00' ∉ p.text.toList ∧ p.text ≠ "" ∧ p.text.utf8ByteSize < pathLimit := by
  simp only [checkPath, String.isEmpty_iff]
  split
  case isTrue h => simp [h]
  case isFalse h₁ =>
    split
    case isTrue h => simp [h]
    case isFalse h₂ =>
      split
      case isTrue h => simp [Nat.not_lt.mpr h]
      case isFalse h => simp [h₁, h₂, Nat.not_le.mp h]

theorem checkPath_toPath :
    checkPath l.toPath = .ok () ↔ (∀ name ∈ l, '\x00' ∉ name.toList) ∧ l.IsShort := by
  have : l.toPath.text ≠ "" := by
    rw [Ne, ← String.toList_eq_nil_iff, toList_text_toPath]
    simp
  rw [checkPath_eq_ok, mem_text_toPath (by decide)]
  simp [this, IsShort]

theorem resolve_toPath (h : l.IsPlain) :
    fs.resolve cwd follow l.toPath =
      (checkPath l.toPath).bind fun _ => fs.takeSteps follow linkLimit [] l := by
  have ht : fs.takeSteps follow linkLimit [] l.toPath.pieces =
      fs.takeSteps follow linkLimit [] l := by
    rw [h.pieces_toPath]
    split
    case isTrue hl => rw [hl, takeSteps_of_isIdle get?_nil Path.isIdle_empty]
    case isFalse => rfl
  rw [resolve, isAbsolute_toPath, ← ht]
  rfl

-- How the last step of a path leads on from what the steps before it lead to.
def lastStep (name : String) : Named → Except IoError LastStep
  | .entry dir .directory =>
    if name = ".." then .ok (.relative name)
    else if name.utf8ByteSize > nameLimit then .error .invalidFilename
    else .ok (.name dir name)
  | .entry .. => .error .notADirectory
  | .vacant .. => .error .notFound

theorem lastStep_eq_name {named : Named} {n : String} : lastStep name named = .ok (.name dir n) ↔
    named = .entry dir .directory ∧ n = name ∧ name ≠ ".." ∧ name.utf8ByteSize ≤ nameLimit := by
  rcases named with ⟨d, _ | _ | _⟩ | _ <;>
    simp only [lastStep, reduceCtorEq, false_and, Named.entry.injEq, and_false]
  split
  case isTrue h => simp [h]
  case isFalse hp =>
    split
    case isTrue hn => simp [Nat.not_le.mpr hn]
    case isFalse hn => simp [hp, Nat.not_lt.mp hn, eq_comm]

theorem resolveLast_of_pieces {p : Path} {ps rest : List String}
    (h : p.pieces = ps ++ name :: rest) (hn : Path.isIdle name = false) (hr : ∀ n ∈ rest, n = "") :
    fs.resolveLast cwd p = (checkPath p).bind fun _ =>
      (fs.takeSteps true linkLimit (if p.isAbsolute then [] else cwd) ps).bind (lastStep name) := by
  have hd : p.pieces.reverse.dropWhile (· == "") = name :: ps.reverse := by
    have he : (name == "") = false := by
      simp only [Path.isIdle, Bool.or_eq_false_iff] at hn
      exact hn.1
    rw [h, List.reverse_append, List.reverse_cons, List.append_assoc,
      List.dropWhile_append_of_pos (by simpa using hr), List.singleton_append,
      List.dropWhile_cons_of_neg (by simp [he])]
  rw [resolveLast, hd]
  cases checkPath p
  case error => rfl
  case ok =>
    rcases ht : fs.takeSteps true linkLimit (if p.isAbsolute then [] else cwd) ps with
      x | ⟨⟨d, _ | _ | _⟩ | _⟩ <;>
      simp [ht, bind, Except.bind, hn, pure, Except.pure, throw, throwThe, MonadExceptOf.throw,
        lastStep]

theorem resolveLast_toPath (h : IsPlain (l ++ [name])) :
    fs.resolveLast cwd (l ++ [name]).toPath =
      (checkPath (l ++ [name]).toPath).bind fun _ =>
        (fs.takeSteps true linkLimit [] l).bind (lastStep name) := by
  have hp : (l ++ [name]).toPath.pieces = l ++ [name] := by simp [h.pieces_toPath]
  rw [resolveLast_of_pieces hp (h name (by simp)).1 (by simp), isAbsolute_toPath]
  rfl

theorem isName_iff : IsName name ↔
    Path.IsStep name ∧ name ≠ ".." ∧ name.utf8ByteSize ≤ nameLimit ∧ '\x00' ∉ name.toList := by
  constructor
  · exact fun h => ⟨h.isStep, h.ne_parent, h.size_le, h.2.2.2.2.2⟩
  · rintro ⟨⟨hi, hs⟩, hp, hl, h₀⟩
    simp only [Path.isIdle, Bool.or_eq_false_iff, beq_eq_false_iff_ne] at hi
    exact ⟨hi.1, hi.2, hp, hl, hs, h₀⟩

theorem checkPath_toPath_of_get? (h : fs.get? l = some e) (hs : l.IsShort) :
    checkPath l.toPath = .ok () :=
  checkPath_toPath.mpr ⟨fun n hn => (isName_of_get? h n hn).2.2.2.2.2, hs⟩

-- What is at a location is found through its path, unless that is too long.
theorem resolve_toPath_eq_map (h : fs.get? l = some e) (he : follow → ∀ target, e ≠ .link target) :
    fs.resolve cwd follow l.toPath = (checkPath l.toPath).map fun _ => .entry l e := by
  have ht : fs.takeSteps follow linkLimit [] l = .ok (.entry ([] ++ l) e) :=
    takeSteps_of_get? h he
  rw [resolve_toPath (isStraight_of_get? h).isPlain, ht]
  rfl

theorem resolve_toPath_of_get? (h : fs.get? l = some e) (hs : l.IsShort)
    (he : follow → ∀ target, e ≠ .link target) :
    fs.resolve cwd follow l.toPath = .ok (.entry l e) := by
  rw [resolve_toPath_eq_map h he, checkPath_toPath_of_get? h hs]
  rfl

theorem find_toPath (h : fs.get? l = some e) (hs : l.IsShort) (he : ∀ target, e ≠ .link target) :
    fs.find cwd l.toPath = .ok (l, e) :=
  find_eq_ok.mpr (resolve_toPath_of_get? h hs fun _ => he)

theorem resolve_toPath_eq_ok (h : l.IsPlain) {named : Named} :
    fs.resolve cwd follow l.toPath = .ok named ↔
      checkPath l.toPath = .ok () ∧ fs.takeSteps follow linkLimit [] l = .ok named := by
  rw [resolve_toPath h]
  cases checkPath l.toPath <;> simp [Except.bind]

-- An entry of a directory is found through any path of the directory.
theorem resolve_toPath_concat (hp : IsPlain (l ++ [name]))
    (hc : checkPath (l ++ [name]).toPath = .ok ())
    (h : fs.find cwd l.toPath = .ok (k, .directory)) (hx : fs.get? (k ++ [name]) = some e)
    (he : follow → ∀ target, e ≠ .link target) :
    fs.resolve cwd follow (l ++ [name]).toPath = .ok (.entry (k ++ [name]) e) := by
  have hl := ((resolve_toPath_eq_ok hp.of_append.1).mp (find_eq_ok.mp h)).2
  have hn : [name] ≠ [] := by simp
  obtain ⟨n, ht⟩ := exists_takeSteps_append hn hl
  exact (resolve_toPath_eq_ok hp).mpr ⟨hc, (ht follow).trans (takeSteps_of_get? hx he)⟩

theorem resolveLast_toPath_of_get? (h : fs.get? l = some .directory) (hn : IsName name)
    (hs : IsShort (l ++ [name])) :
    fs.resolveLast cwd (l ++ [name]).toPath = .ok (.name l name) := by
  have hp : IsPlain (l ++ [name]) := (isStraight_of_get? h).isPlain.concat hn.isStep
  have hc : checkPath (l ++ [name]).toPath = .ok () := by
    refine checkPath_toPath.mpr ⟨fun n hm => ?_, hs⟩
    cases List.mem_append.mp hm
    case inl hm => exact (isName_of_get? h n hm).2.2.2.2.2
    case inr hm => exact List.mem_singleton.mp hm ▸ hn.2.2.2.2.2
  have ht : fs.takeSteps true linkLimit [] l = .ok (.entry ([] ++ l) .directory) :=
    takeSteps_of_get? h (by simp)
  rw [resolveLast_toPath hp, hc]
  simp [Except.bind, ht, lastStep, hn.ne_parent, Nat.not_lt.mpr hn.size_le]

theorem resolveLast_toPath_eq_name (h : IsPlain (l ++ [name])) {n : String}
    (hr : fs.resolveLast cwd (l ++ [name]).toPath = .ok (.name dir n)) :
    n = name ∧ name ≠ ".." ∧ name.utf8ByteSize ≤ nameLimit ∧
      checkPath (l ++ [name]).toPath = .ok () ∧
      fs.takeSteps true linkLimit [] l = .ok (.entry dir .directory) := by
  rw [resolveLast_toPath h] at hr
  cases hc : checkPath (l ++ [name]).toPath
  case error => simp [hc, Except.bind] at hr
  case ok =>
    rw [hc] at hr
    cases ht : fs.takeSteps true linkLimit [] l
    case error => simp [ht, Except.bind] at hr
    case ok named =>
      obtain ⟨rfl, rfl, hp, hn⟩ := lastStep_eq_name.mp (by simpa [ht, Except.bind] using hr)
      exact ⟨rfl, hp, hn, rfl, rfl⟩

-- Whether a file can be written under the path of a location.
structure Writable (fs : FileSystem) (dir : Location) (name : String) : Prop where
  isName : IsName name
  directory : fs.get? dir = some .directory
  not_directory : fs.get? (dir ++ [name]) ≠ some .directory
  isShort : IsShort (dir ++ [name])

namespace Writable

variable {contents : ByteArray}

theorem accepts (h : fs.Writable dir name) : fs.Accepts dir name (.file contents) :=
  ⟨h.isName, h.directory, fun hd => absurd hd h.not_directory⟩

theorem put (h : fs.Writable dir name) :
    (fs.put dir name (.file contents)).Writable dir name where
  isName := h.isName
  directory := by simpa [get?_put h.accepts] using h.directory
  not_directory := by simp [get?_put h.accepts]
  isShort := h.isShort

theorem isStraight (h : fs.Writable dir name) : IsStraight (dir ++ [name]) := by
  exact (isStraight_of_get? h.directory).append (isStraight_of_isName (by simpa using h.isName))

theorem checkPath_eq_ok (h : fs.Writable dir name) : checkPath (dir ++ [name]).toPath = .ok () := by
  refine checkPath_toPath.mpr ⟨fun n hm => ?_, h.isShort⟩
  cases List.mem_append.mp hm
  case inl hm => exact (isName_of_get? h.directory n hm).2.2.2.2.2
  case inr hm => exact List.mem_singleton.mp hm ▸ h.isName.2.2.2.2.2

theorem resolve_of_vacant (h : fs.Writable dir name) (hv : fs.get? (dir ++ [name]) = none) :
    fs.resolve cwd follow (dir ++ [name]).toPath = .ok (.vacant dir name false) := by
  have ha : fs.takeSteps follow linkLimit [] (dir ++ [name]) =
      fs.takeSteps follow linkLimit ([] ++ dir) [name] := takeSteps_append h.directory
  have hn := h.isName
  rw [resolve_toPath_eq_ok h.isStraight.isPlain, ha,
    List.nil_append, takeSteps_name h.directory hn.isStep.1 hn.ne_parent hn.size_le, hv]
  exact ⟨h.checkPath_eq_ok, rfl⟩

end Writable

namespace Linkless

variable (hf : fs.Linkless)

include hf

theorem find_toPath (hl : l.IsStraight) (h : fs.find cwd l.toPath = .ok (k, e)) :
    k = l ∧ fs.get? l = some e := by
  have ht := (resolve_toPath_eq_ok hl.isPlain).mp (find_eq_ok.mp h)
  obtain ⟨rfl, he⟩ := hf.below.takeSteps_entry hl ht.2
  exact ⟨rfl, he⟩

-- A file that is found has been there before directories were added.
theorem find_file_of_addsDirectories {b : FileSystem} {P : Location → Prop} {contents : ByteArray}
    (h : fs.AddsDirectories P b) (hl : l.IsStraight)
    (hb : b.find cwd l.toPath = .ok (k, .file contents)) :
    fs.find cwd l.toPath = .ok (k, .file contents) := by
  obtain ⟨rfl, hx⟩ := (h.linkless hf).find_toPath hl hb
  have hc := ((resolve_toPath_eq_ok hl.isPlain).mp (find_eq_ok.mp hb)).1
  exact FileSystem.find_toPath (h.of_get? hx (by simp)) (checkPath_toPath.mp hc).2 (by simp)

-- A path from the root leads to the same where the same stands on the way.
theorem find_congr {b : FileSystem} {p : Path} {cwd' : Location} (ha : p.isAbsolute)
    (hp : ".." ∉ p.steps) (h : ∀ k, k <+: p.steps → b.get? k = fs.get? k) :
    b.find cwd' p = fs.find cwd p := by
  have hn : ".." ∉ p.pieces := fun hm => hp (List.mem_filter.mpr ⟨hm, by decide⟩)
  have ht : b.takeSteps true linkLimit [] p.pieces = fs.takeSteps true linkLimit [] p.pieces :=
    hf.takeSteps_congr hn h
  have hr : b.resolve cwd' true p = fs.resolve cwd true p := by
    rw [resolve, resolve, if_pos ha, if_pos ha, ht]
  rw [find, find, hr]

-- Where a name can be made at the end of a path.
theorem accepts_of_resolveLast (hl : l.IsStraight) (hn : Path.IsStep name) {n : String}
    (hr : fs.resolveLast cwd (l ++ [name]).toPath = .ok (.name dir n)) :
    dir = l ∧ n = name ∧ IsName name ∧ fs.get? l = some .directory := by
  obtain ⟨rfl, hp, hs, hc, ht⟩ := resolveLast_toPath_eq_name (hl.isPlain.concat hn) hr
  obtain ⟨rfl, hd⟩ := hf.below.takeSteps_entry hl ht
  refine ⟨rfl, rfl, isName_iff.mpr ⟨hn, hp, hs, ?_⟩, hd⟩
  exact (checkPath_toPath.mp hc).1 n (by simp)

-- A path that names a file, or where one can be written.
theorem writable_of_resolve (hl : l.IsStraight) (hn : Path.IsStep name) {d : Location} {n : String}
    (hr : (∃ old, fs.resolve cwd true (l ++ [name]).toPath = .ok (.entry (d ++ [n]) (.file old))) ∨
      fs.resolve cwd true (l ++ [name]).toPath = .ok (.vacant d n false)) :
    d = l ∧ n = name ∧ fs.Writable l name := by
  have hp := hl.isPlain.concat hn
  simp only [resolve_toPath_eq_ok hp, exists_and_left, ← and_or_left] at hr
  obtain ⟨he, rfl, hu, hb, hd, hx⟩ := hf.below.takeSteps_file hl hn hr.2
  obtain rfl : d = l := he
  have hc := checkPath_toPath.mp hr.1
  refine ⟨rfl, rfl, isName_iff.mpr ⟨hn, hu, hb, hc.1 n (by simp)⟩, hd, ?_, hc.2⟩
  rcases hx with hx | ⟨old, hx⟩ <;> rw [← List.nil_append d, hx] <;> simp

end Linkless

end FileSystem

end StaticSite
