import StaticSite.Proofs.Execution
import StaticSite.Proofs.FileSystem.Steps
/-!
How a file system may change while it is worked on: it grows, or only directories are added, or only
certain files are touched. Main statement: what a path names stays where it is as long as nothing is
taken away (`Grows.find`).
-/
namespace StaticSite

-- Whether an entry can have become the other one without being replaced. Only the contents of a
-- file change.
def Entry.SameKind : Entry → Entry → Prop
  | .directory, .directory => True
  | .file _, .file _ => True
  | .link p, .link q => p = q
  | _, _ => False

namespace Entry.SameKind

variable {a b c : Entry}

theorem refl (a : Entry) : a.SameKind a := by
  cases a <;> simp [SameKind]

theorem trans (h : a.SameKind b) (h' : b.SameKind c) : a.SameKind c := by
  cases a <;> cases b <;> cases c <;> simp_all [SameKind]

theorem directory_iff : Entry.directory.SameKind b ↔ b = .directory := by
  cases b <;> simp [SameKind]

theorem link_iff {p : Path} : (Entry.link p).SameKind b ↔ b = .link p := by
  cases b <;> simp [SameKind, eq_comm]

end Entry.SameKind

namespace FileSystem

-- Nothing is taken away.
def Grows (a b : FileSystem) : Prop :=
  ∀ l e, a.get? l = some e → ∃ e', b.get? l = some e' ∧ e.SameKind e'

-- Nothing changes but for directories that are new, and these stand where `P` says.
def AddsDirectories (P : Location → Prop) (a b : FileSystem) : Prop :=
  ∀ l, b.get? l = a.get? l ∨ (P l ∧ a.get? l = none ∧ b.get? l = some .directory)

-- What may become of the entry at `k` where files are written at the locations that `P` tells:
-- there it may take the contents of a file, and on the way a directory may come to be.
inductive Touch (P : Location → Prop) (k : Location) : Option Entry → Option Entry → Prop
  | same {x} : Touch P k x x
  | added {c} (h : P k) : Touch P k none (some (.file c))
  | rewritten {c c'} (h : P k) : Touch P k (some (.file c)) (some (.file c'))
  | directory {l} (h : P l) (hk : k <+: l) : Touch P k none (some .directory)

-- Nothing changes but what is touched.
def Touches (P : Location → Prop) (a b : FileSystem) : Prop :=
  ∀ k, Touch P k (a.get? k) (b.get? k)

variable {a b c fs : FileSystem} {P Q : Location → Prop} {l k dir : Location} {name : String}
  {e : Entry}

theorem put_of_not_accepts (h : ¬fs.Accepts dir name e) : fs.put dir name e = fs := by
  simp [put, h]

theorem Linkless.empty : FileSystem.empty.Linkless := by
  intro l target
  cases l <;> simp [get?, FileSystem.empty]

theorem Linkless.put (h : fs.Linkless) (he : ∀ target, e ≠ .link target) :
    (fs.put dir name e).Linkless := by
  by_cases ha : fs.Accepts dir name e
  case neg => rwa [put_of_not_accepts ha]
  case pos =>
    intro l target
    rw [get?_put ha]
    split
    case isTrue => simpa using he target
    case isFalse => exact h l target

namespace Grows

theorem refl (a : FileSystem) : a.Grows a :=
  fun _ e h => ⟨e, h, .refl e⟩

theorem trans (h : a.Grows b) (h' : b.Grows c) : a.Grows c := by
  intro l e he
  obtain ⟨e', he', hk⟩ := h l e he
  obtain ⟨e'', he'', hk'⟩ := h' l e' he'
  exact ⟨e'', he'', hk.trans hk'⟩

theorem put (h : ∀ x, fs.get? (dir ++ [name]) = some x → x.SameKind e) :
    fs.Grows (fs.put dir name e) := by
  by_cases ha : fs.Accepts dir name e
  case neg =>
    rw [put_of_not_accepts ha]
    exact refl fs
  case pos =>
    intro l x hx
    rw [get?_put ha]
    split
    case isTrue hl => exact ⟨e, rfl, h x (hl ▸ hx)⟩
    case isFalse => exact ⟨x, hx, .refl x⟩

theorem directory (h : a.Grows b) (hl : a.get? l = some .directory) :
    b.get? l = some .directory := by
  obtain ⟨e, he, hk⟩ := h l _ hl
  rw [he, Entry.SameKind.directory_iff.mp hk]

theorem link (h : a.Grows b) {p : Path} (hl : a.get? l = some (.link p)) :
    b.get? l = some (.link p) := by
  obtain ⟨e, he, hk⟩ := h l _ hl
  rw [he, Entry.SameKind.link_iff.mp hk]

theorem takeStepsWith (h : a.Grows b) {follow : Bool}
    {jumpA jumpB : Location → List String → Except IoError Named} {steps : List String}
    (hj : ∀ l steps, jumpA l steps = .ok (.entry k e) →
      ∃ e', jumpB l steps = .ok (.entry k e') ∧ e.SameKind e')
    (ha : a.takeStepsWith jumpA follow l steps = .ok (.entry k e)) :
    ∃ e', b.takeStepsWith jumpB follow l steps = .ok (.entry k e') ∧ e.SameKind e' := by
  fun_induction a.takeStepsWith jumpA follow l steps <;> rw [takeStepsWith.eq_def]
  case case2 l x hx =>
    obtain ⟨rfl, rfl⟩ : l = k ∧ x = e := by simpa using ha
    obtain ⟨e', he, hk⟩ := h l _ hx
    exact ⟨e', by rw [he], hk⟩
  case case3 hl hi ih => simpa [h.directory hl, hi] using ih ha
  case case4 hl hi ih => simpa [h.directory hl, hi] using ih ha
  case case8 hl hi hp hn target ht hf =>
    obtain ⟨rfl, rfl⟩ : _ = k ∧ _ = e := by simpa using ha
    refine ⟨.link target, ?_, .refl _⟩
    simp [h.directory hl, hi, hp, hn, h.link ht, hf]
  case case9 hl hi hp hn target ht hf =>
    simpa [h.directory hl, hi, hp, hn, h.link ht, hf] using hj _ _ ha
  case case10 hl hi hp hn x hx ht ih =>
    obtain ⟨x', hx', hxk⟩ := h _ _ ht
    have hl' : ∀ target, x' ≠ .link target := by
      rintro target rfl
      cases x <;> simp_all [Entry.SameKind]
    cases x'
    case link target => exact absurd rfl (hl' target)
    all_goals simpa [h.directory hl, hi, hp, hn, hx'] using ih ha
  all_goals simp at ha

theorem takeSteps (h : a.Grows b) {follow : Bool} {links : Nat} {steps : List String}
    (ha : a.takeSteps follow links l steps = .ok (.entry k e)) :
    ∃ e', b.takeSteps follow links l steps = .ok (.entry k e') ∧ e.SameKind e' := by
  induction links generalizing l steps <;> rw [FileSystem.takeSteps] at ha ⊢
  case zero => exact h.takeStepsWith (fun _ _ he => by simp at he) ha
  case succ hi => exact h.takeStepsWith (fun _ _ => hi) ha

theorem resolve (h : a.Grows b) {cwd : Location} {follow : Bool} {p : Path}
    (ha : a.resolve cwd follow p = .ok (.entry k e)) :
    ∃ e', b.resolve cwd follow p = .ok (.entry k e') ∧ e.SameKind e' := by
  unfold FileSystem.resolve at ha ⊢
  cases hc : checkPath p
  case error => simp [hc, bind, Except.bind] at ha
  case ok => exact h.takeSteps (by simpa [hc, bind, Except.bind] using ha)

theorem find (h : a.Grows b) {cwd : Location} {p : Path} (ha : a.find cwd p = .ok (k, e)) :
    ∃ e', b.find cwd p = .ok (k, e') ∧ e.SameKind e' := by
  obtain ⟨e', he, hk⟩ := h.resolve (find_eq_ok.mp ha)
  exact ⟨e', find_eq_ok.mpr he, hk⟩

end Grows

namespace AddsDirectories

theorem refl (P : Location → Prop) (a : FileSystem) : a.AddsDirectories P a :=
  fun _ => .inl rfl

theorem trans (h : a.AddsDirectories P b) (h' : b.AddsDirectories P c) :
    a.AddsDirectories P c := by
  intro l
  rcases h l with hl | ⟨hp, ha, hb⟩ <;> rcases h' l with hl' | ⟨hp', hb', hc⟩
  · exact .inl (hl'.trans hl)
  · exact .inr ⟨hp', hl ▸ hb', hc⟩
  · exact .inr ⟨hp, ha, hl' ▸ hb⟩
  · simp [hb] at hb'

theorem mono (h : a.AddsDirectories P b) (hq : ∀ l, P l → Q l) : a.AddsDirectories Q b :=
  fun l => (h l).imp_right fun ⟨hp, hl⟩ => ⟨hq l hp, hl⟩

theorem put (h : fs.get? (dir ++ [name]) = none) :
    fs.AddsDirectories (· = dir ++ [name]) (fs.put dir name .directory) := by
  intro l
  by_cases ha : fs.Accepts dir name .directory
  case neg => exact .inl (by rw [put_of_not_accepts ha])
  case pos =>
    rw [get?_put ha]
    split
    case isTrue hl => exact .inr ⟨hl, hl ▸ h, rfl⟩
    case isFalse => exact .inl rfl

theorem get? (h : a.AddsDirectories P b) (hl : a.get? l = some e) : b.get? l = some e := by
  rcases h l with h | ⟨-, h, -⟩
  · exact h.trans hl
  · simp [hl] at h

theorem get?_eq (h : a.AddsDirectories P b) (hl : ¬P l) : b.get? l = a.get? l :=
  (h l).resolve_right fun h => hl h.1

-- What is not a directory has been there before.
theorem of_get? (h : a.AddsDirectories P b) (hl : b.get? l = some e) (he : e ≠ .directory) :
    a.get? l = some e := by
  rcases h l with h | ⟨-, -, h⟩
  · exact h ▸ hl
  · rw [hl] at h
    exact absurd (Option.some.inj h) he

theorem grows (h : a.AddsDirectories P b) : a.Grows b :=
  fun _ e he => ⟨e, h.get? he, .refl e⟩

theorem linkless (h : a.AddsDirectories P b) (ha : a.Linkless) : b.Linkless :=
  fun l target hl => ha l target (h.of_get? hl (by simp))

end AddsDirectories

theorem Touch.trans {x y z : Option Entry} (h : Touch P k x y) (h' : Touch P k y z) :
    Touch P k x z := by
  cases h
  case same => exact h'
  case added hp =>
    cases h'
    case same => exact .added hp
    case rewritten => exact .added hp
  case rewritten hp =>
    cases h'
    case same => exact .rewritten hp
    case rewritten => exact .rewritten hp
  case directory hp hk =>
    cases h'
    exact .directory hp hk

theorem Touch.mono {x y : Option Entry} (h : Touch P k x y) (hq : ∀ l, P l → Q l) :
    Touch Q k x y := by
  cases h
  case same => exact .same
  case added hp => exact .added (hq _ hp)
  case rewritten hp => exact .rewritten (hq _ hp)
  case directory hp hk => exact .directory (hq _ hp) hk

namespace Touches

theorem refl (P : Location → Prop) (a : FileSystem) : a.Touches P a :=
  fun _ => .same

theorem trans (h : a.Touches P b) (h' : b.Touches P c) : a.Touches P c :=
  fun k => (h k).trans (h' k)

theorem mono (h : a.Touches P b) (hq : ∀ l, P l → Q l) : a.Touches Q b :=
  fun k => (h k).mono hq

theorem grows (h : a.Touches P b) : a.Grows b := by
  intro k e he
  have hk := h k
  rw [he] at hk
  generalize b.get? k = y at hk ⊢
  cases hk
  case same => exact ⟨e, rfl, .refl e⟩
  case rewritten => exact ⟨_, rfl, trivial⟩

-- No link comes to be.
theorem of_link (h : a.Touches P b) {target : Path} (hk : b.get? k = some (.link target)) :
    a.get? k = some (.link target) := by
  have ht := h k
  rw [hk] at ht
  generalize a.get? k = x at ht ⊢
  cases ht
  rfl

theorem put_file {contents : ByteArray} (hp : P (dir ++ [name]))
    (hx : fs.get? (dir ++ [name]) = none ∨ ∃ old, fs.get? (dir ++ [name]) = some (.file old)) :
    fs.Touches P (fs.put dir name (.file contents)) := by
  by_cases ha : fs.Accepts dir name (.file contents)
  case neg =>
    rw [put_of_not_accepts ha]
    exact refl P fs
  case pos =>
    intro k
    rw [get?_put ha]
    split
    case isFalse => exact .same
    case isTrue hk =>
      subst hk
      rcases hx with hx | ⟨old, hx⟩ <;> rw [hx]
      case inl => exact .added hp
      case inr => exact .rewritten hp

end Touches

theorem AddsDirectories.touches (h : a.AddsDirectories Q b)
    (hp : ∀ k, Q k → ∃ l, P l ∧ k <+: l) : a.Touches P b := by
  intro k
  rcases h k with hk | ⟨hq, ha, hb⟩
  case inl =>
    rw [hk]
    exact .same
  case inr =>
    obtain ⟨l, hl, hk⟩ := hp k hq
    rw [ha, hb]
    exact .directory hl hk

end FileSystem

namespace World

open FileSystem

-- Nothing is taken away, and the working directory stays.
def Grows (w v : World) : Prop :=
  w.files.Grows v.files ∧ v.directory = w.directory

def AddsDirectories (P : Location → Prop) (w v : World) : Prop :=
  w.files.AddsDirectories P v.files ∧ v.directory = w.directory

instance : Std.Refl Grows where
  refl w := ⟨.refl w.files, rfl⟩

instance : IsTrans World Grows where
  trans _ _ _ h h' := ⟨h.1.trans h'.1, h'.2.trans h.2⟩

variable {P : Location → Prop}

def Touches (P : Location → Prop) (w v : World) : Prop :=
  w.files.Touches P v.files ∧ v.directory = w.directory

instance : Std.Refl (Touches P) where
  refl w := ⟨.refl P w.files, rfl⟩

instance : IsTrans World (Touches P) where
  trans _ _ _ h h' := ⟨h.1.trans h'.1, h'.2.trans h.2⟩

theorem Touches.grows {w v : World} (h : w.Touches P v) : w.Grows v :=
  ⟨h.1.grows, h.2⟩

instance : Std.Refl (AddsDirectories P) where
  refl w := ⟨.refl P w.files, rfl⟩

instance : IsTrans World (AddsDirectories P) where
  trans _ _ _ h h' := ⟨h.1.trans h'.1, h'.2.trans h.2⟩

namespace AddsDirectories

variable {Q : Location → Prop} {w v : World}

theorem grows (h : w.AddsDirectories P v) : w.Grows v :=
  ⟨h.1.grows, h.2⟩

theorem mono (h : w.AddsDirectories P v) (hq : ∀ l, P l → Q l) : w.AddsDirectories Q v :=
  ⟨h.1.mono hq, h.2⟩

theorem files_eq (h : w.AddsDirectories (fun _ => False) v) : v.files = w.files :=
  ext_get? fun _ => h.1.get?_eq id

end AddsDirectories

theorem Grows.find {w v : World} (h : w.Grows v) {p : Path} {l : Location} {e : Entry}
    (hw : w.files.find w.directory p = .ok (l, e)) :
    ∃ e', v.files.find v.directory p = .ok (l, e') ∧ e.SameKind e' :=
  h.2 ▸ h.1.find hw

end World

end StaticSite
