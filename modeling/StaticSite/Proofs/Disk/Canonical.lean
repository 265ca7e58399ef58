import StaticSite.Proofs.Disk.Below
/-!
What operations on the disk do to the paths of locations where there are no links. Main statements:
making directories adds them on the way to the location and nowhere else
(`keeps_makeDirectories_toPath`), and a file is written at the location or not at all
(`write_toPath_cases`, `copy_toPath_cases`).
-/
namespace StaticSite

namespace FileSystem

variable {fs : FileSystem} {dir : Location} {name : String} {e e' : Entry}

theorem put_put (h : fs.Accepts dir name e) (h' : fs.Accepts dir name e')
    (hd : e = .directory → e' = .directory) :
    (fs.put dir name e).put dir name e' = fs.put dir name e' := by
  have ha : (fs.put dir name e).Accepts dir name e' := by
    refine ⟨h.1, ?_, ?_⟩
    · rw [get?_put h]
      simp [h.2.1]
    · rw [get?_put h]
      simpa using hd
  ext l : 1
  rw [get?_put ha, get?_put h, get?_put h']
  split <;> rfl

end FileSystem

namespace Disk

open FileSystem Action Location

variable {w v : World} {l : Location} {name : String}

-- Without links, directories are added where `P` says.
def AddsDirectoriesIfLinkless (P : Location → Prop) (w v : World) : Prop :=
  w.files.Linkless → w.AddsDirectories P v

instance {P : Location → Prop} : Std.Refl (AddsDirectoriesIfLinkless P) where
  refl w _ := Std.Refl.refl w

instance {P : Location → Prop} : IsTrans World (AddsDirectoriesIfLinkless P) where
  trans _ _ _ h h' hf := IsTrans.trans _ _ _ (h hf) (h' ((h hf).1.linkless hf))

-- The last step of the path may lead up again: a file name can become such a step in the output.
theorem keeps_makeDirectories_toPath (hl : l.IsPlain) (hd : IsStraight l.dropLast) :
    Keeps (AddsDirectoriesIfLinkless (· <+: l)) (makeDirectories l.toPath) := by
  intro w hf
  cases l
  case nil =>
    rw [makeDirectories_of_find hf.opens_root.find_eq]
    exact Std.Refl.refl w
  case cons name k =>
    rw [hl.toPath_eq_root_div (List.cons_ne_nil name k)]
    exact keeps_makeDirectories_below hl hd w hf.opens_root

-- If directories are made up to a location, there is one.
theorem makeDirectories_toPath (hf : w.files.Linkless) (hl : l.IsStraight)
    (h : exec (makeDirectories l.toPath) w = (.ok (), v)) : v.files.get? l = some .directory := by
  by_cases hne : l = []
  case pos => rw [hne, get?_nil]
  case neg =>
    rw [hl.isPlain.toPath_eq_root_div hne] at h
    exact get?_of_makeDirectories_below hf.opens_root hl hne h

-- If there is a directory already, nothing is made.
theorem makeDirectories_of_get? (h : w.files.get? l = some .directory) (hs : l.IsShort) :
    exec (makeDirectories l.toPath) w = (.ok (), w) :=
  makeDirectories_of_find (find_toPath h hs (by simp))

theorem makeDirectories_of_vacant (hl : w.files.get? l = some .directory)
    (hv : w.files.get? (l ++ [name]) = none) (hn : IsName name) (hs : IsShort (l ++ [name])) :
    exec (makeDirectories (l ++ [name]).toPath) w = (.ok (), w.put l name .directory) := by
  refine makeDirectories_of_ensureDirectory isEmpty_components_toPath ?_
  rw [exec_ensureDirectory, makeDirectory, exec_create, resolveLast_toPath_of_get? hl hn hs]
  simp [hv]

theorem write_toPath (hf : w.files.Linkless) (h : w.files.Writable l name) (contents : ByteArray) :
    exec (write (l ++ [name]).toPath contents) w = (.ok (), w.put l name (.file contents)) := by
  rw [write, exec_bind, exec_ask]
  rcases hx : w.files.get? (l ++ [name]) with _ | ⟨_ | old | target⟩
  case none =>
    rw [h.resolve_of_vacant hx]
    rfl
  case some.directory => exact absurd hx h.not_directory
  case some.file =>
    rw [resolve_toPath_of_get? hx h.isShort (by simp)]
    simp [replace, World.put]
  case some.link => exact absurd hx (hf _ _)

theorem write_toPath_cases (hf : w.files.Linkless) (hl : l.IsStraight) (hn : Path.IsStep name)
    (contents : ByteArray) :
    (∃ x, exec (write (l ++ [name]).toPath contents) w = (.error x, w)) ∨
      w.files.Writable l name := by
  rcases write_cases (l ++ [name]).toPath contents w with h | ⟨d, n, hr, -⟩
  case inl => exact .inl h
  case inr => exact .inr (hf.writable_of_resolve hl hn hr).2.2

theorem copy_toPath {source : Path} {k : Location} {old : ByteArray} (hf : w.files.Linkless)
    (h : w.files.Writable l name)
    (hs : w.files.find w.directory source = .ok (k, .file old)) (hk : k ≠ l ++ [name]) :
    exec (copy source (l ++ [name]).toPath) w = (.ok (), w.put l name (.file old)) := by
  have hg : (w.files.put l name (.file .empty)).get? k = some (.file old) := by
    rw [get?_put h.accepts, if_neg hk]
    exact get?_of_find hs
  have he : (w.put l name (.file .empty)).files.Linkless := hf.put (by simp)
  rw [copy, exec_bind, exec_ask, hs]
  dsimp only
  rw [exec_bind_of_ok (write_toPath hf h .empty), exec_bind_of_ok (exec_get _), World.put, hg]
  dsimp only
  rw [← World.put, write_toPath he h.put, World.put, World.put, World.put,
    put_put h.accepts h.accepts (by simp)]

theorem copy_toPath_cases (hf : w.files.Linkless) (hl : l.IsStraight) (hn : Path.IsStep name)
    (source : Path) :
    (∃ x, exec (copy source (l ++ [name]).toPath) w = (.error x, w)) ∨
      w.files.Writable l name ∧
        ∃ k old, w.files.find w.directory source = .ok (k, .file old) := by
  rcases hs : w.files.find w.directory source with x | ⟨k, _ | old | _⟩
  case ok.file =>
    rcases write_toPath_cases hf hl hn .empty with ⟨x, h⟩ | h
    case inl =>
      refine .inl ⟨x, ?_⟩
      rw [copy, exec_bind, exec_ask, hs]
      exact exec_bind_of_error h
    case inr => exact .inr ⟨h, k, old, rfl⟩
  case error => exact .inl ⟨x, by rw [copy, exec_bind, exec_ask, hs]⟩
  all_goals exact .inl ⟨.invalidInput, by rw [copy, exec_bind, exec_ask, hs]; rfl⟩

end Disk

end StaticSite
