import StaticSite.Proofs.Disk.Again
import StaticSite.Proofs.FileSystem.Links
/-!
Removing a directory that has been made. Main statements: while it is there, it is removed with all
that has come into it (`exec_removeTree`), and where nothing is, there is nothing to remove
(`exec_removeTree_of_find`).
-/
namespace StaticSite

open FileSystem Action Location

namespace FileSystem

variable {fs : FileSystem} {cwd l k : Location} {p : Path} {e : Entry}

theorem get?_foldl_erase {xs : List (String × Entry)} :
    (xs.foldl (fun fs x => fs.erase (l ++ [x.1])) fs).get? k =
      if ∃ x ∈ xs, l ++ [x.1] <+: k then none else fs.get? k := by
  induction xs generalizing fs
  case nil => simp
  case cons x xs hi =>
    rw [List.foldl_cons, hi, get?_erase (by simp)]
    simp only [List.exists_mem_cons_iff]
    by_cases hx : l ++ [x.1] <+: k
    case pos => simp [hx]
    case neg => simp only [hx, false_or, if_false]

-- What is below a directory is in it or below one of its entries.
theorem exists_mem_children (h : fs.get? k = some e) (hk : l <+: k) (hne : k ≠ l) :
    ∃ x ∈ fs.children l, l ++ [x.1] <+: k := by
  obtain ⟨m, rfl⟩ := hk
  obtain ⟨name, r, rfl⟩ := List.exists_cons_of_ne_nil (l := m) (by simpa using hne)
  rw [List.append_cons] at h ⊢
  have hx : ∃ x, fs.get? (l ++ [name]) = some x := by
    by_cases hr : r = []
    case pos => exact ⟨e, by simpa [hr] using h⟩
    case neg => exact ⟨_, get?_of_append h hr⟩
  obtain ⟨x, hx⟩ := hx
  exact ⟨(name, x), mem_children.mpr hx, List.prefix_append _ _⟩

theorem get?_eraseContents :
    (Disk.eraseContents l fs).get? k = if l <+: k ∧ k ≠ l then none else fs.get? k := by
  rw [Disk.eraseContents, get?_foldl_erase]
  by_cases hk : l <+: k ∧ k ≠ l
  case neg =>
    rw [if_neg hk, if_neg]
    rintro ⟨x, -, hx⟩
    refine hk ⟨(List.prefix_append l _).trans hx, ?_⟩
    rintro rfl
    have := hx.length_le
    rw [List.length_append, List.length_singleton] at this
    omega
  case pos =>
    rw [if_pos hk]
    cases hx : fs.get? k
    case none => split <;> rfl
    case some e => rw [if_pos (exists_mem_children hx hk.1 hk.2)]

end FileSystem

namespace Disk

variable {p : Path} {w v : World} {dir : Location} {name : String}

-- The directory goes with all that has come into it.
theorem exec_removeTree {a : FileSystem} (ha : a.Grows w.files)
    (hn : a.get? (dir ++ [name]) = none)
    (hr : a.resolveLast w.directory p = .ok (.name dir name))
    (hg : w.files.get? (dir ++ [name]) = some .directory) :
    ∃ v, exec (removeTree p) w = (.ok (), v) ∧ v.directory = w.directory ∧
      ∀ k, v.files.get? k = if dir ++ [name] <+: k then none else w.files.get? k := by
  let u : World := { w with files := eraseContents (dir ++ [name]) w.files }
  have hu : a.Grows u.files := by
    intro k e hk
    obtain ⟨e', he', hs⟩ := ha k e hk
    refine ⟨e', ?_, hs⟩
    show (eraseContents (dir ++ [name]) w.files).get? k = _
    rw [get?_eraseContents, if_neg, he']
    rintro ⟨hp, hne⟩
    have hd := get?_of_prefix hk hp (Ne.symm hne)
    simp [hd] at hn
  have hug : u.files.get? (dir ++ [name]) = some .directory := by
    show (eraseContents (dir ++ [name]) w.files).get? _ = _
    rw [get?_eraseContents, if_neg (by simp), hg]
  refine ⟨{ u with files := u.files.erase (dir ++ [name]) }, ?_, rfl, fun k => ?_⟩
  · have hx : exec (ask (·.resolve · false p)) w = (.ok (.entry (dir ++ [name]) .directory), w) := by
      rw [exec_ask, resolve_of_resolveLast (ha.resolveLast hr) hg]
    have hl : exec (ask (·.resolveLast · p)) u = (.ok (.name dir name), u) := by
      rw [exec_ask]
      exact Prod.ext (hu.resolveLast hr) rfl
    rw [removeTree, exec_bind_of_ok hx]
    dsimp only
    rw [exec_bind_of_ok (exec_change _ w), exec_bind_of_ok hl]
    dsimp only
    rw [exec_bind_of_ok (exec_get u), hug]
    rfl
  · show (u.files.erase (dir ++ [name])).get? k = _
    rw [get?_erase (by simp)]
    split
    case isTrue => rfl
    case isFalse hk =>
      show (eraseContents (dir ++ [name]) w.files).get? k = _
      rw [get?_eraseContents, if_neg fun h => hk h.1]

-- Where nothing is, there is nothing to remove.
theorem exec_removeTree_of_find (hf : w.files.Linkless)
    (h : w.files.find w.directory p = .error .notFound) :
    exec (removeTree p) w = (.error .notFound, w) := by
  rw [removeTree, exec_bind, exec_ask, hf.resolve_follow]
  unfold FileSystem.find at h
  rcases hx : w.files.resolve w.directory true p with x | _ | _ <;> rw [hx] at h
  case error =>
    obtain rfl : x = .notFound := by simpa [bind, Except.bind] using h
    rfl
  case ok.entry => simp [bind, Except.bind, pure, Except.pure] at h
  case ok.vacant => rfl

end Disk

end StaticSite
