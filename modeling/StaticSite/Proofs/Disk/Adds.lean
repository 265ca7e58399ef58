import StaticSite.Proofs.Disk.Made
/-!
Operations that put one entry where nothing is. Main statements: an entry can be created below a
directory (`exists_create_below`), and a file written (`exists_write_of_vacant`).
-/
namespace StaticSite

open FileSystem Action Location

-- One entry is new, and nothing else has changed.
structure World.Adds (l : Location) (e : Entry) (w v : World) : Prop where
  vacant : w.files.get? l = none
  directory_eq : v.directory = w.directory
  get?_eq : ∀ k, v.files.get? k = if k = l then some e else w.files.get? k

variable {p : Path} {w v : World} {l k dir : Location} {name : String} {e x : Entry}

namespace World.Adds

theorem get?_self (h : w.Adds l e v) : v.files.get? l = some e :=
  (h.get?_eq l).trans (if_pos rfl)

theorem get?_of_ne (h : w.Adds l e v) (hk : k ≠ l) : v.files.get? k = w.files.get? k :=
  (h.get?_eq k).trans (if_neg hk)

theorem get? (h : w.Adds l e v) (hk : w.files.get? k = some x) : v.files.get? k = some x := by
  rw [h.get?_of_ne, hk]
  rintro rfl
  simp [h.vacant] at hk

theorem grows (h : w.Adds l e v) : w.Grows v :=
  ⟨fun _ x hx => ⟨x, h.get? hx, .refl x⟩, h.directory_eq⟩

theorem find_directory (h : w.Adds l e v)
    (hp : w.files.find w.directory p = .ok (k, .directory)) :
    v.files.find v.directory p = .ok (k, .directory) := by
  obtain ⟨x, hx, hk⟩ := h.grows.find hp
  exact Entry.SameKind.directory_iff.mp hk ▸ hx

theorem logged (h : w.Adds l e v) (log : Log) : w.Adds l e { v with log } :=
  ⟨h.vacant, h.directory_eq, h.get?_eq⟩

end World.Adds

theorem World.adds_put (ha : w.files.Accepts dir name e)
    (hv : w.files.get? (dir ++ [name]) = none) : w.Adds (dir ++ [name]) e (w.put dir name e) :=
  ⟨hv, rfl, fun _ => get?_put ha⟩

namespace Disk

theorem exists_create_below (h : w.files.find w.directory p = .ok (l, .directory))
    (hk : IsPlain (dir ++ [name])) (hn : IsName name)
    (hc : checkPath (p / toRelative (dir ++ [name])) = .ok ())
    (hg : w.files.get? (l ++ dir) = some .directory)
    (hv : w.files.get? (l ++ (dir ++ [name])) = none) (e : Entry) :
    ∃ v, exec (create (p / toRelative (dir ++ [name])) e) w = (.ok (), v) ∧
      w.Adds (l ++ (dir ++ [name])) e v := by
  rw [← List.append_assoc] at hv ⊢
  have ha : w.files.Accepts (l ++ dir) name e := ⟨hn, hg, fun hx => nomatch hv.symm.trans hx⟩
  refine ⟨_, ?_, World.adds_put ha hv⟩
  rw [exec_create, resolveLast_below_of_get? h hk hn hc hg]
  dsimp only
  rw [hv]
  rfl

theorem makeDirectories_of_makeDirectory (h : exec (makeDirectory p) w = (.ok (), v)) :
    exec (makeDirectories p) w = (.ok (), v) := by
  obtain ⟨dir, name, hr, -⟩ := makeDirectory_eq_ok h
  obtain ⟨-, hn, -, -, ps, rest, hp, -⟩ := resolveLast_eq_name hr
  refine makeDirectories_of_ensureDirectory ?_ (by rw [exec_ensureDirectory, h])
  have hm : name ∈ p.pieces := by simp [hp]
  exact Path.isEmpty_components_of_mem hm hn

theorem exists_write_of_vacant (hn : IsName name) (contents : ByteArray)
    (h : w.files.resolve w.directory true p = .ok (.vacant dir name false)) :
    ∃ v, exec (write p contents) w = (.ok (), v) ∧ w.Adds (dir ++ [name]) (.file contents) v := by
  obtain ⟨hd, hv⟩ := get?_of_resolve_vacant h
  have ha : w.files.Accepts dir name (.file contents) := ⟨hn, hd, by simp [hv]⟩
  refine ⟨_, ?_, World.adds_put ha hv⟩
  rw [write, exec_bind, exec_ask, h]
  rfl

-- A directory that has been made is new.
theorem adds_of_makeDirectory (h : exec (makeDirectory p) w = (.ok (), v)) :
    ∃ l, w.Adds l .directory v ∧ v.files.find v.directory p = .ok (l, .directory) := by
  obtain ⟨dir, name, -, hv, ha, rfl, hf⟩ := makeDirectory_eq_ok h
  exact ⟨dir ++ [name], World.adds_put ha hv, hf⟩

end Disk

end StaticSite
