import StaticSite.Proofs.Disk.Made
/-!
Making directories up to a path that leads nowhere yet. Main statements: the path leads to a
directory with nothing in it then (`exists_of_makeDirectories`), and slashes at its end do not
matter (`makeDirectories_trimmed_of_missing`).
-/
namespace StaticSite

open FileSystem Action

variable {fs : FileSystem} {cwd l : Location} {p q : Path} {w v : World} {name : String}
  {ps rest : List String}

section

-- Only slashes follow the last name of the path.
variable (hp : p.pieces = ps ++ name :: rest) (hn : Path.isIdle name = false)
  (hr : ∀ n ∈ rest, n = "")

include hp hn hr

theorem Path.stem_of_slashes : p.stem = ps ++ [name] :=
  stem_of_pieces hp hn fun n hm => by simp [hr n hm]

theorem Path.pieces_trimmed_of_slashes : p.trimmed.pieces = ps ++ [name] := by
  rw [trimmed_eq.2, stem_of_slashes hp hn hr, if_neg (by simp)]

theorem Path.parent?_trimmed_of_slashes : p.trimmed.parent? = p.parent? := by
  have hs : p.trimmed.stem = p.stem := by
    rw [stem_of_pieces (pieces_trimmed_of_slashes hp hn hr) hn (by simp),
      stem_of_slashes hp hn hr]
  rw [parent?, parent?, hs, trimmed_eq.1]

variable (hc : checkPath p = .ok ())

include hc

theorem FileSystem.checkPath_trimmed_of_slashes : checkPath p.trimmed = .ok () := by
  obtain ⟨rest, hs, -⟩ := Path.exists_stem_append (p := p)
  refine checkPath_ofPieces hc hs fun ht => ?_
  have he : p.trimmed = ⟨""⟩ := Path.text_inj.mp ht
  have hm : name ∈ p.trimmed.pieces := by simp [Path.pieces_trimmed_of_slashes hp hn hr]
  have hq : (⟨""⟩ : Path).pieces = [""] := by decide
  rw [he, hq, List.mem_singleton] at hm
  exact absurd hn (hm ▸ by decide)

theorem FileSystem.resolveLast_trimmed_of_slashes :
    fs.resolveLast cwd p.trimmed = fs.resolveLast cwd p := by
  rw [resolveLast_of_pieces (Path.pieces_trimmed_of_slashes hp hn hr) hn (by simp),
    resolveLast_of_pieces hp hn hr, checkPath_trimmed_of_slashes hp hn hr hc, hc,
    Path.trimmed_eq.1]

theorem Disk.ensureDirectory_trimmed_of_slashes :
    ensureDirectory p.trimmed = ensureDirectory p := by
  have hd (w : World) : isDirectory p.trimmed w = isDirectory p w := by
    obtain ⟨rest, hs, hi⟩ := Path.exists_stem_append (p := p)
    have hc' := checkPath_trimmed_of_slashes hp hn hr hc
    rw [Bool.eq_iff_iff, isDirectory_iff, isDirectory_iff]
    exact exists_congr fun l => ⟨fun h => find_of_ofPieces h hs hi hc, fun h =>
      find_ofPieces h hs hi (checkPath_eq_ok.mp hc').2.1⟩
  have he (w : World) : exec (ensureDirectory p.trimmed) w = exec (ensureDirectory p) w := by
    simp only [exec_ensureDirectory, makeDirectory, exec_create,
      resolveLast_trimmed_of_slashes hp hn hr hc, hd]
  exact funext he

-- The same directories are made for the path with and without the slashes.
theorem Disk.makeDirectories_trimmed_of_slashes :
    makeDirectories p.trimmed = makeDirectories p := by
  have hm : name ∈ p.pieces := by simp [hp]
  have hm' : name ∈ p.trimmed.pieces := by simp [Path.pieces_trimmed_of_slashes hp hn hr]
  have ha : ∀ q, p.parent? = some q →
      Path.ancestors.go p.trimmed.text.length q = Path.ancestors.go p.text.length q := by
    intro q hq
    have hq' := (Path.parent?_trimmed_of_slashes hp hn hr).trans hq
    exact Path.ancestors_go_eq (Path.length_of_parent? hq') (Path.length_of_parent? hq)
  rw [makeDirectories, makeDirectories, Path.ancestors, Path.ancestors, Path.ancestors.go,
    Path.ancestors.go, makeAncestors, makeAncestors, Path.isEmpty_components_of_mem hm hn,
    Path.isEmpty_components_of_mem hm' hn, ensureDirectory_trimmed_of_slashes hp hn hr hc,
    Path.parent?_trimmed_of_slashes hp hn hr]
  cases hq : p.parent?
  case none => rfl
  case some q => rw [Option.map_some, Option.map_some, ha q hq]

end

namespace Disk

-- Where a path led nowhere, the directory that it leads to is made itself.
theorem exists_makeDirectory_of_missing (hne : p.text ≠ "") (hp : ".." ∉ p.pieces)
    (hm : ∀ l e, w.files.find w.directory p ≠ .ok (l, e))
    (h : exec (makeDirectories p) w = (.ok (), v)) :
    ∃ u, exec (makeDirectory p) u = (.ok (), v) := by
  rcases makeAncestors_cons_eq_ok h with ⟨hc, rfl⟩ | he | ⟨t, hn, ht, he⟩
  case inl =>
    rw [Path.eq_of_isEmpty_components hc] at hne
    exact absurd rfl hne
  case inr.inl =>
    rcases ensureDirectory_eq_ok he with ⟨rfl, l, hl⟩ | hd
    case inl => exact absurd hl (hm l _)
    case inr => exact ⟨w, hd⟩
  case inr.inr =>
    rcases ensureDirectory_eq_ok he with ⟨rfl, l, hl⟩ | hd
    case inr => exact ⟨t, hd⟩
    case inl =>
      -- the directories on the way are new, and hold nothing but each other
      exfalso
      cases hq : p.parent? <;> rw [hq] at ht
      case none => simp [makeAncestors] at ht
      case some q =>
        have hqp : ".." ∉ q.pieces := fun hm =>
          (Path.mem_pieces_of_parent? hq hm).elim (by simp) hp
        have hv : v ≠ w := by
          rintro rfl
          exact hm l _ hl
        obtain ⟨k, hk, hkn⟩ := (find_of_makeAncestors hqp ht).resolve_left hv
        have hd := get?_concat_of_makeAncestors hqp ht hk hkn
        obtain ⟨name, rfl⟩ := exists_of_find_parent hq (pieces_ne_of_makeAncestors ht hv) hp hk hl
          fun name target => by simp [hd name]
        simpa [hd name] using get?_of_find hl

-- The path leads to a new directory then, with nothing in it.
theorem exists_of_makeDirectories (hne : p.text ≠ "") (hp : ".." ∉ p.pieces)
    (hm : ∀ l e, w.files.find w.directory p ≠ .ok (l, e))
    (h : exec (makeDirectories p) w = (.ok (), v)) :
    ∃ l, v.files.find v.directory p = .ok (l, .directory) ∧
      ∀ name, v.files.get? (l ++ [name]) = none := by
  obtain ⟨l, hl⟩ := (find_of_makeDirectories h).resolve_left fun ⟨hp, _⟩ => hne (hp ▸ rfl)
  have hv : v ≠ w := by
    rintro rfl
    exact hm l _ hl
  obtain ⟨k, hk, hkn⟩ := (find_of_makeAncestors hp h).resolve_left hv
  exact ⟨k, hk, get?_concat_of_makeAncestors hp h hk hkn⟩

theorem makeDirectories_trimmed_of_missing (hne : p.text ≠ "") (hp : ".." ∉ p.pieces)
    (hm : ∀ l e, w.files.find w.directory p ≠ .ok (l, e))
    (h : exec (makeDirectories p) w = (.ok (), v)) :
    exec (makeDirectories p.trimmed) w = (.ok (), v) := by
  obtain ⟨u, hu⟩ := exists_makeDirectory_of_missing hne hp hm h
  obtain ⟨dir, name, hr, -⟩ := makeDirectory_eq_ok hu
  obtain ⟨hc, hn, -, -, ps, rest, hs, hrest, -⟩ := resolveLast_eq_name hr
  rw [makeDirectories_trimmed_of_slashes hs hn hrest hc, h]

end Disk

end StaticSite
