import StaticSite.Proofs.FileSystem.Below
/-!
Where a path leads can be told from its pieces if there are no links. Main statement: it leads
nowhere else (`Linkless.find_location`).
-/
namespace StaticSite

-- Where the pieces of a path lead from a location on if there are no links.
def Location.along (l : Location) (ps : List String) : Location :=
  ps.foldl (fun l n => if Path.isIdle n then l else if n = ".." then l.dropLast else l ++ [n]) l

-- Where an absolute path leads if there are no links.
def Path.location (p : Path) : Location :=
  Location.along [] p.pieces

open Location

variable {l k : Location} {ps qs : List String} {name : String} {p : Path}

namespace Location

theorem along_append : l.along (ps ++ qs) = (l.along ps).along qs :=
  List.foldl_append

theorem along_cons : l.along (name :: ps) =
    (if Path.isIdle name then l else if name = ".." then l.dropLast else l ++ [name]).along ps :=
  rfl

theorem along_of_isIdle (h : ∀ n ∈ ps, Path.isIdle n) : l.along ps = l := by
  induction ps
  case nil => rfl
  case cons n ps hi =>
    rw [along_cons, if_pos (h n List.mem_cons_self)]
    exact hi fun m hm => h m (List.mem_cons_of_mem _ hm)

-- Without a step that leads up, all steps lead down.
theorem along_eq_append (h : ".." ∉ ps) : l.along ps = l ++ ps.filter (! Path.isIdle ·) := by
  induction ps generalizing l
  case nil => simp [along]
  case cons n ps hi =>
    obtain ⟨hn, hp⟩ : n ≠ ".." ∧ ".." ∉ ps := by simpa [eq_comm] using h
    cases hx : Path.isIdle n <;> simp [along_cons, hx, hn, hi hp]

end Location

theorem Path.location_eq_steps (h : ".." ∉ p.steps) : p.location = p.steps := by
  have hn : ".." ∉ p.pieces := fun hm => h (List.mem_filter.mpr ⟨hm, by decide⟩)
  rw [location, along_eq_append hn, List.nil_append]
  rfl

theorem Location.IsStraight.location_toPath (h : l.IsStraight) : l.toPath.location = l := by
  have hs := h.isPlain.steps_toPath
  rw [Path.location_eq_steps, hs]
  rw [hs]
  exact fun hm => (h _ hm).2 rfl

theorem Path.location_below (hn : IsStep name) (hp : name ≠ "..") :
    (p / toRelative [name]).location = p.location ++ [name] := by
  have hk : IsPlain ([] ++ [name]) := IsPlain.nil.concat hn
  have hb : p.location = Location.along [] p.base := by
    rw [location]
    rcases pieces_eq_base (p := p) with h | h <;> rw [h]
    rw [along_append, along_of_isIdle (by simp)]
  rw [List.nil_append] at hk
  rw [location, pieces_toRelative_below hk (by simp), along_append, ← hb, along_cons,
    if_neg (by simp [hn.1]), if_neg hp]
  rfl

namespace FileSystem

variable {fs : FileSystem} {cwd : Location} {follow : Bool} {links : Nat} {e : Entry}

-- Steps lead where they say.
theorem Linkless.takeSteps_along (hf : fs.Linkless)
    (h : fs.takeSteps follow links l ps = .ok (.entry k e)) : k = l.along ps := by
  rw [takeSteps_eq_takeStepsWith] at h
  fun_induction fs.takeStepsWith (fs.jump follow links) follow l ps
  case case2 =>
    obtain ⟨rfl, -⟩ : _ = k ∧ _ := by simpa using h
    rfl
  case case3 hi ih => rw [along_cons, if_pos hi, ih h]
  case case4 hi ih => rw [along_cons, if_neg hi, if_pos rfl, ih h]
  case case8 ht _ => exact absurd ht (hf _ _)
  case case9 ht _ => exact absurd ht (hf _ _)
  case case10 hi hp _ _ _ _ ih => rw [along_cons, if_neg hi, if_neg hp, ih h]
  all_goals simp at h

theorem Linkless.find_location (hf : fs.Linkless) (ha : p.isAbsolute)
    (h : fs.find cwd p = .ok (k, e)) : k = p.location := by
  have ht := (find_iff_takeSteps.mp h).2
  rw [if_pos ha] at ht
  exact hf.takeSteps_along ht

end FileSystem

end StaticSite
