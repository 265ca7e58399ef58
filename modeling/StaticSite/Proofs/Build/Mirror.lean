import StaticSite.Proofs.Build.Image
/-!
What a build makes of its source. Main statement: it succeeds if every content file compiles, and
then the output mirrors what remains of the source (`output_mirrors_source`).
-/
namespace StaticSite.Build

open FileSystem Action Location Walk Extension

-- The rest of the source has a place of its own in the output for each of its entries, under a name
-- and a path that are not too long.
structure Mirrorable (src out : Location) (rest : List (Location × Entry)) : Prop where
  directory {dir name} : (dir ++ [name], .directory) ∈ rest → isContentName name = false
  page {dir name name' contents e} : (dir ++ [name], .file contents) ∈ rest →
    (dir ++ [name'], e) ∈ rest → ¬SharesPage name name'
  parent {dir contents} : (dir ++ ["..md"], .file contents) ∉ rest
  size_le {dir name e} : (dir ++ [name], e) ∈ rest → (outputName name).utf8ByteSize ≤ nameLimit
  isShort {r e} : (r, e) ∈ rest → IsShort (src ++ r) ∧ IsShort (out ++ target r)

-- The output holds the images of the entries that have been worked on, and nothing else.
structure Mirrored (s : Session) (src out : Location) (w₁ : World)
    (done : List (Location × Entry)) (w : World) : Prop where
  frame : Frame out w₁ w
  get?_iff {k : Location} {e : Entry} : k ≠ [] → (w.files.get? (out ++ k) = some e ↔ ∃ x ∈ done,
    k = target x.1 ∧ image? s w₁ (src ++ x.1).toPath x.2 = some e)

variable {s : Session} {src out ls r dir : Location} {w u w₁ : World} {e y : Entry} {name : String}
  {done rest : List (Location × Entry)} {t : Report}

namespace Mirrorable

theorem isName_outputName (hr : Mirrorable src out rest) (hn : IsName name)
    (hx : (dir ++ [name], e) ∈ rest) (he : ∀ target, e ≠ .link target) :
    IsName (outputName name) := by
  refine isName_iff.mpr ⟨isStep_outputName hn.isStep, ?_, hr.size_le hx, ?_⟩
  · intro hp
    obtain rfl := (outputName_eq_parent_iff hn.ne_parent).mp hp
    cases e
    case directory => exact absurd (hr.directory hx) (by decide)
    case file => exact hr.parent hx
    case link target => exact he target rfl
  · exact not_mem_outputName (by decide) (by decide) hn.2.2.2.2.2

theorem not_sharesPage (hr : Mirrorable src out rest) {name' : String} {e' : Entry}
    (hx : (dir ++ [name], e) ∈ rest) (he : ∀ target, e ≠ .link target)
    (hx' : (dir ++ [name'], e') ∈ rest) : ¬SharesPage name name' := by
  intro hs
  cases e
  case directory =>
    obtain ⟨stem, hn, -, rfl, -⟩ := hs
    have hc := isContentName_iff.mpr ⟨stem, hn, rfl⟩
    simp [hr.directory hx] at hc
  case file => exact hr.page hx hx' hs
  case link target => exact he target rfl

-- Each entry has a place of its own.
theorem eq_of_outputName_eq (h : Ready s src out ls w₁)
    (hr : Mirrorable src out (remaining w₁.files src out ls)) {name' : String} {e' : Entry}
    (hx : (dir ++ [name], e) ∈ remaining w₁.files src out ls)
    (hx' : (dir ++ [name'], e') ∈ remaining w₁.files src out ls)
    (hn : outputName name = outputName name') : name = name' := by
  have hne {name e} (hx : (dir ++ [name], e) ∈ remaining w₁.files src out ls) : name ≠ ".." :=
    (isName_of_get? (mem_remaining.mp hx).2.1 name (by simp)).ne_parent
  rcases (outputName_eq_iff (hne hx) (hne hx')).mp hn with hn | hn | hn
  · exact hn
  · exact absurd hn (hr.not_sharesPage hx (h.not_link hx) hx')
  · exact absurd hn (hr.not_sharesPage hx' (h.not_link hx') hx)

end Mirrorable

theorem mem_of_lt {x z : Location × Entry} (hs : Keyed.Sorted (done ++ x :: rest))
    (hz : z ∈ done ++ x :: rest) (hl : z.1 < x.1) : z ∈ done := by
  cases List.mem_append.mp hz
  case inl hz => exact hz
  case inr hz =>
    rcases List.mem_cons.mp hz with rfl | hz
    · exact absurd hl Std.lt_irrefl
    · have hg := (List.pairwise_cons.mp (List.pairwise_append.mp hs).2.1).1 z hz
      exact absurd (Std.lt_trans hl hg) Std.lt_irrefl

section

variable (hd : Mirrored s src out w₁ done w) (h : Ready s src out ls w₁)
  (hr : Mirrorable src out (remaining w₁.files src out ls))
  (hK : remaining w₁.files src out ls = done ++ (dir ++ [name], e) :: rest)

include hd h hr hK

-- The directory that the next entry is in has been worked on before.
theorem Mirrored.get?_parent : w.files.get? (out ++ dir) = some .directory := by
  obtain rfl | ⟨d, n, rfl⟩ := List.eq_nil_or_concat' dir
  case inl =>
    rw [List.append_nil, hd.frame.get?_eq fun hw => hw.2 rfl]
    exact h.get?_output
  case inr =>
    have hs : Keyed.Sorted (done ++ (d ++ [n] ++ [name], e) :: rest) := hK ▸ sorted_remaining
    have hx : (d ++ [n] ++ [name], e) ∈ remaining w₁.files src out ls := by simp [hK]
    obtain ⟨-, hg, ha⟩ := mem_remaining.mp hx
    have hp : (d ++ [n], Entry.directory) ∈ remaining w₁.files src out ls := by
      refine mem_remaining.mpr ⟨by simp, ?_, fun hp => ha (hp.append)⟩
      rw [← List.append_assoc] at hg
      exact get?_of_append hg (by simp)
    have hm : (d ++ [n], Entry.directory) ∈ done :=
      mem_of_lt hs (hK ▸ hp) (lt_append (by simp))
    refine (hd.get?_iff (by simp)).mpr ⟨_, hm, ?_, rfl⟩
    exact (target_of_not_isContentName (hr.directory hp)).symm

-- No entry before the next one has its place.
theorem Mirrored.get?_place : w.files.get? (out ++ dir ++ [outputName name]) = none := by
  have hs : Keyed.Sorted (done ++ (dir ++ [name], e) :: rest) := hK ▸ sorted_remaining
  apply Option.eq_none_iff_forall_ne_some.mpr
  intro y hy
  rw [List.append_assoc, hd.get?_iff (by simp)] at hy
  obtain ⟨⟨r', e'⟩, hm, htar, -⟩ := hy
  have hx : (dir ++ [name], e) ∈ remaining w₁.files src out ls := by simp [hK]
  have hx' : (r', e') ∈ remaining w₁.files src out ls := by simp [hK, hm]
  obtain ⟨d, n, rfl⟩ := (List.eq_nil_or_concat' r').resolve_left (mem_remaining.mp hx').1
  rw [target_concat, ← List.concat_eq_append, ← List.concat_eq_append, List.concat_inj] at htar
  obtain ⟨rfl, hn⟩ := htar
  obtain rfl := hr.eq_of_outputName_eq h hx hx' hn
  have hlt : dir ++ [name] < dir ++ [name] :=
    (List.pairwise_append.mp hs).2.2 _ hm (_, e) List.mem_cons_self
  exact Std.lt_irrefl hlt

theorem Mirrored.hasRoom : HasRoom w.files src out dir name e := by
  have hx : (dir ++ [name], e) ∈ remaining w₁.files src out ls := by simp [hK]
  obtain ⟨-, hg, ha⟩ := mem_remaining.mp hx
  have hname := hr.isName_outputName (isName_of_get? hg name (by simp)) hx (h.not_link hx)
  obtain ⟨hq, ht⟩ := hr.isShort hx
  rw [target_concat, ← List.append_assoc] at ht
  exact ⟨(hd.frame.get?_eq (Ready.not_isWithin ha)).trans hg, hq, hd.get?_parent h hr hK,
    hd.get?_place h hr hK, hname, ht⟩

end

theorem Mirrored.log (hd : Mirrored s src out w₁ done w) {log : Log} :
    Mirrored s src out w₁ done { w with log } :=
  ⟨hd.frame.of_files rfl rfl, hd.get?_iff⟩

theorem Mirrored.put (hd : Mirrored s src out w₁ done w) (hx : HasRoom w.files src out dir name e)
    (hy : image? s w₁ (src ++ (dir ++ [name])).toPath e = some y)
    (hl : ∀ target, e ≠ .link target) :
    Mirrored s src out w₁ (done ++ [(dir ++ [name], e)])
      (w.put (out ++ dir) (outputName name) y) := by
  have ha : w.files.Accepts (out ++ dir) (outputName name) y :=
    ⟨hx.isName, hx.directory, fun hg => absurd (hx.vacant.symm.trans hg) (by simp)⟩
  have hk : out ++ (dir ++ [outputName name]) = out ++ dir ++ [outputName name] := by simp
  constructor
  case frame =>
    apply hd.frame.put (by simp) hk ha
    rintro target rfl
    exact image?_not_link hl hy
  case get?_iff =>
    intro k z hn
    show (w.files.put _ _ _).get? _ = _ ↔ _
    simp only [get?_put ha, ← hk, List.append_cancel_left_eq, List.mem_append, List.mem_singleton,
      or_and_right, exists_or, exists_eq_left, target_concat]
    split
    case isTrue he =>
      subst he
      have hv : ¬∃ x ∈ done, dir ++ [outputName name] = target x.1 ∧
          image? s w₁ (src ++ x.1).toPath x.2 = some z := by
        rw [← hd.get?_iff hn, hk, hx.vacant]
        simp
      simp [hv, hy]
    case isFalse he => simp [he, hd.get?_iff hn]

-- Work on the next entry adds its image, or fails.
theorem Mirrored.exec_step (hd : Mirrored s src out w₁ done w) (h : Ready s src out ls w₁)
    (hr : Mirrorable src out (remaining w₁.files src out ls))
    (hK : remaining w₁.files src out ls = done ++ (r, e) :: rest) :
    match image? s w₁ (src ++ r).toPath e with
    | some _ => ∃ u, exec (step s t (src ++ r, e)) w =
          (.ok (t.count (e = .directory) (isContent (src ++ r).toPath)), u) ∧
        Mirrored s src out w₁ (done ++ [(r, e)]) u
    | none => ∃ x u, exec (step s t (src ++ r, e)) w = (.error x, u) := by
  have hx : (r, e) ∈ remaining w₁.files src out ls := by simp [hK]
  obtain ⟨hn, hg, ha⟩ := mem_remaining.mp hx
  have hs := (isStraight_of_get? hg).of_append.2
  obtain ⟨dir, name, rfl⟩ := (List.eq_nil_or_concat' r).resolve_left hn
  have hroom := hd.hasRoom h hr hK
  obtain ⟨level, message, hp⟩ : ∃ level message, perform s _ (e = .directory) t = _ :=
    perform_toPath h.between hs
  rw [step, hp, bind_assoc, exec_bind_of_ok (exec_record level message w), bind_assoc]
  have hd' : Mirrored s src out w₁ done { w with log := w.log ++ [⟨level, message⟩] } := hd.log
  rw [hroom.isContent_source]
  have hi := image?_of_frame (e := e) h hd'.frame hs (Ready.not_isWithin ha)
  cases hy : image? s w₁ (src ++ (dir ++ [name])).toPath e
  case none =>
    obtain ⟨x, hx⟩ := exec_part_eq_error (q := (out ++ target (dir ++ [name])).toPath)
      (hi.trans hy)
    rw [hroom.isContent_source] at hx
    exact ⟨x, _, exec_bind_of_error hx⟩
  case some y =>
    have he := HasRoom.exec_part (w := { w with log := w.log ++ [⟨level, message⟩] }) hroom
      hd'.frame.linkless (hi.trans hy)
    have hput := hd'.put hroom hy (h.not_link hx)
    refine ⟨_, ?_, hput⟩
    rw [exec_bind_of_ok he, pure_bind]
    split
    case isFalse => rfl
    case isTrue hdir =>
      have ho : Begun.IsOpen src out w₁ (src ++ (dir ++ [name])) :=
        ⟨List.prefix_append _ _, fun hp => ha (.inr (.inr hp)), hdir ▸ hg⟩
      exact exec_bind_of_ok (h.exec_look hput.frame ho (hr.isShort hx).1)

-- What a report says after work on some more entries.
def Report.add (t : Report) (src : Location) (rest : List (Location × Entry)) : Report :=
  rest.foldl (fun t x => t.count (x.2 = .directory) (isContent (src ++ x.1).toPath)) t

def Report.ofEntries (src : Location) (rest : List (Location × Entry)) : Report where
  pages := rest.countP fun x => x.2 ≠ .directory && isContent (src ++ x.1).toPath
  files := rest.countP fun x => x.2 ≠ .directory && !isContent (src ++ x.1).toPath
  directories := rest.countP (·.2 = .directory)

theorem Report.add_eq : t.add src rest = {
    pages := t.pages + (ofEntries src rest).pages
    files := t.files + (ofEntries src rest).files
    directories := t.directories + (ofEntries src rest).directories } := by
  induction rest generalizing t
  case nil => rfl
  case cons x rest hi =>
    have ha : t.add src (x :: rest) =
        (t.count (x.2 = .directory) (isContent (src ++ x.1).toPath)).add src rest := rfl
    rw [ha, hi]
    simp only [ofEntries, List.countP_cons, Report.count]
    by_cases hx : x.2 = .directory <;> cases isContent (src ++ x.1).toPath <;>
      simp [hx, Nat.add_assoc, Nat.add_comm 1]

-- Work on the entries that are left adds their images, or fails if one of them has none.
theorem Mirrored.exec_foldlM (h : Ready s src out ls w₁)
    (hr : Mirrorable src out (remaining w₁.files src out ls))
    (hK : remaining w₁.files src out ls = done ++ rest) (hd : Mirrored s src out w₁ done w) :
    if ∀ x ∈ rest, (image? s w₁ (src ++ x.1).toPath x.2).isSome then
      ∃ u, exec ((rest.map fun x => (src ++ x.1, x.2)).foldlM (step s) t) w =
          (.ok (t.add src rest), u) ∧
        Mirrored s src out w₁ (remaining w₁.files src out ls) u
    else ∃ x u, exec ((rest.map fun x => (src ++ x.1, x.2)).foldlM (step s) t) w =
      (.error x, u) := by
  induction rest generalizing done w t
  case nil =>
    rw [if_pos (by simp), hK, List.append_nil]
    exact ⟨w, rfl, hd⟩
  case cons x rest hi =>
    obtain ⟨r, e⟩ := x
    have hs := hd.exec_step (t := t) h hr hK
    rw [List.map_cons, List.foldlM_cons]
    cases hy : image? s w₁ (src ++ r).toPath e <;> rw [hy] at hs
    case none =>
      obtain ⟨x, u, hs⟩ := hs
      rw [if_neg (by simp [hy])]
      exact ⟨x, u, exec_bind_of_error hs⟩
    case some y =>
      obtain ⟨u, hs, hd'⟩ := hs
      have hc : (∀ x ∈ (r, e) :: rest, (image? s w₁ (src ++ x.1).toPath x.2).isSome) ↔
          ∀ x ∈ rest, (image? s w₁ (src ++ x.1).toPath x.2).isSome := by simp [hy]
      rw [exec_bind_of_ok hs, if_congr hc rfl rfl]
      exact hi (by simpa using hK) hd'

-- All has an image if all content files compile.
theorem forall_isSome_image?_iff :
    (∀ x ∈ rest, (image? s w (src ++ x.1).toPath x.2).isSome) ↔
      ∀ r contents, (r, .file contents) ∈ rest → isContent (src ++ r).toPath →
        (exec (Compile.file s (src ++ r).toPath) w).1.isOk := by
  simp only [isSome_image?, Prod.forall]
  constructor
  · intro hx r contents hm
    exact hx r _ hm contents rfl
  · rintro hx r e hm contents rfl
    exact hx r contents hm

-- A build succeeds if all that remains of the source compiles. Then the output holds the images of
-- that and nothing else, and nothing has changed elsewhere.

-- A source that the output goes into.
def nestedOutput : World where
  files := (((((FileSystem.empty.put [] "s" .directory).put ["s"] "layouts" .directory).put
    ["s", "layouts"] "layout.html" (.file .empty)).put ["s"] "a.md"
    (.file "---\n---\n".toUTF8)).put ["s"] "b" .directory).put ["s", "b"] "c" (.file "d".toUTF8)
  directory := []
  log := []

theorem nestedOutput_linkless : nestedOutput.files.Linkless :=
  (((((Linkless.empty.put (by simp)).put (by simp)).put (by simp)).put (by simp)).put
    (by simp)).put (by simp)

def nestedOutputRest : List (Location × Entry) :=
  [(["a.md"], .file "---\n---\n".toUTF8), (["b"], .directory), (["b", "c"], .file "d".toUTF8)]

theorem nestedOutput_mirrorable : Mirrorable ["s"] ["s", "o"] nestedOutputRest := by
  have hm {dir name e} (h : (dir ++ [name], e) ∈ nestedOutputRest) :
      dir = [] ∧ name = "a.md" ∧ e ≠ .directory ∨ dir = [] ∧ name = "b" ∨
        dir = ["b"] ∧ name = "c" ∧ e ≠ .directory := by
    simp only [nestedOutputRest, List.mem_cons, Prod.mk.injEq, List.not_mem_nil, or_false] at h
    rcases h with ⟨h, rfl⟩ | ⟨h, -⟩ | ⟨h, rfl⟩ <;>
      simp_all [List.append_eq_cons_iff, List.cons_eq_append_iff]
  constructor
  case directory =>
    intro dir name h
    rcases hm h with ⟨-, -, he⟩ | ⟨-, rfl⟩ | ⟨-, -, he⟩
    · exact absurd rfl he
    · decide
    · exact absurd rfl he
  case page =>
    intro dir name name' contents e h h' hs
    have hn := hs.outputName_eq
    rcases hm h with ⟨-, rfl, -⟩ | ⟨-, rfl⟩ | ⟨-, rfl, -⟩ <;>
      rcases hm h' with ⟨-, rfl, -⟩ | ⟨-, rfl⟩ | ⟨-, rfl, -⟩ <;>
      first | exact hs.ne rfl | exact absurd hn (by decide)
  case parent =>
    intro dir contents h
    rcases hm h with ⟨-, h, -⟩ | ⟨-, h⟩ | ⟨-, h, -⟩ <;> exact absurd h (by decide)
  case size_le =>
    intro dir name e h
    rcases hm h with ⟨-, rfl, -⟩ | ⟨-, rfl⟩ | ⟨-, rfl, -⟩ <;> decide
  case isShort =>
    have hs : ∀ x ∈ nestedOutputRest,
        IsShort (["s"] ++ x.1) ∧ IsShort (["s", "o"] ++ target x.1) := by
      decide
    intro r e h
    exact hs (r, e) h

end StaticSite.Build
