import StaticSite.Build.Session
import StaticSite.Proofs.FileSystem.Canonical
import StaticSite.Proofs.Path.Last
/-!
Where the entries of the source go. Main statements: an entry keeps its place, under a name that
depends on its own name alone (`outputPath_below`), and the names that share one are those of a
content file and of its page (`outputName_eq_iff`).
-/
namespace StaticSite

namespace Extension

open Path

def isContentName (name : String) : Bool :=
  (splitExtension name).2 == some content

-- The name of the page of a content file. With a single dot before the extension, it leads up.
def pageName (stem : String) : String :=
  if stem = "." then ".." else stem ++ "." ++ page

-- The name that an entry of the source gets in the output.
def outputName (name : String) : String :=
  if isContentName name then pageName (splitExtension name).1 else name

variable {name stem a b : String}

theorem isContentName_iff :
    isContentName name ↔ ∃ stem, stem ≠ "" ∧ name = stem ++ "." ++ content := by
  rw [isContentName, beq_iff_eq]
  constructor
  · intro h
    have hx : splitExtension name = (_, some content) := Prod.ext rfl h
    obtain ⟨hn, hs⟩ := splitExtension_eq_some hx
    exact ⟨_, hs, hn⟩
  · rintro ⟨stem, hs, rfl⟩
    rw [splitExtension_append hs (by decide)]

theorem outputName_content (hs : stem ≠ "") :
    outputName (stem ++ "." ++ content) = pageName stem := by
  have hc : isContentName (stem ++ "." ++ content) := isContentName_iff.mpr ⟨stem, hs, rfl⟩
  rw [outputName, if_pos hc, splitExtension_append hs (by decide)]

theorem outputName_of_not_isContentName (h : isContentName name = false) :
    outputName name = name := by
  simp [outputName, h]

theorem pageName_eq_parent_iff : pageName stem = ".." ↔ stem = "." := by
  unfold pageName
  split
  case isTrue h => simp [h]
  case isFalse h =>
    have : stem ++ "." ++ page ≠ ".." := by
      intro he
      have := congrArg (fun name : String => name.toList.reverse.head?) he
      simp [page] at this
    simp [h, this]

theorem pageName_inj : pageName a = pageName b ↔ a = b := by
  by_cases ha : a = "."
  case pos => rw [ha, eq_comm, show pageName "." = ".." from rfl, pageName_eq_parent_iff, eq_comm]
  case neg =>
    by_cases hb : b = "."
    case pos => rw [hb, show pageName "." = ".." from rfl, pageName_eq_parent_iff]
    case neg => simp [pageName, ha, hb, ← String.toList_inj]

theorem isContentName_page (hs : stem ≠ "") : isContentName (stem ++ "." ++ page) = false := by
  have : (some page == some content) = false := by decide
  rw [isContentName, splitExtension_append hs (by decide), this]

theorem isContentName_outputName : isContentName (outputName name) = false := by
  cases hc : isContentName name
  case false => rwa [outputName_of_not_isContentName hc]
  case true =>
    obtain ⟨stem, hs, rfl⟩ := isContentName_iff.mp hc
    rw [outputName_content hs]
    unfold pageName
    split
    case isTrue => decide
    case isFalse => exact isContentName_page hs

theorem outputName_eq_self_iff : outputName name = name ↔ isContentName name = false :=
  ⟨fun h => h ▸ isContentName_outputName, outputName_of_not_isContentName⟩

-- A content file and its page.
def SharesPage (a b : String) : Prop :=
  ∃ stem, stem ≠ "" ∧ stem ≠ "." ∧ a = stem ++ "." ++ content ∧ b = stem ++ "." ++ page

theorem SharesPage.outputName_eq (h : SharesPage a b) : outputName a = outputName b := by
  obtain ⟨stem, hs, hd, rfl, rfl⟩ := h
  rw [outputName_content hs, outputName_of_not_isContentName (isContentName_page hs), pageName,
    if_neg hd]

theorem SharesPage.ne (h : SharesPage a b) : a ≠ b := by
  obtain ⟨stem, hs, -, rfl, rfl⟩ := h
  simp [← String.toList_inj, content, page]

-- A page takes the name of a file that is no content file only if it is the page of that name.
theorem sharesPage_of_outputName_eq (ha : isContentName a) (hb : isContentName b = false)
    (hn : b ≠ "..") (h : outputName a = outputName b) : SharesPage a b := by
  obtain ⟨stem, hs, rfl⟩ := isContentName_iff.mp ha
  rw [outputName_content hs, outputName_of_not_isContentName hb] at h
  have hd : stem ≠ "." := fun hd => hn (h ▸ pageName_eq_parent_iff.mpr hd)
  exact ⟨stem, hs, hd, rfl, by rw [← h, pageName, if_neg hd]⟩

theorem outputName_eq_iff (ha : a ≠ "..") (hb : b ≠ "..") :
    outputName a = outputName b ↔ a = b ∨ SharesPage a b ∨ SharesPage b a := by
  constructor
  case mpr =>
    rintro (rfl | h | h)
    · rfl
    · exact h.outputName_eq
    · exact h.outputName_eq.symm
  case mp =>
    intro h
    cases hca : isContentName a <;> cases hcb : isContentName b
    case false.false =>
      rw [outputName_of_not_isContentName hca, outputName_of_not_isContentName hcb] at h
      exact .inl h
    case true.false => exact .inr (.inl (sharesPage_of_outputName_eq hca hcb hb h))
    case false.true => exact .inr (.inr (sharesPage_of_outputName_eq hcb hca ha h.symm))
    case true.true =>
      obtain ⟨s, hs, rfl⟩ := isContentName_iff.mp hca
      obtain ⟨t, ht, rfl⟩ := isContentName_iff.mp hcb
      rw [outputName_content hs, outputName_content ht, pageName_inj] at h
      exact .inl (h ▸ rfl)

theorem isStep_outputName (h : IsStep name) : IsStep (outputName name) := by
  cases hc : isContentName name
  case false => rwa [outputName_of_not_isContentName hc]
  case true =>
    obtain ⟨stem, hs, rfl⟩ := isContentName_iff.mp hc
    rw [outputName_content hs]
    unfold pageName
    split
    case isTrue => decide
    case isFalse =>
      have hn : '/' ∉ stem.toList := fun hm => h.2 (by simp [hm])
      exact ⟨isIdle_of_one_lt_length (by simp [page]), by simp [hn, page]⟩

theorem outputName_eq_parent_iff (h : name ≠ "..") : outputName name = ".." ↔ name = "..md" := by
  cases hc : isContentName name
  case false =>
    rw [outputName_of_not_isContentName hc]
    have : isContentName "..md" := by decide
    exact ⟨fun he => absurd he h, by rintro rfl; simp [hc] at this⟩
  case true =>
    obtain ⟨stem, hs, rfl⟩ := isContentName_iff.mp hc
    have hd : "..md" = "." ++ "." ++ content := by decide
    rw [outputName_content hs, pageName_eq_parent_iff, hd, String.append_left_inj,
      String.append_left_inj]

theorem not_mem_outputName {c : Char} (hc : c ≠ '.') (hp : c ∉ page.toList)
    (h : c ∉ name.toList) : c ∉ (outputName name).toList := by
  cases hn : isContentName name
  case false => rwa [outputName_of_not_isContentName hn]
  case true =>
    obtain ⟨stem, hs, rfl⟩ := isContentName_iff.mp hn
    rw [outputName_content hs]
    unfold pageName
    split
    case isTrue => simpa using hc
    case isFalse => simp_all

end Extension

namespace Location

open Extension

variable {l k dir : Location} {name : String}

theorem isContent_toRelative (h : IsStraight (dir ++ [name])) :
    isContent (toRelative (dir ++ [name])) = isContentName name := by
  have hn := (h name (by simp)).2
  rw [isContent, Path.extension?, h.isPlain.fileName?_toRelative hn]
  rfl

theorem isContent_toPath (h : IsStraight (dir ++ [name])) :
    isContent (toPath (dir ++ [name])) = isContentName name := by
  have hn := (h name (by simp)).2
  rw [isContent, Path.extension?, h.isPlain.fileName?_toPath hn]
  rfl

theorem isContent_below {p : Path} (h : IsStraight (dir ++ [name])) :
    isContent (p / toRelative (dir ++ [name])) = isContentName name := by
  have hn := (h name (by simp)).2
  rw [isContent, Path.extension?, Path.fileName?_below h.isPlain hn]
  rfl

-- A content file gets the name of its page, wherever it stands.
theorem withExtension_below {p : Path} {stem : String}
    (h : IsStraight (dir ++ [stem ++ "." ++ content])) (hs : stem ≠ "") :
    (p / toRelative (dir ++ [stem ++ "." ++ content])).withExtension page =
      p / toRelative (dir ++ [pageName stem]) := by
  have hr := h.isPlain.isAbsolute_toRelative (by simp)
  have hl := (Path.leadsTo_toRelative h.isPlain).below (q := p) hr
  have hn : IsPlain (dir ++ [pageName stem]) := by
    refine h.isPlain.of_append.1.concat ?_
    rw [← outputName_content hs]
    exact isStep_outputName (h _ (by simp)).1
  rw [hl.withExtension_eq hs (by decide) (by decide),
    Path.isAbsolute_below hr, Path.below_eq_ofPieces hn (by simp), List.append_assoc]
  simp [pageName]

-- Where an entry of the source goes, as seen from the output.
def target (l : Location) : Location :=
  match l.getLast? with
  | none => []
  | some name => l.dropLast ++ [outputName name]

@[simp]
theorem target_concat : target (dir ++ [name]) = dir ++ [outputName name] := by
  simp [target]

theorem isPlain_target (h : IsPlain (dir ++ [name])) : IsPlain (target (dir ++ [name])) := by
  rw [target_concat]
  exact h.of_append.1.concat (isStep_outputName (h name (by simp)))

theorem target_of_not_isContentName (h : isContentName name = false) :
    target (dir ++ [name]) = dir ++ [name] := by
  rw [target_concat, outputName_of_not_isContentName h]

end Location

namespace Session

open Extension Location

variable {s : Session} {dir : Location} {name : String}

-- Wherever the output is, an entry of the source goes below it.
theorem outputPath_below (hr : IsStraight (dir ++ [name])) :
    s.outputPath (toRelative (dir ++ [name])) = s.output / toRelative (target (dir ++ [name])) := by
  rw [target_concat, outputPath, isContent_toRelative hr]
  cases hc : isContentName name
  case false => simp [outputName_of_not_isContentName hc]
  case true =>
    obtain ⟨stem, hs, rfl⟩ := isContentName_iff.mp hc
    rw [if_pos rfl, withExtension_below hr hs, outputName_content hs]

end Session

end StaticSite
