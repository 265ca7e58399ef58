import StaticSite.Proofs.Build.Output
/-!
References to content files in the text of a page, and where the files go that they name. Main
statements: the text of a path is rewritten name by name (`rewriteExtensions_toRelative`), and what
it becomes is the place of its file in the output if and only if the extension of content files
stands nowhere in it but at its end (`outputPath_eq_rewriteExtensions_iff`).
-/
namespace StaticSite

namespace Extension

open Path Location

-- Whether the extension of content files stands somewhere in a text, and no name carries it on.
def HasReference (cs : List Char) : Prop :=
  ∃ before behind, cs = before ++ '.' :: 'm' :: 'd' :: behind ∧ ¬behind.head?.any continuesName

-- The part of a file's name that stays in the output: all of it, or what is before the extension of
-- a content file.
def keptName (name : String) : String :=
  if isContentName name then (splitExtension name).1 else name

variable {cs before behind : List Char} {c : Char} {name stem : String} {l : Location}

theorem hasReference_cons : HasReference (c :: cs) ↔
    (∃ behind, c :: cs = '.' :: 'm' :: 'd' :: behind ∧ ¬behind.head?.any continuesName) ∨
      HasReference cs := by
  constructor
  · rintro ⟨before, behind, he, hn⟩
    cases before
    case nil => exact .inl ⟨behind, he, hn⟩
    case cons d before =>
      obtain ⟨rfl, rfl⟩ : c = d ∧ cs = before ++ '.' :: 'm' :: 'd' :: behind := by simpa using he
      exact .inr ⟨before, behind, rfl, hn⟩
  · rintro (⟨behind, he, hn⟩ | ⟨before, behind, rfl, hn⟩)
    · exact ⟨[], behind, he, hn⟩
    · exact ⟨c :: before, behind, rfl, hn⟩

-- Such an extension is all that is replaced.
theorem rewrite_eq_self_iff : rewrite cs = cs ↔ ¬HasReference cs := by
  fun_induction rewrite cs
  case case1 rest hc hi => simp [hasReference_cons, hc, hi]
  case case2 rest hc hi => simp [hasReference_cons, hc]
  case case3 c rest hn hi =>
    have hn : ¬∃ behind, c :: rest = '.' :: 'm' :: 'd' :: behind ∧
        ¬behind.head?.any continuesName := by
      rintro ⟨behind, he, -⟩
      obtain ⟨rfl, rfl⟩ : c = '.' ∧ rest = 'm' :: 'd' :: behind := by simpa using he
      exact hn behind rfl rfl
    rw [List.cons_inj_right, hi, hasReference_cons, or_iff_right hn]
  case case4 => simp [HasReference]

instance : Decidable (HasReference cs) :=
  decidable_of_iff (rewrite cs ≠ cs) (not_iff_comm.mp rewrite_eq_self_iff.symm)

theorem length_le_length_rewrite : cs.length ≤ (rewrite cs).length := by
  fun_induction rewrite cs
  case case4 => exact Nat.le_refl _
  all_goals
    simp only [List.length_cons]
    omega

theorem mem_of_mem_rewrite (h : c ∈ rewrite cs) : c ∈ cs ∨ c ∈ page.toList := by
  have hp : page.toList = ['h', 't', 'm', 'l'] := by decide
  rw [hp]
  fun_induction rewrite cs
  case case4 => simp at h
  all_goals
    simp only [List.mem_cons, List.not_mem_nil] at *
    tauto

-- A text is rewritten without regard to what stands behind it, unless that carries on a name.
theorem rewrite_append (h : ¬behind.head?.any continuesName) :
    rewrite (cs ++ behind) = rewrite cs ++ rewrite behind := by
  fun_induction rewrite cs
  case case1 rest hc hi =>
    have hr : (rest ++ behind).head?.any continuesName := by cases rest <;> simp_all
    rw [List.cons_append, List.cons_append, List.cons_append, rewrite, if_pos hr, hi]
    rfl
  case case2 rest hc hi =>
    have hr : ¬(rest ++ behind).head?.any continuesName := by cases rest <;> simp_all
    rw [List.cons_append, List.cons_append, List.cons_append, rewrite, if_neg hr, hi]
    rfl
  case case3 c rest hn hi =>
    rw [List.cons_append, rewrite, hi, List.cons_append]
    -- the extension does not reach into what is behind
    have hm : behind.head? ≠ some 'm' := fun hm => h (by rw [hm]; decide)
    have hd : behind.head? ≠ some 'd' := fun hd => h (by rw [hd]; decide)
    intro cs hc he
    rcases rest with _ | ⟨m, _ | ⟨d, rest⟩⟩ <;> simp_all
  case case4 => rfl

-- Nor does it matter what stands before a text, unless that runs into it.
theorem rewrite_append_of_getLast? (h : ∀ c ∈ before.getLast?, ¬continuesName c ∧ c ≠ '.') :
    rewrite (before ++ cs) = rewrite before ++ rewrite cs := by
  rcases List.eq_nil_or_concat' before with rfl | ⟨ds, c, rfl⟩
  case inl => rfl
  case inr =>
    obtain ⟨hc, hd⟩ := h c (by simp)
    have hb (cs) : ¬(c :: cs).head?.any continuesName := by simpa using hc
    rw [List.append_assoc, List.singleton_append, rewrite_append (hb cs), rewrite_append (hb []),
      rewrite_cons_of_ne hd, rewrite_cons_of_ne hd, List.append_assoc]
    rfl

-- Pieces of a text with a mark between them that no name goes over are rewritten one by one.
theorem rewrite_intercalate {mark : Char} {ls : List (List Char)} (hm : ¬continuesName mark)
    (hd : mark ≠ '.') : rewrite ([mark].intercalate ls) = [mark].intercalate (ls.map rewrite) := by
  induction ls
  case nil => rfl
  case cons cs ls hi =>
    cases ls
    case nil => simp
    case cons ds ls =>
      have hs : ∀ ds, ¬(mark :: ds).head?.any continuesName := by simpa using hm
      rw [List.map_cons, List.map_cons, List.intercalate_cons_cons, List.intercalate_cons_cons,
        List.append_assoc, List.append_assoc, List.singleton_append, List.singleton_append,
        rewrite_append (hs _), rewrite_cons_of_ne hd, hi, List.map_cons]

-- The text of a path is rewritten name by name.
theorem rewriteExtensions_toRelative : rewriteExtensions l.toRelative.text =
    (toRelative (l.map rewriteExtensions)).text := by
  have hs : "/".toList = ['/'] := rfl
  rw [← String.toList_inj, rewriteExtensions, String.toList_ofList, toRelative, toRelative,
    String.toList_intercalate, String.toList_intercalate, hs,
    rewrite_intercalate (by decide) (by decide), List.map_map, List.map_map]
  simp [Function.comp_def, rewriteExtensions]

theorem rewriteExtensions_eq_self_iff :
    rewriteExtensions name = name ↔ ¬HasReference name.toList := by
  rw [← rewrite_eq_self_iff, rewriteExtensions, ← String.toList_inj, String.toList_ofList]

theorem rewriteExtensions_content :
    rewriteExtensions (stem ++ "." ++ content) = rewriteExtensions stem ++ "." ++ page := by
  have hc : (stem ++ "." ++ content).toList = stem.toList ++ ".md".toList := by simp [content]
  rw [rewriteExtensions, hc, rewrite_append (by decide), String.ofList_append, String.append_assoc]
  rfl

theorem isStep_rewriteExtensions (h : IsStep name) : IsStep (rewriteExtensions name) := by
  constructor
  · rcases hc : name.toList with _ | ⟨c, _ | ⟨d, cs⟩⟩
    case nil => simp [String.toList_eq_nil_iff.mp hc, IsStep] at h
    case cons.nil =>
      have he : rewriteExtensions name = name := by
        rw [← String.toList_inj, rewriteExtensions, hc]
        simp [rewrite]
      rw [he]
      exact h.1
    case cons.cons =>
      apply isIdle_of_one_lt_length
      have hl : name.toList.length ≤ (rewrite name.toList).length := length_le_length_rewrite
      rw [rewriteExtensions, String.toList_ofList]
      simp only [hc, List.length_cons] at hl ⊢
      omega
  · rw [rewriteExtensions, String.toList_ofList]
    intro hm
    cases mem_of_mem_rewrite hm
    case inl hm => exact h.2 hm
    case inr hm => exact absurd hm (by decide)

-- A name becomes that of its page, or stays, if nothing else in it looks like the extension.
theorem outputName_eq_rewriteExtensions_iff :
    outputName name = rewriteExtensions name ↔
      name ≠ "..md" ∧ ¬HasReference (keptName name).toList := by
  cases hc : isContentName name
  case false =>
    have hd : name ≠ "..md" := by
      rintro rfl
      exact absurd hc (by decide)
    rw [outputName_of_not_isContentName hc, keptName, if_neg (by simp [hc]), eq_comm,
      rewriteExtensions_eq_self_iff, and_iff_right hd]
  case true =>
    obtain ⟨stem, hs, rfl⟩ := isContentName_iff.mp hc
    have hd : stem ++ "." ++ content ≠ "..md" ↔ stem ≠ "." := by
      have : "..md" = "." ++ "." ++ content := by decide
      rw [this, Ne, String.append_left_inj, String.append_left_inj]
    rw [outputName_content hs, rewriteExtensions_content, hd, keptName, if_pos hc,
      splitExtension_append hs (by decide), pageName]
    by_cases hp : stem = "."
    case pos => simp [hp, ← String.toList_inj, rewriteExtensions, rewrite, page]
    case neg =>
      rw [if_neg hp, and_iff_right hp, String.append_left_inj, String.append_left_inj, eq_comm,
        rewriteExtensions_eq_self_iff]

end Extension

namespace Session

open Extension Location

variable {dir : Location} {name : String}

-- A reference in the text of a page is rewritten by itself, if nothing runs into it and no name
-- carries it on. It becomes the place of its file, as seen from the output, if and only if the
-- extension of content files stands nowhere in it but at the end of a content file's name. The page
-- of `..md` would lead up.
theorem outputPath_eq_rewriteExtensions_iff (s : Session) (h : IsStraight (dir ++ [name])) :
    (∀ before behind, (∀ c ∈ before.getLast?, ¬continuesName c ∧ c ≠ '.') →
      ¬behind.head?.any continuesName →
      rewrite (before ++ ((toRelative (dir ++ [name])).text.toList ++ behind)) =
        rewrite before ++ ((rewriteExtensions (toRelative (dir ++ [name])).text).toList ++
          rewrite behind)) ∧
    (s.outputPath (toRelative (dir ++ [name])) =
        s.output / ⟨rewriteExtensions (toRelative (dir ++ [name])).text⟩ ↔
      (∀ d ∈ dir, ¬HasReference d.toList) ∧ name ≠ "..md" ∧
        ¬HasReference (keptName name).toList) := by
  constructor
  · intro before behind hb hn
    rw [rewrite_append_of_getLast? hb, rewrite_append hn, rewriteExtensions, String.toList_ofList]
  · have hp := isPlain_target h.isPlain
    have hq : IsPlain ((dir ++ [name]).map rewriteExtensions) := by
      intro n hn
      obtain ⟨m, hm, rfl⟩ := List.mem_map.mp hn
      exact isStep_rewriteExtensions (h m hm).1
    have ht : (⟨rewriteExtensions (toRelative (dir ++ [name])).text⟩ : Path) =
        toRelative ((dir ++ [name]).map rewriteExtensions) :=
      Path.text_inj.mp rewriteExtensions_toRelative
    have hd : dir = dir.map rewriteExtensions ↔ ∀ d ∈ dir, ¬HasReference d.toList := by
      have hm : dir = dir.map rewriteExtensions ↔ ∀ d ∈ dir, rewriteExtensions d = d := by
        rw [eq_comm, ← List.map_inj_left, List.map_id']
      rw [hm]
      exact forall₂_congr fun d _ => rewriteExtensions_eq_self_iff
    rw [ht, outputPath_below h, Path.below_inj hp hq (by simp) (by simp), target_concat,
      List.map_append, List.map_singleton, ← List.concat_eq_append, ← List.concat_eq_append,
      List.concat_inj, hd, outputName_eq_rewriteExtensions_iff]

-- A file that is no content file, but has the extension in its name.
theorem textFile_outputPath_ne_rewriteExtensions :
    IsStraight ["a.md.txt"] ∧
      (Session.ofConfig "/s" "/o" {}).outputPath (toRelative ["a.md.txt"]) ≠
        "/o" / ⟨rewriteExtensions (toRelative ["a.md.txt"]).text⟩ := by
  decide +kernel

theorem nestedPage_outputPath_eq_rewriteExtensions_iff :
    IsStraight (["d"] ++ ["a.md"]) ∧
      rewrite "[b](d/a.md)".toList = "[b](d/a.html)".toList ∧
      (Session.ofConfig "/s" "/o" {}).outputPath "d/a.md" =
        "/o" / ⟨rewriteExtensions "d/a.md"⟩ := by
  have hs : IsStraight (["d"] ++ ["a.md"]) := by decide
  have hr : toRelative (["d"] ++ ["a.md"]) = "d/a.md" := by decide +kernel
  have h := outputPath_eq_rewriteExtensions_iff (Session.ofConfig "/s" "/o" {}) hs
  rw [hr] at h
  refine ⟨hs, ?_, h.2.mpr (by decide +kernel)⟩
  have hb : ∀ c ∈ "[b](".toList.getLast?, ¬continuesName c ∧ c ≠ '.' := by
    intro c hc
    obtain rfl : '(' = c := by simpa using hc
    decide +kernel
  exact (h.1 "[b](".toList ")".toList hb (by decide +kernel)).trans (by decide +kernel)

end Session

end StaticSite
