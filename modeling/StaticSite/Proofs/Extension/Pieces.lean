import StaticSite.Proofs.Extension.Replacement
/-!
Rewriting a text piece by piece, and a second time. Main statements: what is rewritten has no
reference to a content file left (`not_hasReference_rewrite`), so rewriting it again changes
nothing, and a text can be cut wherever no name goes over the cut (`rewriteExtensions_local`).
-/
namespace StaticSite.Extension

variable {c mark : Char} {cs rest : List Char}

-- No replacement changes the first character.
@[simp]
theorem head?_rewrite : (rewrite cs).head? = cs.head? := by
  fun_induction rewrite cs <;> rfl

theorem exists_of_rewrite_eq_cons (hc : c ≠ '.') (h : rewrite cs = c :: rest) :
    ∃ behind, cs = c :: behind ∧ rewrite behind = rest := by
  have hh : cs.head? = some c := by rw [← head?_rewrite, h, List.head?_cons]
  obtain ⟨behind, rfl⟩ := List.head?_eq_some_iff.mp hh
  rw [rewrite_cons_of_ne hc, List.cons_inj_right] at h
  exact ⟨behind, rfl, h⟩

theorem not_hasReference_rewrite : ¬HasReference (rewrite cs) := by
  fun_induction rewrite cs
  case case1 rest hc hi =>
    -- what carries on the name stays where it is
    simp [hasReference_cons, hi, hc]
  case case2 rest hc hi => simp [hasReference_cons, hi]
  case case3 c rest hn hi =>
    rw [hasReference_cons, or_iff_left hi]
    rintro ⟨behind, he, -⟩
    -- no extension begins here that did not begin here before
    obtain ⟨rfl, hr⟩ := List.cons.inj he
    obtain ⟨_, rfl, hd⟩ := exists_of_rewrite_eq_cons (by decide) hr
    obtain ⟨behind, rfl, -⟩ := exists_of_rewrite_eq_cons (by decide) hd
    exact hn behind rfl rfl
  case case4 => simp [HasReference]

-- A mark that no name goes over stays where it is, and there is no other one.
theorem splitOn_rewrite (hm : ¬continuesName mark) (hd : mark ≠ '.') :
    (rewrite cs).splitOn mark = (cs.splitOn mark).map rewrite := by
  have hp : mark ∉ page.toList := by
    have hp : page.toList.all continuesName := by decide
    exact fun h => hm (List.all_eq_true.mp hp mark h)
  have hs : ∀ piece ∈ (cs.splitOn mark).map rewrite, mark ∉ piece := by
    intro piece h
    obtain ⟨old, ho, rfl⟩ := List.mem_map.mp h
    exact fun h => (mem_of_mem_rewrite h).elim (Text.of_mem_splitOn ho).1 hp
  have hc : cs = [mark].intercalate (cs.splitOn mark) := (List.intercalate_splitOn mark).symm
  conv_lhs => rw [hc, rewrite_intercalate hm hd]
  exact List.splitOn_intercalate mark hs (by simp [List.splitOn_ne_nil])

-- Rewriting leaves an extension only where a name carries it on, so a second time it finds nothing.
-- A text can be cut where what is behind carries on no name: so each line is rewritten by itself.
theorem rewriteExtensions_local (text : String) :
    rewriteExtensions (rewriteExtensions text) = rewriteExtensions text ∧
    (∀ i, Occurs (rewriteExtensions text).toList i →
      (rewriteExtensions text).toList[i + 3]?.any continuesName) ∧
    (∀ behind : String, ¬behind.toList.head?.any continuesName →
      rewriteExtensions (text ++ behind) = rewriteExtensions text ++ rewriteExtensions behind) ∧
    (rewriteExtensions text).toList.splitOn '\n' = (text.toList.splitOn '\n').map rewrite := by
  have hn : ¬HasReference (rewriteExtensions text).toList := by
    rw [rewriteExtensions, String.toList_ofList]
    exact not_hasReference_rewrite
  refine ⟨rewriteExtensions_eq_self_iff.mpr hn, fun i ho => ?_, fun behind hb => ?_, ?_⟩
  case refine_1 =>
    by_contra hc
    exact hn (hasReference_iff_exists.mpr ⟨i, ho, hc⟩)
  case refine_2 =>
    rw [rewriteExtensions, String.toList_append, rewrite_append hb, String.ofList_append]
    rfl
  case refine_3 =>
    rw [rewriteExtensions, String.toList_ofList]
    exact splitOn_rewrite (by decide) (by decide)

-- A text with an extension at its end, before one that is carried on.
theorem adjacent_rewriteExtensions_local :
    rewriteExtensions "a.html.mdx\nb.html" = "a.html.mdx\nb.html" ∧
      "a.html.mdx\nb.html".toList[9]?.any continuesName ∧
      rewriteExtensions ("a.md" ++ ".mdx\nb.md") = "a.html" ++ ".mdx\nb.html" := by
  have hr : rewriteExtensions "a.md.mdx\nb.md" = "a.html.mdx\nb.html" := by decide +kernel
  have h := rewriteExtensions_local "a.md.mdx\nb.md"
  rw [hr] at h
  refine ⟨h.1, h.2.1 6 (by decide), ?_⟩
  exact ((rewriteExtensions_local "a.md").2.2.1 ".mdx\nb.md" (by decide)).trans (by decide +kernel)

end StaticSite.Extension
