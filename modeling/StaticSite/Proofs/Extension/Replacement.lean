import Mathlib.Data.List.Basic
import StaticSite.Proofs.Extension.References
/-!
What is replaced in a text, told place by place from the text as it was. Main statements: extensions
of content files do not overlap (`Occurs.add_three_le`), and rewriting a text puts the extension of
pages where such an extension begins that no name carries on, leaves out the rest of it, and keeps
each other character in its place (`rewriteExtensions_placewise`).
-/
namespace StaticSite.Extension

variable {c : Char} {cs rest : List Char} {i j : Nat}

-- Whether the extension of content files stands at place `i` of a text.
def Occurs (cs : List Char) (i : Nat) : Prop :=
  ['.', 'm', 'd'] <+: cs.drop i

instance : Decidable (Occurs cs i) :=
  inferInstanceAs (Decidable (['.', 'm', 'd'] <+: cs.drop i))

-- Whether it does, and either the text ends behind it or a character follows that carries on no
-- name.
def IsReference (cs : List Char) (i : Nat) : Prop :=
  Occurs cs i ∧ ¬cs[i + 3]?.any continuesName

instance : Decidable (IsReference cs i) :=
  inferInstanceAs (Decidable (_ ∧ _))

-- Whether place `i` is in such an extension, but not its first.
def IsInside (cs : List Char) (i : Nat) : Prop :=
  ∃ j, j < i ∧ IsReference cs j ∧ i < j + 3

instance : Decidable (IsInside cs i) :=
  inferInstanceAs (Decidable (∃ j, j < i ∧ IsReference cs j ∧ i < j + 3))

-- What becomes of the character at place `i`.
def image (cs : List Char) (i : Nat) : List Char :=
  if IsReference cs i then ['.', 'h', 't', 'm', 'l']
  else if IsInside cs i then []
  else cs[i]?.toList

theorem Occurs.getElem?_eq (h : Occurs cs i) :
    cs[i]? = some '.' ∧ cs[i + 1]? = some 'm' ∧ cs[i + 2]? = some 'd' := by
  obtain ⟨behind, hb⟩ := h
  have hk (k : Nat) : cs[i + k]? = (['.', 'm', 'd'] ++ behind)[k]? := by
    rw [hb, List.getElem?_drop]
  exact ⟨hk 0, hk 1, hk 2⟩

-- Two extensions do not overlap.
theorem Occurs.add_three_le (hi : Occurs cs i) (hj : Occurs cs j) (h : i < j) : i + 3 ≤ j := by
  obtain ⟨-, hm, hd⟩ := hi.getElem?_eq
  have hdot := hj.getElem?_eq.1
  by_contra hl
  rcases (by omega : j = i + 1 ∨ j = i + 2) with rfl | rfl
  · simp [hm] at hdot
  · simp [hd] at hdot

theorem IsInside.not_isReference (h : IsInside cs i) : ¬IsReference cs i := by
  obtain ⟨j, hj, hr, hi⟩ := h
  intro hn
  have := hr.1.add_three_le hn.1 hj
  omega

theorem image_of_isReference (h : IsReference cs i) : image cs i = ['.', 'h', 't', 'm', 'l'] :=
  if_pos h

theorem image_of_isInside (h : IsInside cs i) : image cs i = [] := by
  rw [image, if_neg h.not_isReference, if_pos h]

theorem image_of_not (hr : ¬IsReference cs i) (hi : ¬IsInside cs i) :
    image cs i = cs[i]?.toList := by
  rw [image, if_neg hr, if_neg hi]

theorem hasReference_iff_exists : HasReference cs ↔ ∃ i, IsReference cs i := by
  constructor
  · rintro ⟨before, behind, rfl, hn⟩
    refine ⟨before.length, ⟨behind, by simp⟩, ?_⟩
    rwa [List.getElem?_append_right (by omega), Nat.add_sub_cancel_left, List.getElem?_cons_succ,
      List.getElem?_cons_succ, List.getElem?_cons_succ, ← List.head?_eq_getElem?]
  · rintro ⟨i, ⟨behind, hb⟩, hn⟩
    have hs : cs = cs.take i ++ '.' :: 'm' :: 'd' :: behind :=
      (List.take_append_drop i cs).symm.trans (congrArg _ hb.symm)
    refine ⟨cs.take i, behind, hs, ?_⟩
    rwa [← List.getElem?_drop, ← hb, List.cons_append, List.cons_append, List.cons_append,
      List.getElem?_cons_succ, List.getElem?_cons_succ, List.getElem?_cons_succ, List.nil_append,
      ← List.head?_eq_getElem?] at hn

theorem isReference_cons_succ : IsReference (c :: cs) (i + 1) ↔ IsReference cs i := by
  simp only [IsReference, Occurs, List.drop_succ_cons, Nat.succ_add, List.getElem?_cons_succ]

theorem isInside_cons_succ :
    IsInside (c :: cs) (i + 1) ↔ (IsReference (c :: cs) 0 ∧ i < 2) ∨ IsInside cs i := by
  constructor
  · rintro ⟨j, hj, hr, hi⟩
    cases j
    case zero => exact .inl ⟨hr, by omega⟩
    case succ j => exact .inr ⟨j, by omega, isReference_cons_succ.mp hr, by omega⟩
  · rintro (⟨hr, hi⟩ | ⟨j, hj, hr, hi⟩)
    · exact ⟨0, by omega, hr, by omega⟩
    · exact ⟨j + 1, by omega, isReference_cons_succ.mpr hr, by omega⟩

-- Where nothing is replaced, the places behind do not depend on what stands there.
theorem image_cons_succ (h : ¬IsReference (c :: cs) 0) : image (c :: cs) (i + 1) = image cs i := by
  simp only [image, isReference_cons_succ, isInside_cons_succ, h, false_and, false_or,
    List.getElem?_cons_succ]

theorem image_cons_zero (h : ¬IsReference (c :: cs) 0) : image (c :: cs) 0 = [c] :=
  image_of_not h fun ⟨_, hj, _⟩ => Nat.not_lt_zero _ hj

-- The images of all places, one after the other.
def images (cs : List Char) : List Char :=
  (List.range cs.length).flatMap (image cs)

theorem images_cons_of_not (h : ¬IsReference (c :: cs) 0) : images (c :: cs) = c :: images cs := by
  rw [images, List.length_cons, List.range_succ_eq_map, List.flatMap_cons, List.flatMap_map,
    image_cons_zero h, List.singleton_append]
  simp only [image_cons_succ h, images]

theorem not_isReference_of_ne (h : c ≠ '.') : ¬IsReference (c :: cs) 0 := by
  intro hr
  exact h (Option.some.inj hr.1.getElem?_eq.1)

theorem images_of_isReference (h : IsReference ('.' :: 'm' :: 'd' :: rest) 0) :
    images ('.' :: 'm' :: 'd' :: rest) = ['.', 'h', 't', 'm', 'l'] ++ images rest := by
  have h₀ := image_of_isReference h
  have h₁ := image_of_isInside ⟨0, Nat.one_pos, h, by decide⟩
  have h₂ := image_of_isInside ⟨0, Nat.two_pos, h, by decide⟩
  have hi (i : Nat) : image ('.' :: 'm' :: 'd' :: rest) (3 + i) = image rest i := by
    -- neither of the other two characters begins an extension
    have hm : ¬IsReference ('m' :: 'd' :: rest) 0 := not_isReference_of_ne (by decide)
    have hd : ¬IsReference ('d' :: rest) 0 := not_isReference_of_ne (by decide)
    have hl : ¬i + 2 < 2 := by omega
    rw [Nat.add_comm, image]
    simp only [isReference_cons_succ, isInside_cons_succ, hm, hd, hl, and_false, false_and,
      false_or, List.getElem?_cons_succ, image]
  have hr : List.range ('.' :: 'm' :: 'd' :: rest).length =
      [0, 1, 2] ++ (List.range rest.length).map (3 + ·) := by
    rw [List.length_cons, List.length_cons, List.length_cons, Nat.add_comm rest.length 3]
    exact List.range_add
  rw [images, hr, List.flatMap_append, List.flatMap_map]
  simp only [List.flatMap_cons, List.flatMap_nil, h₀, h₁, h₂, hi, List.append_nil, images]

theorem rewrite_eq_images : rewrite cs = images cs := by
  fun_induction rewrite cs
  case case1 rest hc hi =>
    have h : ¬IsReference ('.' :: 'm' :: 'd' :: rest) 0 := by
      rw [List.head?_eq_getElem?] at hc
      exact fun hr => hr.2 hc
    rw [images_cons_of_not h, images_cons_of_not (not_isReference_of_ne (by decide)),
      images_cons_of_not (not_isReference_of_ne (by decide)), hi]
  case case2 rest hc hi =>
    rw [List.head?_eq_getElem?] at hc
    have h : IsReference ('.' :: 'm' :: 'd' :: rest) 0 := ⟨⟨rest, rfl⟩, hc⟩
    rw [images_of_isReference h, hi]
    rfl
  case case3 c rest hn hi =>
    have h : ¬IsReference (c :: rest) 0 := by
      rintro ⟨⟨behind, hb⟩, -⟩
      obtain ⟨rfl, rfl⟩ : '.' = c ∧ 'm' :: 'd' :: behind = rest := by simpa using hb
      exact hn behind rfl rfl
    rw [images_cons_of_not h, hi]
  case case4 => rfl

-- What a text becomes, place by place. Of an extension that a name carries on, all is kept.
theorem rewriteExtensions_placewise (text : String) :
    (rewriteExtensions text).toList =
      (List.range text.toList.length).flatMap (image text.toList) ∧
    (∀ i j, Occurs text.toList i → Occurs text.toList j → i < j → i + 3 ≤ j) ∧
    ∀ i k, Occurs text.toList i → ¬IsReference text.toList i → k < 3 →
      image text.toList (i + k) = text.toList[i + k]?.toList := by
  refine ⟨?_, fun i j hi hj => hi.add_three_le hj, fun i k ho hn hk => ?_⟩
  case refine_1 => rw [rewriteExtensions, String.toList_ofList, rewrite_eq_images, images]
  case refine_2 =>
    have hr : ¬IsReference text.toList (i + k) := by
      intro hr
      rcases Nat.eq_zero_or_pos k with rfl | hp
      · exact hn hr
      · have := ho.add_three_le hr.1 (by omega)
        omega
    have hs : ¬IsInside text.toList (i + k) := by
      rintro ⟨j, hj, hr, hl⟩
      have hne : j ≠ i := fun he => hn (he ▸ hr)
      rcases Nat.lt_or_gt_of_ne hne with h | h
      · have := hr.1.add_three_le ho h
        omega
      · have := ho.add_three_le hr.1 h
        omega
    exact image_of_not hr hs

-- A text in which the first extension is carried on, and the next is a reference.
theorem adjacent_placewise :
    let text := "a.md.md, b.mdx"
    (rewriteExtensions text).toList = "a.html.html, b.mdx".toList ∧
      (1 : Nat) + 3 ≤ 4 ∧ image text.toList (10 + 2) = ['d'] := by
  have h := rewriteExtensions_placewise "a.md.md, b.mdx"
  refine ⟨h.1.trans (by decide +kernel), h.2.1 1 4 (by decide) (by decide) (by decide), ?_⟩
  exact (h.2.2 10 2 (by decide) (by decide +kernel) (by decide)).trans (by decide)

end StaticSite.Extension
