import Mathlib.Algebra.Group.Nat.Even
import Mathlib.Data.List.Perm.Subperm
import StaticSite.Proofs.Layout.Parts
/-!
Which of the placeholders that stand in a template are replaced. Reading goes on right behind a pair
of opening braces that holds no key, and so misses a placeholder whose own braces begin with the
second of such a pair. Main statement: replaced are those that an even number of opening braces is
right before, all at once and with all else left in its place (`replaces_even`); so all are if and
only if there are no others.
-/
namespace StaticSite.Template

open Text

variable {c : Char} {mark cs xs ys b before behind d : List Char} {p q : Placeholder}
  {ps : List Part} {value : List Char → List Char}

section Cut

-- What a text is cut at is the first occurrence of the mark.
theorem exists_cutAt (hm : 0 < mark.length) (xs ys : List Char) :
    ∃ before behind d, cutAt mark (xs ++ (mark ++ ys)) = some (before, behind) ∧
      xs = before ++ d := by
  induction xs
  case nil =>
    obtain ⟨m, ms, rfl⟩ := List.exists_cons_of_length_pos hm
    exact ⟨[], ys, [], by simp [cutAt], rfl⟩
  case cons x xs hi =>
    obtain ⟨before, behind, d, hc, rfl⟩ := hi
    rw [List.cons_append, cutAt]
    split
    case isTrue => exact ⟨[], _, _, rfl, rfl⟩
    case isFalse => exact ⟨x :: before, behind, d, by rw [hc]; rfl, rfl⟩

theorem exists_eq_append_of_cutAt (hm : 0 < mark.length)
    (h : cutAt mark (xs ++ (mark ++ ys)) = some (before, behind)) :
    ∃ d, xs = before ++ d ∧ d ++ (mark ++ ys) = mark ++ behind := by
  obtain ⟨a, b, d, hc, rfl⟩ := exists_cutAt hm xs ys
  have he := eq_of_cutAt h
  rw [hc, Option.some.injEq, Prod.mk.injEq] at h
  obtain ⟨rfl, rfl⟩ := h
  exact ⟨d, rfl, by simpa using he⟩

theorem cutAt_append (hc : c ∉ xs) :
    cutAt (c :: mark) (xs ++ (c :: mark ++ ys)) = some (xs, ys) := by
  have hm : 0 < (c :: mark).length := by simp
  obtain ⟨before, behind, d, h, -⟩ := exists_cutAt hm xs ys
  obtain ⟨d, rfl, hd⟩ := exists_eq_append_of_cutAt hm h
  cases d
  case nil =>
    rw [h, List.append_nil]
    simpa using hd.symm
  case cons x d =>
    obtain rfl : x = c := by simpa using (List.cons.inj hd).1
    simp at hc

theorem exists_eq_append_of_not_mem (hc : c ∉ ys) (h : xs ++ c :: d = ys ++ behind) :
    ∃ e, xs = ys ++ e ∧ behind = e ++ c :: d := by
  rcases List.append_eq_append_iff.mp h with ⟨e, rfl, he⟩ | ⟨e, rfl, rfl⟩
  case inr => exact ⟨e, rfl, rfl⟩
  case inl =>
    cases e
    case nil => exact ⟨[], by simp, by simpa using he.symm⟩
    case cons x e =>
      obtain rfl : c = x := (List.cons.inj he).1
      simp at hc

end Cut

section Braces

-- How many opening braces a text ends with.
def braces (cs : List Char) : Nat :=
  (cs.reverse.takeWhile (· == '\x7b')).length

theorem braces_append :
    braces (xs ++ ys) = if braces ys = ys.length then ys.length + braces xs else braces ys := by
  rw [braces, List.reverse_append, List.takeWhile_append, ← braces, List.length_reverse]
  split <;> simp [braces]

theorem braces_concat : braces (xs ++ ['\x7b']) = braces xs + 1 := by
  simp [braces]

theorem braces_append_opening : braces (xs ++ opening) = braces xs + 2 := by
  rw [opening, ← List.singleton_append, ← List.append_assoc, braces_concat, braces_concat]

theorem even_braces_append (h : Even (braces xs)) :
    Even (braces (xs ++ ys)) ↔ Even (braces ys) := by
  rw [braces_append]
  split
  case isTrue hy => rw [Nat.even_add, iff_true_right h, hy]
  case isFalse => rfl

-- A text is cut at the first two opening braces, so no other one is right before them.
theorem braces_of_cutAt (h : cutAt opening cs = some (before, behind)) : braces before = 0 := by
  by_contra hb
  obtain ⟨xs, x, rfl⟩ : ∃ xs x, before = xs ++ [x] :=
    (List.eq_nil_or_concat' before).resolve_left fun hn => hb (by simp [hn, braces])
  obtain rfl : x = '\x7b' := by
    by_contra hx
    exact hb (by simp [braces, hx])
  have he : cs = xs ++ (opening ++ '\x7b' :: behind) := by simpa [opening] using eq_of_cutAt h
  obtain ⟨d, hd, -⟩ := exists_eq_append_of_cutAt (by decide) (he ▸ h)
  simpa using congrArg List.length hd

end Braces

namespace Placeholder

theorem isBlank_or_isKeyChar (h : c ∈ p.inner) : isBlank c ∨ isKeyChar c := by
  simp only [inner, List.mem_append] at h
  rcases h with h | h | h
  · exact .inl (p.isBlank_left c h)
  · exact .inr (p.isKeyChar_of_mem_key h)
  · exact .inl (p.isBlank_right c h)

theorem opening_not_mem : '\x7b' ∉ p.inner ++ closing := by
  intro h
  rcases List.mem_append.mp h with h | h
  · exact absurd (isBlank_or_isKeyChar h) (by decide)
  · simp [closing] at h

theorem closing_not_mem : '\x7d' ∉ p.inner :=
  fun h => absurd (isBlank_or_isKeyChar h) (by decide)

theorem isBlank_of_mem_key (h : c ∈ p.key) : isBlank c = false := by
  simpa using not_isBlank_of_isKeyChar (p.isKeyChar_of_mem_key h)

theorem takeWhile_inner : p.inner.takeWhile isBlank = p.left := by
  obtain ⟨k, ks, hk⟩ := List.exists_cons_of_ne_nil p.key_ne_nil
  have hb : isBlank k = false := p.isBlank_of_mem_key (by simp [hk])
  rw [inner, List.takeWhile_append_of_pos p.isBlank_left, hk, List.cons_append,
    List.takeWhile_cons_of_neg (by simp [hb]), List.append_nil]

theorem trimStart_inner : trimStart p.inner = p.key ++ p.right := by
  obtain ⟨k, ks, hk⟩ := List.exists_cons_of_ne_nil p.key_ne_nil
  have hb : isBlank k = false := p.isBlank_of_mem_key (by simp [hk])
  rw [trimStart, inner, List.dropWhile_append_of_pos p.isBlank_left, hk, List.cons_append,
    List.dropWhile_cons_of_neg (by simp [hb])]

theorem trim_inner : trim p.inner = p.key := by
  obtain ⟨ks, k, hk⟩ := (List.eq_nil_or_concat' p.key).resolve_left p.key_ne_nil
  have hb : isBlank k = false := p.isBlank_of_mem_key (by simp [hk])
  rw [trim, trimStart_inner, trimEnd, List.reverse_append,
    List.dropWhile_append_of_pos fun c hc => p.isBlank_right c (List.mem_reverse.mp hc), hk,
    List.reverse_concat, List.dropWhile_cons_of_neg (by simp [hb]), ← List.reverse_concat,
    List.reverse_reverse]

-- How a placeholder is written tells its parts.
theorem eq_of_inner (h : p.inner = q.inner) : p = q := by
  have hk : p.key = q.key := by rw [← trim_inner, h, trim_inner]
  have hl : p.left = q.left := by rw [← takeWhile_inner, h, takeWhile_inner]
  have hr : p.right = q.right := by simpa [inner, hk, hl] using h
  cases p
  cases q
  simp_all

theorem source_append_inj (h : p.source ++ xs = q.source ++ ys) : p = q ∧ xs = ys := by
  have hp : cutAt closing (p.inner ++ (closing ++ xs)) = some (p.inner, xs) :=
    cutAt_append p.closing_not_mem
  have hq : cutAt closing (q.inner ++ (closing ++ ys)) = some (q.inner, ys) :=
    cutAt_append q.closing_not_mem
  have he : p.inner ++ (closing ++ xs) = q.inner ++ (closing ++ ys) := by simpa [source] using h
  rw [he, hq, Option.some.injEq, Prod.mk.injEq] at hp
  exact ⟨eq_of_inner hp.1.symm, hp.2.symm⟩

-- Placeholders do not overlap: what begins in one begins where it does, or behind it.
theorem source_append_cases (h : d ++ (p.source ++ xs) = q.source ++ ys) :
    (d = [] ∧ p = q ∧ xs = ys) ∨ ∃ e, d = q.source ++ e ∧ e ++ (p.source ++ xs) = ys := by
  match d with
  | [] => exact .inl ⟨rfl, source_append_inj h⟩
  | [x] =>
    have he : [] ++ '\x7b' :: (p.inner ++ closing ++ xs) = q.inner ++ closing ++ ys := by
      simpa [source, opening] using (List.cons.inj h).2
    obtain ⟨e, hn, -⟩ := exists_eq_append_of_not_mem q.opening_not_mem he
    simp [closing] at hn
  | x :: y :: d =>
    have hs : x :: y :: (d ++ (p.source ++ xs)) =
        '\x7b' :: '\x7b' :: (q.inner ++ closing ++ ys) := h
    obtain ⟨rfl, rfl, hd⟩ : x = _ ∧ y = _ ∧ _ := by simpa only [List.cons.injEq] using hs
    obtain ⟨e, rfl, he⟩ := exists_eq_append_of_not_mem q.opening_not_mem hd
    exact .inr ⟨e, rfl, he.symm⟩

theorem braces_source : braces p.source = 0 := by
  simp [braces, source, closing]

theorem count_source : p.source.count '\x7b' = 2 := by
  simp [source, opening, List.count_eq_zero_of_not_mem opening_not_mem]

end Placeholder

-- Whether a placeholder stands in a text right behind `before`.
def Stands (p : Placeholder) (before cs : List Char) : Prop :=
  before ++ p.source <+: cs

instance : Decidable (Stands p before cs) :=
  inferInstanceAs (Decidable (before ++ p.source <+: cs))

-- Whether a placeholder is one of the parts, right behind those that are `before`.
inductive IsPart (p : Placeholder) : List Char → List Part → Prop where
  | head (ps : List Part) : IsPart p [] (.placeholder p :: ps)
  | tail (x : Part) {before : List Char} {ps : List Part} (h : IsPart p before ps) :
    IsPart p (x.source ++ before) (x :: ps)

-- Whether `out` is `cs` with placeholders replaced, all at once, and all else left in its place:
-- those of its placeholders that are picked by what is before them.
def Replaces (picked : List Char → Prop) (value : List Char → List Char)
    (cs out : List Char) : Prop :=
  ∃ ps : List Part, ps.flatMap Part.source = cs ∧ ps.flatMap (Part.fill value) = out ∧
    ∀ p before, Stands p before cs → (IsPart p before ps ↔ picked before)

theorem Stands.exists_eq (h : Stands p before cs) :
    ∃ after, cs = before ++ (p.source ++ after) := by
  obtain ⟨after, rfl⟩ := h
  exact ⟨after, by simp⟩

theorem stands_append_iff : Stands p (xs ++ before) (xs ++ cs) ↔ Stands p before cs := by
  rw [Stands, List.append_assoc, List.prefix_append_right_inj, Stands]

-- Two placeholders of a text are the same or do not overlap.
theorem Stands.eq_or_le (hp : Stands p before cs) (hq : Stands q d cs)
    (hl : before.length ≤ d.length) :
    (p = q ∧ before = d) ∨ (before ++ p.source).length ≤ d.length := by
  obtain ⟨xs, rfl⟩ := hp.exists_eq
  obtain ⟨ys, hd⟩ := hq.exists_eq
  obtain ⟨e, rfl, he⟩ : ∃ e, d = before ++ e ∧ _ :=
    (List.append_eq_append_iff.mp hd).elim id fun ⟨e, hb, he⟩ => by
      have hn : e.length = 0 := by
        rw [hb, List.length_append] at hl
        omega
      obtain rfl := List.length_eq_zero_iff.mp hn
      exact ⟨[], by simpa using hb.symm, he.symm⟩
  rcases Placeholder.source_append_cases he.symm with ⟨rfl, rfl, -⟩ | ⟨e, rfl, -⟩
  case inl => exact .inl ⟨rfl, by simp⟩
  case inr =>
    right
    simp

namespace IsPart

theorem not_nil : ¬IsPart p before [] :=
  nofun

theorem literal_cons_iff : IsPart p before (.literal xs :: ps) ↔
    ∃ d, before = xs ++ d ∧ IsPart p d ps where
  mp
    | tail _ h => ⟨_, rfl, h⟩
  mpr := fun ⟨_, he, h⟩ => he ▸ tail (.literal xs) h

theorem placeholder_cons_iff : IsPart p before (.placeholder q :: ps) ↔
    (before = [] ∧ p = q) ∨ ∃ d, before = q.source ++ d ∧ IsPart p d ps where
  mp
    | head _ => .inl ⟨rfl, rfl⟩
    | tail _ h => .inr ⟨_, rfl, h⟩
  mpr
    | .inl ⟨hb, hp⟩ => hb ▸ hp ▸ head ps
    | .inr ⟨_, he, h⟩ => he ▸ tail (.placeholder q) h

theorem stands (h : IsPart p before ps) : Stands p before (ps.flatMap Part.source) := by
  induction h
  case head ps => exact List.prefix_append _ _
  case tail x before ps _ hi => exact stands_append_iff.mpr hi

end IsPart

-- Reading goes on where a placeholder stands, or before it.
theorem Stands.exists_cutAt (h : Stands p before cs) :
    ∃ b behind, cutAt opening cs = some (b, behind) := by
  obtain ⟨after, rfl⟩ := h.exists_eq
  have hm : 0 < opening.length := by decide
  obtain ⟨b, behind, -, ho, -⟩ :=
    Template.exists_cutAt hm before (p.inner ++ (closing ++ after))
  exact ⟨b, behind, by simpa [Placeholder.source] using ho⟩

theorem Stands.of_cutAt (h : Stands p before cs) (ho : cutAt opening cs = some (b, behind)) :
    ∃ d, before = b ++ d ∧ Stands p d (opening ++ behind) := by
  obtain ⟨after, rfl⟩ := h.exists_eq
  have hs : before ++ (p.source ++ after) =
      before ++ (opening ++ (p.inner ++ (closing ++ after))) := by simp [Placeholder.source]
  obtain ⟨d, rfl, hd⟩ := exists_eq_append_of_cutAt (by decide) (hs ▸ ho)
  exact ⟨d, rfl, after, by simpa [Placeholder.source] using hd⟩

-- A placeholder begins with a pair of opening braces, with the second brace of the pair, or behind
-- it.
theorem Stands.opening_cases (h : Stands p before (opening ++ behind)) :
    (before = [] ∧ ∃ after, behind = p.inner ++ (closing ++ after)) ∨ before = ['\x7b'] ∨
      ∃ d, before = opening ++ d ∧ Stands p d behind := by
  obtain ⟨after, he⟩ := h.exists_eq
  match before with
  | [] => exact .inl ⟨rfl, after, by simpa [Placeholder.source] using he⟩
  | [x] =>
    obtain rfl : '\x7b' = x := (List.cons.inj he).1
    exact .inr (.inl rfl)
  | x :: y :: d =>
    obtain ⟨rfl, rfl, hd⟩ : '\x7b' = x ∧ '\x7b' = y ∧ behind = _ := by
      simpa only [opening, List.cons_append, List.cons.injEq, List.nil_append] using he
    exact .inr (.inr ⟨d, rfl, after, by simp [hd]⟩)

theorem Stands.exists_cutAt_closing (h : Stands p before (opening ++ behind)) :
    ∃ inner after, cutAt closing behind = some (inner, after) := by
  obtain ⟨xs, ys, rfl⟩ : ∃ xs ys, behind = xs ++ (closing ++ ys) := by
    rcases h.opening_cases with ⟨rfl, after, rfl⟩ | rfl | ⟨d, rfl, h⟩
    case inl => exact ⟨_, _, rfl⟩
    case inr.inl =>
      obtain ⟨after, he⟩ := h.exists_eq
      exact ⟨'\x7b' :: p.inner, after, by simpa [opening, Placeholder.source] using he⟩
    case inr.inr =>
      obtain ⟨after, he⟩ := h.exists_eq
      exact ⟨d ++ (opening ++ p.inner), after, by simpa [Placeholder.source] using he⟩
  have hm : 0 < closing.length := by decide
  obtain ⟨inner, after, -, hc, -⟩ := Template.exists_cutAt hm xs ys
  exact ⟨inner, after, hc⟩

-- The parts are the placeholders that an even number of opening braces is right before.
theorem isPart_parts_iff (h : Stands p before cs) :
    IsPart p before (parts cs) ↔ Even (braces before) := by
  fun_induction parts cs generalizing before with
  | case1 cs ho =>
    obtain ⟨_, _, hs⟩ := h.exists_cutAt
    simp [hs] at ho
  | case2 cs b behind ho hc =>
    obtain ⟨d, rfl, hd⟩ := h.of_cutAt ho
    obtain ⟨_, _, hs⟩ := hd.exists_cutAt_closing
    simp [hs] at hc
  | case3 cs b behind ho inner rest hc hk hi =>
    obtain ⟨d, rfl, hd⟩ := h.of_cutAt ho
    let q := Placeholder.ofInner inner hk
    have hq : opening ++ behind = q.source ++ rest := by
      simp [Placeholder.source, q, Placeholder.inner_ofInner, eq_of_cutAt hc]
    obtain ⟨after, he⟩ := hd.exists_eq
    rw [IsPart.literal_cons_iff]
    simp only [List.append_cancel_left_eq, exists_eq_left', IsPart.placeholder_cons_iff]
    rcases Placeholder.source_append_cases (he ▸ hq) with ⟨rfl, rfl, -⟩ | ⟨e, rfl, hs⟩
    case inl => simp [braces_of_cutAt ho, q]
    case inr =>
      have hb : Even (braces (b ++ q.source)) := by
        rw [braces_append, q.braces_source, if_neg (by simp [Placeholder.source, opening])]
        exact Even.zero
      rw [← List.append_assoc, even_braces_append hb, ← hi ⟨after, by simpa using hs⟩]
      simp [q, Placeholder.source, opening]
  | case4 cs b behind ho inner rest hc hk hi =>
    obtain ⟨d, rfl, hd⟩ := h.of_cutAt ho
    simp only [IsPart.literal_cons_iff, List.append_cancel_left_eq, exists_eq_left']
    rcases hd.opening_cases with ⟨rfl, after, rfl⟩ | rfl | ⟨e, rfl, hs⟩
    case inl =>
      have hs : cutAt closing (p.inner ++ (closing ++ after)) = some (p.inner, after) :=
        cutAt_append p.closing_not_mem
      rw [hs, Option.some.injEq, Prod.mk.injEq] at hc
      rw [← hc.1, Placeholder.trim_inner] at hk
      exact absurd p.isKey_key hk
    case inr.inl => simp [braces_concat, braces_of_cutAt ho, opening]
    case inr.inr =>
      have hb : Even (braces (b ++ opening)) := by
        rw [braces_append_opening, braces_of_cutAt ho]
        decide
      rw [← List.append_assoc, even_braces_append hb, ← hi hs]
      simp

section Count

-- The placeholders among the parts behind `before`, each with what stands before it.
def placeholders (before : List Char) : List Part → List (List Char × Placeholder)
  | [] => []
  | .literal text :: ps => placeholders (before ++ text) ps
  | .placeholder p :: ps => (before, p) :: placeholders (before ++ p.source) ps

theorem mem_placeholders :
    (d, p) ∈ placeholders before ps ↔ ∃ e, d = before ++ e ∧ IsPart p e ps := by
  fun_induction placeholders before ps with
  | case1 => simp [IsPart.not_nil]
  | case2 before text ps hi =>
    rw [hi]
    constructor
    · rintro ⟨e, rfl, h⟩
      exact ⟨text ++ e, by simp, .tail (.literal text) h⟩
    · rintro ⟨e, rfl, h⟩
      obtain ⟨e, rfl, hp⟩ := IsPart.literal_cons_iff.mp h
      exact ⟨e, by simp, hp⟩
  | case3 before q ps hi =>
    rw [List.mem_cons, Prod.mk.injEq, hi]
    constructor
    · rintro (⟨rfl, rfl⟩ | ⟨e, rfl, h⟩)
      · exact ⟨[], by simp, .head ps⟩
      · exact ⟨q.source ++ e, by simp, .tail (.placeholder q) h⟩
    · rintro ⟨e, rfl, h⟩
      rcases IsPart.placeholder_cons_iff.mp h with ⟨rfl, rfl⟩ | ⟨e, rfl, hp⟩
      · exact .inl (by simp)
      · exact .inr ⟨e, by simp, hp⟩

theorem nodup_placeholders : (placeholders before ps).Nodup := by
  fun_induction placeholders before ps with
  | case1 => exact .nil
  | case2 before text ps hi => exact hi
  | case3 before q ps hi =>
    refine List.nodup_cons.mpr ⟨fun h => ?_, hi⟩
    obtain ⟨e, he, -⟩ := mem_placeholders.mp h
    simp [Placeholder.source, opening] at he

-- A replacement without braces takes the opening braces of each placeholder away.
theorem count_flatMap_source (hv : ∀ key, '\x7b' ∉ value key) (before : List Char)
    (ps : List Part) :
    (ps.flatMap Part.source).count '\x7b' =
      (ps.flatMap (Part.fill value)).count '\x7b' + 2 * (placeholders before ps).length := by
  fun_induction placeholders before ps with
  | case1 => simp
  | case2 before text ps hi =>
    simp only [List.flatMap_cons, List.count_append, Part.source, Part.fill, hi]
    omega
  | case3 before q ps hi =>
    simp only [List.flatMap_cons, List.count_append, Part.source, Part.fill, hi, q.count_source,
      List.count_eq_zero_of_not_mem (hv q.key), List.length_cons]
    omega

end Count

theorem replaces_fill (value : List Char → List Char) (cs : List Char) :
    Replaces (fun before => Even (braces before)) value cs (fill value cs) :=
  ⟨parts cs, flatMap_source_parts cs, (fill_eq_flatMap value cs).symm,
    fun _ _ => isPart_parts_iff⟩

-- If all placeholders of a text are parts, there are more of them than reading finds, unless an even
-- number of opening braces is right before each.
theorem length_placeholders_lt (hp : Stands p before (ps.flatMap Part.source))
    (hb : ¬Even (braces before))
    (ha : ∀ q d, Stands q d (ps.flatMap Part.source) → IsPart q d ps) :
    (placeholders [] (parts (ps.flatMap Part.source))).length < (placeholders [] ps).length := by
  have hn : ((before, p) :: placeholders [] (parts (ps.flatMap Part.source))).Nodup := by
    refine List.nodup_cons.mpr ⟨fun hm => hb ?_, nodup_placeholders⟩
    obtain ⟨e, rfl, hm⟩ := mem_placeholders.mp hm
    exact (isPart_parts_iff hp).mp hm
  refine (hn.subperm ?_).length_le
  rintro ⟨d, q⟩ hm
  refine mem_placeholders.mpr ⟨d, rfl, ha q d ?_⟩
  rcases List.mem_cons.mp hm with he | hm
  case inl =>
    cases he
    exact hp
  case inr =>
    obtain ⟨e, rfl, hm⟩ := mem_placeholders.mp hm
    simpa [flatMap_source_parts] using hm.stands

-- If all placeholders are replaced, an even number of opening braces is right before each.
theorem even_of_replaces (hv : ∀ key, '\x7b' ∉ value key)
    (h : Replaces (fun _ => True) value cs (fill value cs)) (hp : Stands p before cs) :
    Even (braces before) := by
  obtain ⟨ps, rfl, ho, ha⟩ := h
  by_contra hb
  have hl := length_placeholders_lt hp hb fun q d hq => (ha q d hq).mpr trivial
  have h₁ := count_flatMap_source hv [] ps
  have h₂ := count_flatMap_source hv [] (parts (ps.flatMap Part.source))
  rw [flatMap_source_parts, ← fill_eq_flatMap, ← ho] at h₂
  omega

theorem substitute_empty (key : List Char) : substitute ⟨.empty⟩ [] key = [] := by
  simp [substitute, EffectiveConfig.lookup, EffectiveConfig.get?]

-- Of the placeholders of a template, rendering replaces those that an even number of opening braces
-- is right before, all at once, and leaves all else in its place. So it replaces all, whatever they
-- become, if and only if there are no others. Placeholders of a template do not overlap.
theorem replaces_even (template : String) :
    (∀ (config : EffectiveConfig) (body : String),
      Replaces (fun before => Even (braces before)) (substitute config body.toList) template.toList
        (render template config body).toList) ∧
    ((∀ (config : EffectiveConfig) (body : String),
        Replaces (fun _ => True) (substitute config body.toList) template.toList
          (render template config body).toList) ↔
      ∀ p before, Stands p before template.toList → Even (braces before)) ∧
    ∀ p q before d, Stands p before template.toList → Stands q d template.toList →
      before.length ≤ d.length → (p = q ∧ before = d) ∨ (before ++ p.source).length ≤ d.length := by
  have hr (config : EffectiveConfig) (body : String) : (render template config body).toList =
      fill (substitute config body.toList) template.toList := String.toList_ofList
  simp only [hr]
  refine ⟨fun _ _ => replaces_fill _ _, ⟨fun h p before hp => ?_, fun h config body => ?_⟩, ?_⟩
  case refine_1 =>
    have hv : ∀ key, '\x7b' ∉ substitute ⟨.empty⟩ [] key := by simp [substitute_empty]
    exact even_of_replaces hv (h ⟨.empty⟩ "") hp
  case refine_2 =>
    obtain ⟨ps, hs, ho, ha⟩ := replaces_fill (substitute config body.toList) template.toList
    exact ⟨ps, hs, ho, fun p before hp => (ha p before hp).trans (iff_true_intro (h p before hp))⟩
  case refine_3 => exact fun p q before d hp hq hl => hp.eq_or_le hq hl

-- A template whose first placeholder is right behind two further opening braces.
def doublyBraced : String :=
  "\x7b\x7b\x7b\x7btitle\x7d\x7d: \x7b\x7bbody\x7d\x7d"

-- The one placeholder is replaced, and the other begins behind it.
theorem doublyBraced_replaces_even :
    ∃ (p q : Placeholder) (d : List Char), Stands p opening doublyBraced.toList ∧
      Stands q d doublyBraced.toList ∧ opening.length ≤ d.length ∧ Even (braces opening) ∧
      (render doublyBraced ⟨.empty⟩ "a").toList = "\x7b\x7b: a".toList ∧
      Replaces (fun before => Even (braces before)) (substitute ⟨.empty⟩ "a".toList)
        doublyBraced.toList (render doublyBraced ⟨.empty⟩ "a").toList ∧
      (opening ++ p.source).length ≤ d.length := by
  let p : Placeholder := ⟨[], "title".toList, [], by simp, by decide, by simp⟩
  let q : Placeholder := ⟨[], bodyKey.toList, [], by simp, by decide, by simp⟩
  let d : List Char := opening ++ (p.source ++ [':', ' '])
  have hp : Stands p opening doublyBraced.toList := by decide
  have hq : Stands q d doublyBraced.toList := by decide
  have hl : opening.length ≤ d.length := by decide
  obtain ⟨hr, -, ho⟩ := replaces_even doublyBraced
  refine ⟨p, q, d, hp, hq, hl, by decide, by decide +kernel, hr _ _, ?_⟩
  exact (ho p q opening d hp hq hl).resolve_left (by simp [d])

-- A template with a placeholder right behind an opening brace.
def braced : String :=
  "\x7b\x7b\x7btitle\x7d\x7d"

-- It is left as it stands, where it should leave the one brace.
theorem braced_not_replaced :
    ¬Replaces (fun _ => True) (substitute ⟨.empty⟩ []) braced.toList
      (render braced ⟨.empty⟩ "").toList := by
  let p : Placeholder := ⟨[], "title".toList, [], by simp, by decide, by simp⟩
  have hp : Stands p ['\x7b'] braced.toList := by decide
  have hv : ∀ key, '\x7b' ∉ substitute ⟨.empty⟩ [] key := by simp [substitute_empty]
  intro h
  rw [render, String.toList_ofList] at h
  exact absurd (even_of_replaces hv h hp) (by decide)

end StaticSite.Template
