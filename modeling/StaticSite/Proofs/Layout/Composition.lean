import StaticSite.Proofs.Layout.Replacement
/-!
Templates put together. What stands further right in a template can change how its beginning is read
only through opening braces that are not closed there, or by a brace at the seam. Main statement:
but for these, two templates put together are rendered one after the other (`render_append`).
-/
namespace StaticSite.Template

open Text

variable {mark cs xs ys before behind : List Char} {value : List Char → List Char}

theorem cutAt_eq_none_iff (hm : 0 < mark.length) : cutAt mark cs = none ↔ ¬mark <:+: cs := by
  constructor
  · rintro hn ⟨xs, ys, rfl⟩
    obtain ⟨before, behind, -, hc, -⟩ := exists_cutAt hm xs ys
    simp [hc] at hn
  · intro hn
    rcases hc : cutAt mark cs with _ | ⟨before, behind⟩
    case none => rfl
    case some => exact absurd ⟨before, behind, by simp [eq_of_cutAt hc]⟩ hn

-- Where a text is cut does not depend on what is put behind it.
theorem cutAt_append_of_eq_some (h : cutAt mark xs = some (before, behind)) (ys : List Char) :
    cutAt mark (xs ++ ys) = some (before, behind ++ ys) := by
  fun_induction cutAt mark xs generalizing before with
  | case1 => simp at h
  | case2 c rest hp =>
    obtain ⟨rfl, rfl⟩ : [] = before ∧ (c :: rest).drop mark.length = behind := by simpa using h
    have hp := List.isPrefixOf_iff_prefix.mp hp
    rw [List.cons_append, cutAt, if_pos, ← List.cons_append,
      List.drop_append_of_le_length hp.length_le]
    exact List.isPrefixOf_iff_prefix.mpr (hp.trans (List.prefix_append _ _))
  | case3 c rest hp hi =>
    obtain ⟨⟨a, b⟩, hr, he⟩ := Option.map_eq_some_iff.mp h
    obtain ⟨rfl, rfl⟩ : c :: a = before ∧ b = behind := by simpa using he
    -- the mark stands in the rest, so it is not longer than the text
    have hl : mark.length ≤ (c :: rest).length := by
      rw [eq_of_cutAt hr]
      simp only [List.length_cons, List.length_append]
      omega
    have hn : ¬mark.isPrefixOf (c :: (rest ++ ys)) := by
      intro hq
      have hq := List.isPrefixOf_iff_prefix.mp hq
      have hq := List.prefix_of_prefix_length_le hq (List.prefix_append (c :: rest) ys) hl
      exact hp (List.isPrefixOf_iff_prefix.mpr hq)
    rw [List.cons_append, cutAt, if_neg hn, hi hr]
    rfl

-- Whether two opening braces meet where two texts are put together.
def MeetAtBrace (xs ys : List Char) : Prop :=
  xs.getLast? = some '\x7b' ∧ ys.head? = some '\x7b'

theorem MeetAtBrace.of_append (h : MeetAtBrace xs ys) (before : List Char) :
    MeetAtBrace (before ++ xs) ys := by
  have hn : xs ≠ [] := by
    rintro rfl
    simp [MeetAtBrace] at h
  exact ⟨by rw [List.getLast?_append_of_ne_nil _ hn, h.1], h.2⟩

theorem cutAt_append_of_eq_none (h : cutAt opening xs = none) (hj : ¬MeetAtBrace xs ys) :
    cutAt opening (xs ++ ys) = (cutAt opening ys).map fun (b, r) => (xs ++ b, r) := by
  induction xs
  case nil => simp
  case cons x xs hi =>
    rw [cutAt] at h
    split at h
    case isTrue => simp at h
    case isFalse hp =>
      rw [Option.map_eq_none_iff] at h
      have hp : ¬opening.isPrefixOf (x :: (xs ++ ys)) := by
        intro hq
        cases xs
        case nil =>
          cases ys
          case nil => exact hp hq
          case cons y ys =>
            obtain ⟨rfl, rfl⟩ : '\x7b' = x ∧ '\x7b' = y := by simpa [opening] using hq
            exact hj ⟨rfl, rfl⟩
        case cons => exact hp (by simpa [opening] using hq)
      rw [List.cons_append, cutAt, if_neg hp, hi h fun hm => hj (hm.of_append [x]), Option.map_map]
      rfl

-- Whether a text has no opening braces, or closing ones somewhere behind the last of them.
def IsClosed (cs : List Char) : Prop :=
  ¬opening <:+: cs ∨ ∃ before behind, cs = before ++ (opening ++ behind) ∧
    ¬opening <:+: '\x7b' :: behind ∧ closing <:+: behind

-- Then there are closing braces behind all of them.
theorem IsClosed.closing_infix (h : IsClosed cs) (he : cs = before ++ (opening ++ behind)) :
    closing <:+: behind := by
  rcases h with hn | ⟨b, r, hb, hl, hc⟩
  case inl => exact absurd ⟨before, behind, by simp [he]⟩ hn
  case inr =>
    have hr : r <:+ cs := ⟨b ++ opening, by simp [hb]⟩
    have hs : opening ++ behind <:+ cs := ⟨before, he.symm⟩
    rcases Nat.lt_or_ge behind.length r.length with hlt | hge
    case inl =>
      have ho : '\x7b' :: r <:+ cs := ⟨b ++ ['\x7b'], by simp [hb, opening]⟩
      have hle : (opening ++ behind).length ≤ ('\x7b' :: r).length := by
        simp only [opening, List.length_append, List.length_cons, List.length_nil]
        omega
      have hi := (List.suffix_of_suffix_length_le hs ho hle).isInfix
      exact absurd ((List.prefix_append opening behind).isInfix.trans hi) hl
    case inr =>
      have hb : behind <:+ cs := (List.suffix_append opening behind).trans hs
      exact hc.trans (List.suffix_of_suffix_length_le hr hb hge).isInfix

-- A text without opening braces stands as it is in front of what follows.
theorem fill_append_of_unopened (ho : cutAt opening xs = none) (hj : ¬MeetAtBrace xs ys) :
    fill value (xs ++ ys) = xs ++ fill value ys := by
  have hx := cutAt_append_of_eq_none ho hj
  rcases hy : cutAt opening ys with _ | ⟨before, behind⟩
  case none =>
    rw [hy, Option.map_none] at hx
    rw [fill_of_unopened hx, fill_of_unopened hy]
  case some =>
    rw [hy, Option.map_some] at hx
    rcases hc : cutAt closing behind with _ | ⟨inner, after⟩
    case none => rw [fill_of_unclosed hx hc, fill_of_unclosed hy hc]
    case some =>
      by_cases hk : isKey (trim inner)
      case pos => rw [fill_of_isKey hx hc hk, fill_of_isKey hy hc hk, List.append_assoc]
      case neg => rw [fill_of_not_isKey hx hc hk, fill_of_not_isKey hy hc hk, List.append_assoc]

theorem fill_append (hc : ∀ before behind, xs = before ++ (opening ++ behind) → closing <:+: behind)
    (hj : ¬MeetAtBrace xs ys) : fill value (xs ++ ys) = fill value xs ++ fill value ys := by
  fun_induction fill value xs with
  | case1 xs ho => exact fill_append_of_unopened ho hj
  | case2 xs before behind ho hn =>
    have hi := hc before behind (eq_of_cutAt ho)
    exact absurd hi ((cutAt_eq_none_iff (by decide)).mp hn)
  | case3 xs before behind ho inner after hn hk hi =>
    have hs : xs = before ++ (opening ++ (inner ++ (closing ++ after))) := by
      rw [eq_of_cutAt ho, eq_of_cutAt hn]
    rw [fill_of_isKey (cutAt_append_of_eq_some ho ys) (cutAt_append_of_eq_some hn ys) hk, hi]
    · simp
    · intro b r he
      exact hc (before ++ (opening ++ (inner ++ (closing ++ b)))) r (by simp [hs, he])
    · intro hm
      exact hj (by simpa [hs] using hm.of_append (before ++ (opening ++ (inner ++ closing))))
  | case4 xs before behind ho inner after hn hk hi =>
    have hs := eq_of_cutAt ho
    rw [fill_of_not_isKey (cutAt_append_of_eq_some ho ys) (cutAt_append_of_eq_some hn ys) hk, hi]
    · simp
    · intro b r he
      exact hc (before ++ (opening ++ b)) r (by simp [hs, he])
    · intro hm
      exact hj (by simpa [hs] using hm.of_append (before ++ opening))

-- Two templates put together are rendered one after the other, if all braces of the first are
-- closed in it and no braces meet at the seam. A template without opening braces stays as it is.
theorem render_append (config : EffectiveConfig) (body t₁ t₂ : String)
    (hj : ¬MeetAtBrace t₁.toList t₂.toList) :
    (IsClosed t₁.toList →
      render (t₁ ++ t₂) config body = render t₁ config body ++ render t₂ config body) ∧
    (¬opening <:+: t₁.toList →
      render t₁ config body = t₁ ∧
        render (t₁ ++ t₂) config body = t₁ ++ render t₂ config body) := by
  have happend (hc : IsClosed t₁.toList) :
      render (t₁ ++ t₂) config body = render t₁ config body ++ render t₂ config body := by
    rw [render, String.toList_append, fill_append (fun _ _ => hc.closing_infix) hj,
      String.ofList_append]
    rfl
  refine ⟨happend, fun hn => ?_⟩
  have hself : render t₁ config body = t₁ := by
    rw [render, fill_of_unopened ((cutAt_eq_none_iff (by decide)).mpr hn), String.ofList_toList]
  exact ⟨hself, by rw [happend (.inl hn), hself]⟩

-- The last opening braces of the first template overlap others, and what closes them makes no
-- placeholder. Those of the second stay open.
theorem nestedBraces_render_append :
    let t₁ := "\x7b\x7ba\x7d\x7d \x7b\x7b\x7b \x7d\x7d"
    let t₂ := "\x7d\x7b\x7bbody\x7d\x7d \x7b\x7ba"
    ¬MeetAtBrace t₁.toList t₂.toList ∧ IsClosed t₁.toList ∧
      render (t₁ ++ t₂) ⟨.empty⟩ "b" = render t₁ ⟨.empty⟩ "b" ++ render t₂ ⟨.empty⟩ "b" ∧
      ¬opening <:+: ", ".toList ∧
      render (", " ++ t₂) ⟨.empty⟩ "b" = ", " ++ render t₂ ⟨.empty⟩ "b" := by
  intro t₁ t₂
  have hj : ¬MeetAtBrace t₁.toList t₂.toList := fun h => absurd h.2 (by decide)
  have hj' : ¬MeetAtBrace ", ".toList t₂.toList := fun h => absurd h.2 (by decide)
  have hc : IsClosed t₁.toList :=
    .inr ⟨"\x7b\x7ba\x7d\x7d \x7b".toList, " \x7d\x7d".toList, by decide, by decide, by decide⟩
  have hn : ¬opening <:+: ", ".toList := by decide
  exact ⟨hj, hc, (render_append ⟨.empty⟩ "b" t₁ t₂ hj).1 hc, hn,
    ((render_append ⟨.empty⟩ "b" ", " t₂ hj').2 hn).2⟩

end StaticSite.Template
