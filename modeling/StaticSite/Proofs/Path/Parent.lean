import StaticSite.Proofs.Path.Below
/-!
The parent of a path, however that path is written. Main statement: its pieces are the first ones of
the path (`exists_of_parent?`).
-/
namespace StaticSite.Path

-- The directory that a path is in. A name that stands alone is in the working directory.
def enclosing? (p : Path) : Option Path :=
  p.parent?.map fun q => if q.text.isEmpty then "." else q

variable {p q : Path}

theorem dropIdleEnd_cases (ps : List String) :
    dropIdleEnd ps = [] ∨ ∃ qs name, dropIdleEnd ps = qs ++ [name] ∧ isIdle name = false := by
  rcases hd : ps.reverse.dropWhile isIdle with _ | ⟨name, qs⟩
  case nil => exact .inl (by rw [dropIdleEnd, hd]; rfl)
  case cons =>
    refine .inr ⟨qs.reverse, name, by rw [dropIdleEnd, hd, List.reverse_cons], ?_⟩
    have hn := List.head?_dropWhile_not isIdle ps.reverse
    rw [hd] at hn
    simpa using hn

theorem stem_cases :
    p.stem = [] ∨ p.stem = ["."] ∨ ∃ ps name, p.stem = ps ++ [name] ∧ isIdle name = false := by
  unfold stem
  split
  case h_1 ps _ _ =>
    rcases dropIdleEnd_cases ps with h | ⟨qs, name, h, hn⟩ <;> rw [h]
    case inl => exact .inr (.inl rfl)
    case inr => exact .inr (.inr ⟨"." :: qs, name, rfl, hn⟩)
  case h_2 => exact (dropIdleEnd_cases p.pieces).imp_right .inr

theorem trimmed_eq : p.trimmed.isAbsolute = p.isAbsolute ∧
    p.trimmed.pieces = if p.stem = [] then [""] else p.stem := by
  obtain ⟨rest, hr, -⟩ := exists_stem_append (p := p)
  exact ⟨isAbsolute_ofPieces_of_append hr, pieces_ofPieces_of_append hr⟩

-- A parent is the root or empty, or its pieces are the first ones of the path. It has no idle steps
-- at its end.
theorem exists_of_parent? (h : p.parent? = some q) : q.isAbsolute = p.isAbsolute ∧
    (q.pieces = [""] ∨
      (q.pieces = ["."] ∨ ∃ ps name, q.pieces = ps ++ [name] ∧ isIdle name = false) ∧
      ∃ idle name rest, p.pieces = q.pieces ++ (idle ++ name :: rest) ∧ isIdle name = false ∧
        (∀ n ∈ idle, isIdle n) ∧ ∀ n ∈ rest, isIdle n) := by
  rw [parent?] at h
  split at h
  case isTrue => simp at h
  case isFalse hne =>
    obtain rfl := Option.some.inj h
    obtain ⟨rest, hp, hrest⟩ := exists_stem_append (p := p)
    rcases stem_cases (p := p) with hs | hs | ⟨ps, name, hs, hn⟩ <;> rw [hs] at hp
    case inl => simp [hs] at hne
    case inr.inl =>
      have hq := pieces_ofPieces_of_append (List.nil_append p.pieces).symm
      have ha := isAbsolute_ofPieces_of_append (List.nil_append p.pieces).symm
      rw [hs, List.dropLast_singleton, trimmed_eq.1, trimmed_eq.2]
      exact ⟨ha, .inl (if_pos (stem_of_pieces_eq_nil hq))⟩
    case inr.inr =>
      rw [List.append_assoc, List.singleton_append] at hp
      have hq := pieces_ofPieces_of_append hp
      have ha := isAbsolute_ofPieces_of_append hp
      rw [hs, List.dropLast_concat, trimmed_eq.1, trimmed_eq.2]
      generalize ofPieces p.isAbsolute ps = r at hq ha ⊢
      refine ⟨ha, ?_⟩
      by_cases hr : r.stem = []
      case pos => exact .inl (if_pos hr)
      case neg =>
        have hne : ps ≠ [] := by
          rintro rfl
          exact hr (stem_of_pieces_eq_nil hq)
        obtain ⟨idle, hi, hidle⟩ := exists_stem_append (p := r)
        rw [hq, if_neg hne] at hi
        rw [if_neg hr]
        refine .inr ⟨stem_cases.resolve_left hr, idle, name, rest, ?_, hn, hidle, hrest⟩
        rw [hp, hi, List.append_assoc]

theorem mem_pieces_of_parent? {n : String} (h : p.parent? = some q) (hn : n ∈ q.pieces) :
    n = "" ∨ n ∈ p.pieces := by
  obtain ⟨-, hq | ⟨-, idle, name, rest, hp, -⟩⟩ := exists_of_parent? h
  case inl => exact .inl (by simpa [hq] using hn)
  case inr => exact .inr (hp ▸ List.mem_append_left _ hn)

-- This goes for whatever is on the way up.
theorem exists_of_mem_ancestors {n : Nat} (h : q ∈ ancestors.go n p) :
    q.isAbsolute = p.isAbsolute ∧ (q.pieces = [""] ∨ ∃ rest, p.pieces = q.pieces ++ rest) := by
  induction n generalizing p
  case zero => simp [ancestors.go] at h
  case succ n hi =>
    rcases List.mem_cons.mp h with rfl | h
    case inl => exact ⟨rfl, .inr ⟨[], by simp⟩⟩
    case inr =>
      cases hr : p.parent? <;> rw [hr] at h
      case none => simp at h
      case some r =>
        obtain ⟨ha, hp⟩ := exists_of_parent? hr
        obtain ⟨hb, hq⟩ := hi h
        refine ⟨hb.trans ha, ?_⟩
        rcases hq with hq | ⟨rest, hq⟩
        case inl => exact .inl hq
        case inr =>
          rcases hp with hp | ⟨-, idle, name, rest', hp, -⟩ <;> rw [hq] at hp
          case inl =>
            rcases List.append_eq_singleton_iff.mp hp with ⟨he, -⟩ | ⟨he, -⟩
            case inl => exact absurd he pieces_ne_nil
            case inr => exact .inl he
          case inr => exact .inr ⟨_, hp.trans (List.append_assoc ..)⟩

-- A parent has fewer characters.
theorem length_of_parent? (h : p.parent? = some q) : q.text.length < p.text.length := by
  obtain ⟨ha, hr⟩ := exists_of_parent? h
  have hq : q = ofPieces p.isAbsolute q.pieces := by rw [← ha, ofPieces_pieces]
  obtain ⟨text, ht⟩ : ∃ text, p.text = q.text ++ text := by
    rcases hr with hr | ⟨-, idle, name, rest, hp, -⟩
    case inl =>
      have hp : p.text = (ofPieces p.isAbsolute p.pieces).text := by rw [ofPieces_pieces]
      rw [hp, hq, hr]
      exact ⟨"/".intercalate p.pieces, by simp [ofPieces]⟩
    case inr =>
      rw [hq]
      exact text_ofPieces_of_append hp
  have hne : text ≠ "" := by
    rintro rfl
    obtain rfl : q = p := text_inj.mp (by simp [ht])
    rcases hr with hr | ⟨-, idle, name, rest, hp, -⟩
    case inl => simp [parent?, stem_of_pieces_eq_nil hr] at h
    case inr => simpa using congrArg List.length hp
  have hl : 0 < text.length := Nat.pos_of_ne_zero fun he => hne (by simpa using he)
  rw [ht, String.length_append]
  omega

-- So any number of steps that is enough to go all the way up gives the same.
theorem ancestors_go_eq {m n : Nat} (hm : p.text.length < m) (hn : p.text.length < n) :
    ancestors.go m p = ancestors.go n p := by
  induction m generalizing n p
  case zero => omega
  case succ m hi =>
    obtain ⟨n, rfl⟩ := Nat.exists_eq_add_of_lt hn
    rw [ancestors.go, ancestors.go]
    cases hq : p.parent?
    case none => rfl
    case some q =>
      have hl := length_of_parent? hq
      simp [hi (p := q) (n := p.text.length + n) (by omega) (by omega)]

theorem eq_nil_of_parent? {ps rest : List String} {name : String} (h : p.parent? = some q)
    (hp : q.pieces = ps ++ name :: rest) (hn : isIdle name = false)
    (hr : ∀ n ∈ rest, isIdle n) : rest = [] := by
  have hm : name ∈ q.pieces := by simp [hp]
  obtain ⟨-, hq | ⟨hq | ⟨qs, last, hq, hl⟩, -⟩⟩ := exists_of_parent? h
  case inl =>
    obtain rfl : name = "" := by simpa [hq] using hm
    exact absurd hn (by decide)
  case inr.inl =>
    obtain rfl : name = "." := by simpa [hq] using hm
    exact absurd hn (by decide)
  case inr.inr =>
    obtain rfl | ⟨rest, last', rfl⟩ := List.eq_nil_or_concat' rest
    case inl => rfl
    case inr =>
      have he := congrArg List.getLast? (hq.symm.trans hp)
      rw [← List.cons_append, ← List.append_assoc, List.getLast?_concat, List.getLast?_concat,
        Option.some_inj] at he
      simp [he, hr last' (by simp)] at hl

end StaticSite.Path
