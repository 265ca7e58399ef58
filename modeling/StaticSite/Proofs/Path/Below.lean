import Mathlib.Data.List.TakeWhile
import StaticSite.Proofs.Path.Canonical
import StaticSite.Proofs.Text.Lines
/-!
What stands below a path, however that path is written. Main statements: the way below it is put
behind its pieces (`pieces_below`), and can be taken off again, by one name (`parent?_below`) or as
a whole (`stripPrefix?_below`).
-/
namespace StaticSite

open Location

namespace Path

-- Whether a name can be put right behind the path.
def isOpen (p : Path) : Bool :=
  p.text.isEmpty || p.text.toList.getLast? == some '/'

-- The pieces of a path below come behind these.
def base (p : Path) : List String :=
  if p.isOpen then p.pieces.dropLast else p.pieces

-- What is cut into pieces.
def body (p : Path) : List Char :=
  if p.isAbsolute then p.text.toList.tail else p.text.toList

variable {p q : Path} {k dir : Location} {name : String} {ps qs : List String}

theorem pieces_eq_map_body : p.pieces = (p.body.splitOn '/').map .ofList :=
  rfl

theorem body_of_isAbsolute {cs : List Char} (h : p.text.toList = '/' :: cs) : p.body = cs := by
  simp [body, isAbsolute, h]

theorem body_of_not_isAbsolute (h : p.isAbsolute = false) : p.body = p.text.toList := by
  simp [body, h]

theorem toList_text_eq : p.text.toList = (if p.isAbsolute then ['/'] else []) ++ p.body := by
  cases h : p.isAbsolute
  case false => simp [body_of_not_isAbsolute h]
  case true =>
    obtain ⟨cs, hc⟩ := isAbsolute_iff.mp h
    simp [body_of_isAbsolute hc, hc]

-- A path is told by its pieces.
theorem ofPieces_pieces : ofPieces p.isAbsolute p.pieces = p := by
  rw [← text_inj, ← String.toList_inj, toList_text_eq (p := p), ofPieces, String.toList_append,
    String.toList_intercalate, pieces_eq_map_body]
  have hb : ['/'].intercalate (p.body.splitOn '/') = p.body := List.intercalate_splitOn '/'
  cases p.isAbsolute <;> simp [hb, Function.comp_def]

theorem slash_not_mem_of_mem_pieces (h : name ∈ p.pieces) : '/' ∉ name.toList := by
  obtain ⟨cs, hc, rfl⟩ := List.mem_map.mp (pieces_eq_map_body (p := p) ▸ h)
  simpa using (Text.of_mem_splitOn hc).1

theorem mem_text_of_mem_pieces {c : Char} (h : name ∈ p.pieces) (hc : c ∈ name.toList) :
    c ∈ p.text.toList := by
  obtain ⟨cs, hm, rfl⟩ := List.mem_map.mp (pieces_eq_map_body (p := p) ▸ h)
  rw [toList_text_eq]
  exact List.mem_append_right _ ((Text.of_mem_splitOn hm).2 (by simpa using hc))

-- Pieces that can be told from what is written of them, be it behind a slash or not. Only the empty
-- path begins with an empty piece if it is relative.
structure IsSpelling (absolute : Bool) (ps : List String) : Prop where
  ne_nil : ps ≠ []
  unslashed : ∀ n ∈ ps, '/' ∉ n.toList
  relative : absolute = false → ps.head? = some "" → ps = [""]

theorem isSpelling_pieces : IsSpelling p.isAbsolute p.pieces where
  ne_nil := pieces_ne_nil
  unslashed _ := slash_not_mem_of_mem_pieces
  relative ha hh := by
    obtain ⟨qs, hq⟩ := List.head?_eq_some_iff.mp hh
    cases qs
    case nil => exact hq
    case cons n qs =>
      have ht := congrArg (·.text.toList) (ofPieces_pieces (p := p))
      simp only [ha, hq, ofPieces, Bool.false_eq_true, if_false, String.empty_append,
        String.intercalate_cons_cons] at ht
      have := (isAbsolute_iff (p := p)).mpr ⟨("/".intercalate (n :: qs)).toList, by simp [← ht]⟩
      simp [ha] at this

namespace IsSpelling

variable {absolute : Bool}

theorem of_append (h : IsSpelling absolute (qs ++ ps)) (hq : qs ≠ []) : IsSpelling absolute qs where
  ne_nil := hq
  unslashed n hn := h.unslashed n (List.mem_append_left ps hn)
  relative ha hh := by
    have hs := h.relative ha (by rw [List.head?_append_of_ne_nil _ hq, hh])
    obtain ⟨n, qs, rfl⟩ := List.exists_cons_of_ne_nil hq
    simp_all

variable (h : IsSpelling absolute ps)

include h

theorem isAbsolute_ofPieces : (ofPieces absolute ps).isAbsolute = absolute := by
  cases absolute
  case true => exact isAbsolute_iff.mpr ⟨("/".intercalate ps).toList, by simp [ofPieces]⟩
  case false =>
    obtain ⟨n, qs, rfl⟩ := List.exists_cons_of_ne_nil h.ne_nil
    rcases hn : n.toList with _ | ⟨c, cs⟩
    case nil =>
      obtain rfl : n = "" := String.toList_eq_nil_iff.mp hn
      obtain rfl : qs = [] := by simpa using h.relative rfl rfl
      rfl
    case cons =>
      have hc : c ≠ '/' := by
        rintro rfl
        exact h.unslashed n List.mem_cons_self (by simp [hn])
      cases qs <;> simp [isAbsolute, ofPieces, String.toList_intercalate, hn, hc]

theorem pieces_ofPieces : (ofPieces absolute ps).pieces = ps := by
  have hb : (ofPieces absolute ps).body = ['/'].intercalate (ps.map String.toList) := by
    have ht := toList_text_eq (p := ofPieces absolute ps)
    rw [h.isAbsolute_ofPieces, ofPieces, String.toList_append, String.toList_intercalate] at ht
    cases absolute <;> simpa [ofPieces] using ht.symm
  have hs : ∀ cs ∈ ps.map String.toList, '/' ∉ cs := by simpa using h.unslashed
  rw [pieces_eq_map_body, hb, List.splitOn_intercalate '/' hs (by simpa using h.ne_nil)]
  simp [Function.comp_def]

end IsSpelling

-- The first pieces of a path are those of a path before it.
theorem text_ofPieces_of_append (h : p.pieces = qs ++ ps) :
    ∃ text, p.text = (ofPieces p.isAbsolute qs).text ++ text := by
  rw [← text_inj.mpr (ofPieces_pieces (p := p)), h]
  by_cases hq : qs = []
  case pos => exact ⟨"/".intercalate ps, by simp [hq, ofPieces]⟩
  by_cases hp : ps = []
  case pos => exact ⟨"", by simp [hp]⟩
  exact ⟨"/" ++ "/".intercalate ps, by
    simp [ofPieces, String.intercalate_append_of_ne_nil hq hp, String.append_assoc]⟩

theorem isAbsolute_ofPieces_of_append (h : p.pieces = qs ++ ps) :
    (ofPieces p.isAbsolute qs).isAbsolute = p.isAbsolute := by
  by_cases hq : qs = []
  case pos => cases p.isAbsolute <;> simp [hq, ofPieces, isAbsolute]
  case neg => exact ((h ▸ isSpelling_pieces).of_append hq).isAbsolute_ofPieces

theorem pieces_ofPieces_of_append (h : p.pieces = qs ++ ps) :
    (ofPieces p.isAbsolute qs).pieces = if qs = [] then [""] else qs := by
  split
  case isTrue hq => cases p.isAbsolute <;> simp [hq, ofPieces, pieces, isAbsolute]
  case isFalse hq => exact ((h ▸ isSpelling_pieces).of_append hq).pieces_ofPieces

theorem exists_dropIdleEnd_append (ps : List String) :
    ∃ rest, ps = dropIdleEnd ps ++ rest ∧ ∀ n ∈ rest, isIdle n := by
  have ha := List.takeWhile_append_dropWhile (p := isIdle) (l := ps.reverse)
  refine ⟨(ps.reverse.takeWhile isIdle).reverse, ?_, fun n hn => ?_⟩
  · rw [dropIdleEnd, ← List.reverse_append, ha, List.reverse_reverse]
  · exact List.mem_takeWhile_imp (List.mem_reverse.mp hn)

-- What follows the stem leads nowhere.
theorem exists_stem_append : ∃ rest, p.pieces = p.stem ++ rest ∧ ∀ n ∈ rest, isIdle n := by
  unfold stem
  split
  case h_1 ps _ hp =>
    obtain ⟨rest, hr, hi⟩ := exists_dropIdleEnd_append ps
    exact ⟨rest, by rw [hp, List.cons_append, ← hr], hi⟩
  case h_2 => exact exists_dropIdleEnd_append _

theorem isAbsolute_below (hq : q.isAbsolute = false) : (p / q).isAbsolute = p.isAbsolute := by
  cases h : p.isAbsolute
  case true => exact isAbsolute_join h hq
  case false =>
    show (p.join q).isAbsolute = false
    rw [join, if_neg (by simp [hq])]
    split
    case isTrue ho =>
      rcases ht : p.text.toList with _ | ⟨c, cs⟩
      case nil => simpa [isAbsolute, ht] using hq
      case cons => simpa [isAbsolute, ht] using h
    case isFalse ho =>
      rcases ht : p.text.toList with _ | ⟨c, cs⟩
      case nil => simp [String.toList_eq_nil_iff.mp ht] at ho
      case cons => simpa [isAbsolute, ht] using h

theorem isAbsolute_div (hp : p.isAbsolute) : (p / q).isAbsolute := by
  cases hq : q.isAbsolute
  case false => exact isAbsolute_join hp hq
  case true =>
    show (p.join q).isAbsolute
    rwa [join, if_pos hq]

theorem text_below (hq : q.isAbsolute = false) :
    (p / q).text = p.text ++ (if p.isOpen then "" else "/") ++ q.text := by
  show (p.join q).text = _
  rw [join, if_neg (by simp [hq])]
  unfold isOpen
  split <;> simp [String.append_assoc]

theorem body_below (hq : q.isAbsolute = false) :
    (p / q).body = p.body ++ if p.isOpen then q.text.toList else '/' :: q.text.toList := by
  have ht : (p / q).text.toList =
      p.text.toList ++ if p.isOpen then q.text.toList else '/' :: q.text.toList := by
    rw [text_below hq]
    split <;> simp
  have ha := isAbsolute_below (p := p) hq
  rw [toList_text_eq, ha, toList_text_eq (p := p), List.append_assoc] at ht
  exact List.append_cancel_left ht

theorem body_of_isOpen (h : p.isOpen) : p.body = [] ∨ ∃ cs, p.body = cs ++ ['/'] := by
  rcases List.eq_nil_or_concat' p.body with hb | ⟨cs, c, hb⟩
  case inl => exact .inl hb
  case inr =>
    right
    have ht := toList_text_eq (p := p)
    rw [hb, ← List.append_assoc] at ht
    have hne : p.text ≠ "" := by
      rintro he
      simp [he] at ht
    simp only [isOpen, Bool.or_eq_true, String.isEmpty_iff, hne, false_or, ht, beq_iff_eq,
      List.getLast?_concat, Option.some_inj] at h
    exact ⟨cs, h ▸ hb⟩

theorem pieces_below (hq : q.isAbsolute = false) : (p / q).pieces = p.base ++ q.pieces := by
  rw [pieces_eq_map_body, body_below hq, base, pieces_of_not_isAbsolute hq, pieces_eq_map_body]
  cases ho : p.isOpen
  case false => simp [List.splitOn_append_cons_self]
  case true =>
    rcases body_of_isOpen ho with hb | ⟨cs, hb⟩
    case inl => simp [hb]
    case inr =>
      simp only [hb, if_true, List.append_assoc, List.singleton_append,
        List.splitOn_append_cons_self]
      simp

-- The pieces of a path are those that come before what is below, but for an empty one at the end.
theorem pieces_eq_base : p.pieces = p.base ∨ p.pieces = p.base ++ [""] := by
  unfold base
  cases ho : p.isOpen
  case false => exact .inl rfl
  case true =>
    right
    rw [pieces_eq_map_body]
    rcases body_of_isOpen ho with hb | ⟨cs, hb⟩
    case inl => simp [hb]
    case inr => simp [hb, List.splitOn_append_cons_self]

section

variable (hk : IsPlain k) (hne : k ≠ [])

include hk hne

theorem pieces_toRelative_below : (p / k.toRelative).pieces = p.base ++ k := by
  rw [pieces_below (hk.isAbsolute_toRelative hne), hk.pieces_toRelative hne]

theorem below_eq_ofPieces : p / k.toRelative = ofPieces p.isAbsolute (p.base ++ k) := by
  rw [← ofPieces_pieces (p := p / k.toRelative), pieces_toRelative_below hk hne,
    isAbsolute_below (hk.isAbsolute_toRelative hne)]

end

theorem below_inj {l : Location} (hk : k.IsPlain) (hl : l.IsPlain) (hk' : k ≠ []) (hl' : l ≠ []) :
    p / k.toRelative = p / l.toRelative ↔ k = l := by
  refine ⟨fun h => ?_, fun h => h ▸ rfl⟩
  have hp := congrArg pieces h
  rwa [pieces_toRelative_below hk hk', pieces_toRelative_below hl hl',
    List.append_cancel_left_eq] at hp

theorem base_below (hk : IsPlain k) (hne : k ≠ []) : (p / k.toRelative).base = p.base ++ k := by
  have hp := pieces_toRelative_below (p := p) hk hne
  rcases pieces_eq_base (p := p / k.toRelative) with h | h
  case inl => exact h.symm.trans hp
  case inr =>
    have hl : "" ∈ k := by
      have := congrArg List.getLast? (h.symm.trans hp)
      rw [List.getLast?_concat, List.getLast?_append_of_ne_nil _ hne] at this
      exact List.mem_of_getLast? this.symm
    exact absurd (hk "" hl).1 (by decide)

theorem below_name : p / ⟨name⟩ = p / toRelative [name] := by
  rw [toRelative, String.intercalate_singleton]

-- What is below a path below is below the path.
theorem below_below {l : Location} (hk : k.IsPlain) (hl : l.IsPlain) (hk' : k ≠ []) (hl' : l ≠ []) :
    p / k.toRelative / l.toRelative = p / toRelative (k ++ l) := by
  rw [below_eq_ofPieces hl hl', below_eq_ofPieces (hk.append hl) (by simp [hk']),
    base_below hk hk', isAbsolute_below (hk.isAbsolute_toRelative hk'), List.append_assoc]

theorem dropIdleEnd_append (hn : isIdle name = false) (hq : ∀ n ∈ qs, isIdle n) :
    dropIdleEnd (ps ++ name :: qs) = ps ++ [name] := by
  rw [dropIdleEnd, List.reverse_append, List.reverse_cons, List.append_assoc,
    List.dropWhile_append_of_pos (by simpa using hq), List.singleton_append,
    List.dropWhile_cons_of_neg (by simp [hn])]
  simp

theorem stem_of_pieces (h : p.pieces = ps ++ name :: qs) (hn : isIdle name = false)
    (hq : ∀ n ∈ qs, isIdle n) : p.stem = ps ++ [name] := by
  unfold stem
  split
  case h_1 rest _ hp =>
    rw [hp] at h
    rcases List.cons_eq_append_iff.mp h with ⟨-, h⟩ | ⟨ps, rfl, rfl⟩
    case inl =>
      obtain ⟨rfl, -⟩ := List.cons.inj h
      exact absurd hn (by decide)
    case inr => rw [dropIdleEnd_append hn hq, List.cons_append]
  case h_2 => rw [h, dropIdleEnd_append hn hq]

section

variable (hk : IsPlain (dir ++ [name]))

include hk

theorem stem_below : (p / toRelative (dir ++ [name])).stem = p.base ++ (dir ++ [name]) := by
  have hp := pieces_toRelative_below (p := p) hk (by simp)
  rw [stem_of_pieces (hp.trans (List.append_assoc _ _ _).symm) (hk name (by simp)).1 (by simp),
    List.append_assoc]

-- What is taken off is the last name.
theorem parent?_below (hd : dir ≠ []) :
    (p / toRelative (dir ++ [name])).parent? = some (p / dir.toRelative) := by
  have hp := hk.of_append.1
  have hq : ofPieces p.isAbsolute (p.base ++ dir) = p / dir.toRelative :=
    (below_eq_ofPieces hp hd).symm
  have ht : (p / dir.toRelative).trimmed = p / dir.toRelative := by
    obtain ⟨d, n, rfl⟩ := (List.eq_nil_or_concat' dir).resolve_left hd
    rw [trimmed, stem_below hp, isAbsolute_below (hp.isAbsolute_toRelative hd), hq]
  rw [parent?, stem_below hk, isAbsolute_below (hk.isAbsolute_toRelative (by simp)),
    ← List.append_assoc, List.dropLast_concat, hq, ht]
  simp

theorem fileName?_below (hn : name ≠ "..") :
    (p / toRelative (dir ++ [name])).fileName? = some name := by
  have hi := (hk name (by simp)).1
  rw [fileName?, components, pieces_toRelative_below hk (by simp), filterMap_componentOf?]
  simp [List.getLast?_append, Component.ofStep, hn, hi]

end

-- Going up from below a path comes by all that is on the way.
theorem exists_ancestors_below (hk : IsPlain (name :: k)) : ∃ rest,
    (p / toRelative (name :: k)).ancestors =
      (k.inits.reverse.map fun m => p / toRelative (name :: m)) ++ rest := by
  suffices ∀ n, k.length < n → ∃ rest, ancestors.go n (p / toRelative (name :: k)) =
      (k.inits.reverse.map fun m => p / toRelative (name :: m)) ++ rest by
    apply this
    have ht : (toRelative (name :: k)).text.length ≤ (p / toRelative (name :: k)).text.length := by
      rw [text_below (hk.isAbsolute_toRelative (List.cons_ne_nil name k)), String.length_append]
      exact Nat.le_add_left _ _
    have hl := hk.length_le_length_toRelative
    rw [List.length_cons] at hl
    omega
  induction k using List.reverseRecOn
  case nil =>
    intro n hn
    obtain ⟨n, rfl⟩ := Nat.exists_eq_add_of_lt hn
    exact ⟨_, rfl⟩
  case append_singleton k last hi =>
    intro n hn
    obtain ⟨n, rfl⟩ := Nat.exists_eq_add_of_lt hn
    rw [← List.cons_append] at hk
    obtain ⟨rest, hr⟩ := hi hk.of_append.1 (k.length + 1 + n) (by omega)
    refine ⟨rest, ?_⟩
    have hp := parent?_below (p := p) hk (List.cons_ne_nil name k)
    rw [List.cons_append] at hp
    simp [ancestors.go, hp, hr, List.inits_append]

theorem stem_of_pieces_eq_nil (h : p.pieces = [""]) : p.stem = [] := by
  unfold stem
  split
  case h_1 hp => simp [hp] at h
  case h_2 => rw [h]; rfl

theorem dropIdleEnd_concat_empty : dropIdleEnd (ps ++ [""]) = dropIdleEnd ps := by
  rw [dropIdleEnd, List.reverse_concat, List.dropWhile_cons_of_pos isIdle_empty, dropIdleEnd]

theorem stem_ofPieces_base : (ofPieces p.isAbsolute p.base).stem = p.stem := by
  rcases pieces_eq_base (p := p) with hp | hp
  case inl => rw [← hp, ofPieces_pieces]
  case inr =>
    have ha := isAbsolute_ofPieces_of_append hp
    have hq := pieces_ofPieces_of_append hp
    by_cases hb : p.base = []
    case pos =>
      rw [if_pos hb] at hq
      rw [hb, List.nil_append] at hp
      rw [stem_of_pieces_eq_nil hq, stem_of_pieces_eq_nil hp]
    case neg =>
      rw [if_neg hb] at hq
      unfold stem
      rw [ha, hp, hq]
      obtain ⟨n, ns, hb⟩ := List.exists_cons_of_ne_nil hb
      rw [hb, List.cons_append]
      by_cases hn : p.isAbsolute = false ∧ n = "."
      case pos => simp [hn, dropIdleEnd_concat_empty]
      case neg =>
        have hd : dropIdleEnd (n :: ns ++ [""]) = dropIdleEnd (n :: ns) := dropIdleEnd_concat_empty
        rw [List.cons_append] at hd
        split <;> simp_all

-- The parent of what is right below a path is the path itself, without idle steps at its end.
theorem parent?_below_name (hn : IsStep name) :
    (p / toRelative [name]).parent? = some p.trimmed := by
  have hk : IsPlain ([] ++ [name]) := IsPlain.nil.concat hn
  have ha : (ofPieces p.isAbsolute p.base).isAbsolute = p.isAbsolute := by
    rcases pieces_eq_base (p := p) with h | h
    · exact isAbsolute_ofPieces_of_append (h.trans (List.append_nil _).symm)
    · exact isAbsolute_ofPieces_of_append h
  have hst := stem_below (p := p) hk
  have hr := hk.isAbsolute_toRelative (by simp)
  rw [List.nil_append] at hst hr
  rw [parent?, hst, isAbsolute_below hr, List.dropLast_concat, trimmed, trimmed,
    stem_ofPieces_base, ha]
  simp

theorem dropSteps_of_isIdle {n : Nat} (h : isIdle name) :
    dropSteps n (name :: ps) = dropSteps n ps := by
  cases n <;> simp [dropSteps, h]

theorem dropSteps_append (hk : IsPlain k) :
    dropSteps (ps.filter (! isIdle ·)).length (ps ++ k) = k := by
  induction ps
  case nil => exact hk.dropWhile_isIdle
  case cons step ps hi =>
    cases hs : isIdle step
    case false => simpa [hs, dropSteps] using hi
    case true =>
      rw [List.cons_append, dropSteps_of_isIdle hs]
      simpa [hs] using hi

theorem components_eq_base : p.components = (if p.isAbsolute then [.root]
    else if p.base.head? = some "." then [.current] else []) ++ p.base.filterMap componentOf? := by
  have hf : p.pieces.filterMap componentOf? = p.base.filterMap componentOf? := by
    rw [filterMap_componentOf?, filterMap_componentOf?]
    rcases pieces_eq_base (p := p) with h | h <;> simp [h]
  have hh : p.pieces.head? = some "." ↔ p.base.head? = some "." := by
    rcases pieces_eq_base (p := p) with h | h <;> cases hb : p.base <;> simp [h, hb]
  rw [components, hf]
  simp only [hh]

theorem text_ofPieces_concat {a : Bool} : (ofPieces a (ps ++ [name])).text =
    (ofPieces a ps).text ++ (if ps = [] then "" else "/") ++ name := by
  unfold ofPieces
  by_cases h : ps = []
  case pos => simp [h]
  case neg => simp [h, String.intercalate_append_of_ne_nil h, String.append_assoc]

-- Only an absolute path begins with a slash.
theorem head?_base_ne_empty (h : p.isAbsolute = false) : p.base.head? ≠ some "" := by
  intro hb
  obtain ⟨ps, hp⟩ := List.head?_eq_some_iff.mp hb
  have hs : p.pieces.head? = some "" := by
    rcases pieces_eq_base (p := p) with he | he <;> simp [he, hp]
  have hq := isSpelling_pieces.relative h hs
  have ht : p.text = "" := by
    rw [← ofPieces_pieces (p := p), h, hq]
    rfl
  simp [base, isOpen, ht, hq] at hp

theorem components_isEmpty (h : p.components.isEmpty) : p.isAbsolute = false ∧ p.base = [] := by
  rw [components_eq_base, List.isEmpty_iff, List.append_eq_nil_iff] at h
  obtain ⟨hf, hm⟩ := h
  have ha : p.isAbsolute = false := by
    cases ha : p.isAbsolute
    case false => rfl
    case true => simp [ha] at hf
  refine ⟨ha, ?_⟩
  cases hb : p.base
  case nil => rfl
  case cons step ps =>
    have hi : isIdle step := by
      by_contra hi
      rw [filterMap_componentOf?, hb] at hm
      simp [hi] at hm
    have hd : step ≠ "." := by
      rintro rfl
      simp [ha, hb] at hf
    have he : step ≠ "" := by
      rintro rfl
      exact head?_base_ne_empty ha (by simp [hb])
    simp [isIdle, hd, he] at hi

theorem eq_of_isEmpty_components (h : p.components.isEmpty) : p = ⟨""⟩ := by
  obtain ⟨ha, hb⟩ := components_isEmpty h
  have hp := ofPieces_pieces (p := p)
  rcases pieces_eq_base (p := p) with he | he <;> rw [hb] at he
  case inl => exact absurd he pieces_ne_nil
  case inr =>
    rw [ha, he] at hp
    exact hp.symm

theorem isEmpty_components_of_mem (hm : name ∈ p.pieces) (hn : isIdle name = false) :
    p.components.isEmpty = false := by
  apply Bool.eq_false_iff.mpr
  intro hc
  have hp : (⟨""⟩ : Path).pieces = [""] := by decide
  rw [eq_of_isEmpty_components hc, hp, List.mem_singleton] at hm
  exact absurd hn (hm ▸ by decide)

theorem head?_base_append (hd : ps.head? ≠ some ".") :
    (p.base ++ ps).head? = some "." ↔ p.base.head? = some "." := by
  cases p.base <;> simp [hd]

-- The components of a path below come behind those of the path, unless it begins with a dot.
theorem components_div (hq : q.isAbsolute = false) (hd : q.pieces.head? ≠ some ".") :
    (p / q).components = p.components ++ q.components := by
  have hc : q.components = q.pieces.filterMap componentOf? := by simp [components, hq, hd]
  rw [hc, components, pieces_below hq, isAbsolute_below hq, components_eq_base]
  simp only [head?_base_append hd, List.filterMap_append, List.append_assoc]

theorem head?_ne_of_isPlain (hk : IsPlain k) : k.head? ≠ some "." := by
  intro hh
  exact absurd (hk "." (List.mem_of_mem_head? hh)).1 (by decide)

theorem components_below (hk : IsPlain k) (hne : k ≠ []) :
    (p / k.toRelative).components = p.components ++ k.filterMap componentOf? := by
  have ha := hk.isAbsolute_toRelative hne
  have hp := hk.pieces_toRelative hne
  have hd := head?_ne_of_isPlain hk
  rw [components_div ha (by rwa [hp])]
  simp [components, ha, hp, hd]

-- The way below a path is what is left behind it.
theorem stripPrefix?_below (hk : IsPlain k) (hne : k ≠ []) :
    (p / k.toRelative).stripPrefix? p = some k.toRelative := by
  have hp := pieces_toRelative_below (p := p) hk hne
  have ha := isAbsolute_below (p := p) (hk.isAbsolute_toRelative hne)
  have hh := head?_base_append (p := p) (head?_ne_of_isPlain hk)
  have hx : p.components.isPrefixOf (p / k.toRelative).components := by
    rw [components_below hk hne, List.isPrefixOf_iff_prefix]
    exact List.prefix_append _ _
  rw [stripPrefix?]
  simp only [hx, Bool.not_true, Bool.false_eq_true, if_false]
  split
  case isTrue he =>
    obtain ⟨hr, hb⟩ := components_isEmpty he
    obtain ⟨d, n, rfl⟩ := (List.eq_nil_or_concat' k).resolve_left hne
    rw [trimmed, stem_below hk, ha, hr, hb, List.nil_append]
    rfl
  case isFalse he =>
    have hs : (p.base.filterMap componentOf?).length = (p.base.filter (! isIdle ·)).length := by
      rw [filterMap_componentOf?, List.length_map]
    have hd : dropSteps (p.base.filter (! isIdle ·)).length (p.base ++ k) = k :=
      dropSteps_append hk
    have hr : ofPieces false (dropIdleEnd k) = k.toRelative := by
      rw [hk.dropIdleEnd_eq]
      rfl
    rw [hp, ha]
    cases hb : p.isAbsolute
    case true => simp [components_eq_base, hb, hs, hd, hr]
    case false =>
      by_cases hc : p.base.head? = some "."
      case pos =>
        obtain ⟨ps, hps⟩ := List.head?_eq_some_iff.mp hc
        have hd : dropSteps (ps.filter (! isIdle ·)).length (ps ++ k) = k := dropSteps_append hk
        have hl : (ps.filterMap componentOf?).length = (ps.filter (! isIdle ·)).length := by
          rw [filterMap_componentOf?, List.length_map]
        have hi : componentOf? "." = none := by decide
        simp [components_eq_base, hb, hps, hi, hl, hd, hr]
      case neg =>
        split
        case h_1 h => simp at h
        case h_2 h => exact absurd (hh.mp (by simp [h])) hc
        case h_3 => simp [components_eq_base, hb, hc, hs, hd, hr]

end Path

end StaticSite
