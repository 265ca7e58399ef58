import StaticSite.Proofs.Path.Parent
/-!
Where a path leads in the end, however it is written: its last name may have slashes and dots behind
it. Main statements: the components of a path are those of its parent and that name
(`LeadsTo.exists_parent?`), and another extension takes the place of the old one and of all that is
behind it, unless the name becomes one that leads up (`LeadsTo.withExtension_eq`).
-/
namespace StaticSite.Path

-- What leads somewhere last in the path is `name`, behind the pieces `ps` and before idle ones.
structure LeadsTo (p : Path) (ps : List String) (name : String) (idle : List String) : Prop where
  pieces : p.pieces = ps ++ name :: idle
  leads : isIdle name = false
  idle : ∀ n ∈ idle, isIdle n

variable {p q : Path} {ps idle rest : List String} {name n stem old ext : String} {absolute : Bool}

theorem isIdle_iff : isIdle n ↔ n = "" ∨ n = "." := by
  simp [isIdle]

theorem components_trimmed : p.trimmed.components = p.components := by
  obtain ⟨ha, hp⟩ := trimmed_eq (p := p)
  obtain ⟨rest, hr, hi⟩ := exists_stem_append (p := p)
  rw [components, components, ha, hp, hr, List.filterMap_append,
    filterMap_componentOf?_of_isIdle hi, List.append_nil]
  by_cases hs : p.stem = []
  case neg => simp [hs]
  case pos =>
    -- a dot that a relative path begins with would be in the stem
    have hd : p.isAbsolute = false → rest.head? ≠ some "." := by
      intro hb hh
      obtain ⟨qs, rfl⟩ := List.head?_eq_some_iff.mp hh
      rw [hs, List.nil_append] at hr
      simp [stem, hb, hr] at hs
    cases hb : p.isAbsolute
    case true => simp [hs, componentOf?]
    case false => simp [hs, hd hb, componentOf?]

theorem splitExtension_append (hs : stem ≠ "") (he : '.' ∉ ext.toList) :
    splitExtension (stem ++ "." ++ ext) = (stem, some ext) := by
  have hr : (stem ++ "." ++ ext).toList.reverse =
      ext.toList.reverse ++ '.' :: stem.toList.reverse := by simp
  have hp : ∀ c ∈ ext.toList.reverse, decide (c ≠ '.') = true := by
    intro c hc
    rw [List.mem_reverse] at hc
    simpa using ne_of_mem_of_not_mem hc he
  obtain ⟨c, cs, hc⟩ : ∃ c cs, stem.toList.reverse = c :: cs :=
    List.exists_cons_of_ne_nil (by simpa using hs)
  have hb : String.ofList (c :: cs).reverse = stem := by rw [← hc]; simp
  simp only [splitExtension, hr, List.takeWhile_append_of_pos hp, List.dropWhile_append_of_pos hp]
  rw [hc]
  simpa using hb

theorem splitExtension_eq_some (h : splitExtension name = (stem, some ext)) :
    name = stem ++ "." ++ ext ∧ stem ≠ "" := by
  have ha := List.takeWhile_append_dropWhile (p := (· ≠ '.')) (l := name.toList.reverse)
  unfold splitExtension at h
  simp only at h
  split at h
  case h_1 d c cs hd =>
    rw [Prod.mk.injEq, Option.some.injEq] at h
    obtain ⟨rfl, rfl⟩ := h
    obtain rfl : d = '.' := by
      have := List.head?_dropWhile_not (· ≠ '.') name.toList.reverse
      rw [hd] at this
      simpa using this
    rw [hd] at ha
    have hn := congrArg List.reverse ha
    rw [List.reverse_reverse] at hn
    refine ⟨String.toList_inj.mp (hn.symm.trans ?_), by simp⟩
    simp
  case h_2 => simp at h

theorem isIdle_dotted (hs : stem ≠ "") : isIdle (stem ++ "." ++ ext) = false := by
  have hl := List.length_pos_iff.mpr (mt String.toList_eq_nil_iff.mp hs)
  apply isIdle_of_one_lt_length
  simp only [String.toList_append, List.length_append]
  have : ".".toList.length = 1 := rfl
  omega

theorem dotted_eq_parent_iff (hs : stem ≠ "") :
    stem ++ "." ++ ext = ".." ↔ stem = "." ∧ ext = "" := by
  constructor
  · intro h
    obtain ⟨c, cs, hc⟩ := List.exists_cons_of_ne_nil (mt String.toList_eq_nil_iff.mp hs)
    have hl : c :: (cs ++ '.' :: ext.toList) = ['.', '.'] := by
      simpa [hc] using congrArg String.toList h
    obtain ⟨rfl, hl⟩ := List.cons.inj hl
    cases cs
    case nil => exact ⟨String.toList_inj.mp hc, by simpa using hl⟩
    case cons => simp at hl
  · rintro ⟨rfl, rfl⟩
    rfl

-- What is written of pieces that come behind others.
def tail (ps : List String) : List Char :=
  ps.flatMap fun n => '/' :: n.toList

@[simp]
theorem tail_nil : tail [] = [] :=
  rfl

@[simp]
theorem tail_cons : tail (n :: ps) = '/' :: (n.toList ++ tail ps) :=
  rfl

theorem tail_eq_nil_iff : tail ps = [] ↔ ps = [] := by
  cases ps <;> simp

theorem toList_text_ofPieces_append : (ofPieces absolute (ps ++ name :: rest)).text.toList =
    (ofPieces absolute (ps ++ [name])).text.toList ++ tail rest := by
  induction rest generalizing ps name
  case nil => simp
  case cons n rest hi =>
    rw [List.append_cons, hi, text_ofPieces_concat]
    simp

-- However much is cut off at the end, idle pieces are left.
theorem exists_tail_eq_take (h : ∀ n ∈ idle, isIdle n) (k : Nat) :
    ∃ rest, (∀ n ∈ rest, isIdle n) ∧ tail rest = (tail idle).take k := by
  induction idle generalizing k
  case nil => exact ⟨[], by simp, by simp⟩
  case cons n idle hi =>
    have hi := hi fun m hm => h m (List.mem_cons_of_mem n hm)
    rcases k with _ | k
    case zero => exact ⟨[], by simp, rfl⟩
    case succ =>
      rcases isIdle_iff.mp (h n List.mem_cons_self) with rfl | rfl
      case inl =>
        obtain ⟨rest, hr, he⟩ := hi k
        exact ⟨"" :: rest, by simpa using hr, by simp [he]⟩
      case inr =>
        rcases k with _ | k
        case zero => exact ⟨[""], by simp, rfl⟩
        case succ =>
          obtain ⟨rest, hr, he⟩ := hi k
          exact ⟨"." :: rest, by simpa [isIdle] using hr, by simp [he]⟩

namespace LeadsTo

section

variable (h : p.LeadsTo ps name idle)

include h

theorem stem_eq : p.stem = ps ++ [name] :=
  stem_of_pieces h.pieces h.leads h.idle

theorem components_eq :
    p.components = (ofPieces p.isAbsolute ps).components ++ [Component.ofStep name] := by
  have hn : name ≠ "." := by
    rintro rfl
    exact absurd h.leads (by decide)
  rw [components, components, isAbsolute_ofPieces_of_append h.pieces,
    pieces_ofPieces_of_append h.pieces, h.pieces, List.filterMap_append,
    List.filterMap_cons_some (componentOf?_of_not_isIdle h.leads),
    filterMap_componentOf?_of_isIdle h.idle]
  cases ps <;> simp [hn, componentOf?]

theorem exists_parent? :
    ∃ dir, p.parent? = some dir ∧ p.components = dir.components ++ [Component.ofStep name] := by
  refine ⟨(ofPieces p.isAbsolute ps).trimmed, ?_, ?_⟩
  · simp [parent?, h.stem_eq]
  · rw [components_trimmed, h.components_eq]

theorem fileName?_eq : p.fileName? = if name = ".." then none else some name := by
  rw [fileName?, h.components_eq, List.getLast?_concat, Component.ofStep]
  by_cases hn : name = ".." <;> simp [hn]

theorem setExtension_eq (hn : name ≠ "..") :
    p.setExtension ext = ofPieces p.isAbsolute (ps ++ [(splitExtension name).1 ++ "." ++ ext]) := by
  rw [setExtension, h.fileName?_eq, if_neg hn, h.stem_eq, List.dropLast_concat]

-- Another name may be written in its place, with other idle pieces behind it.
theorem replace (hn : isIdle n = false) (hs : '/' ∉ n.toList) (hr : ∀ m ∈ rest, isIdle m) :
    (ofPieces p.isAbsolute (ps ++ n :: rest)).LeadsTo ps n rest ∧
      (ofPieces p.isAbsolute (ps ++ n :: rest)).isAbsolute = p.isAbsolute := by
  have hp : IsSpelling p.isAbsolute (ps ++ name :: idle) := h.pieces ▸ isSpelling_pieces
  have hq : IsSpelling p.isAbsolute (ps ++ n :: rest) := by
    constructor
    case ne_nil => simp
    case unslashed =>
      intro m hm
      rcases List.mem_append.mp hm with hm | hm
      case inl => exact hp.unslashed m (List.mem_append_left _ hm)
      rcases List.mem_cons.mp hm with rfl | hm
      case inl => exact hs
      rcases isIdle_iff.mp (hr m hm) with rfl | rfl <;> decide
    case relative =>
      intro ha hh
      cases ps
      case nil =>
        obtain rfl : n = "" := by simpa using hh
        exact absurd hn (by decide)
      case cons m ps =>
        obtain rfl : m = "" := by simpa using hh
        simpa using hp.relative ha rfl
  exact ⟨⟨hq.pieces_ofPieces, hn, hr⟩, hq.isAbsolute_ofPieces⟩

theorem components_ofPieces (hn : IsStep n) : (ofPieces p.isAbsolute (ps ++ [n])).components =
    (ofPieces p.isAbsolute ps).components ++ [Component.ofStep n] := by
  obtain ⟨hl, ha⟩ := h.replace hn.1 hn.2 (List.forall_mem_nil _)
  rw [hl.components_eq, ha]

end

-- As many characters as the old extension has are cut off at the end of the text first. Those are
-- the extension if nothing is behind it, and some of it is left if something is.
theorem exists_cut (h : p.LeadsTo ps (stem ++ "." ++ old) idle) : ∃ left rest,
    left.toList = old.toList.take (tail idle).length ∧ (∀ n ∈ rest, isIdle n) ∧
      (idle = [] → rest = []) ∧
      (⟨.ofList (p.text.toList.take (p.text.length - old.length))⟩ : Path) =
        ofPieces p.isAbsolute (ps ++ (stem ++ "." ++ left) :: rest) := by
  obtain ⟨rest, hr, ht⟩ := exists_tail_eq_take h.idle ((tail idle).length - old.toList.length)
  refine ⟨.ofList (old.toList.take (tail idle).length), rest, String.toList_ofList, hr, ?_, ?_⟩
  · rintro rfl
    rwa [tail_nil, List.take_nil, tail_eq_nil_iff] at ht
  have hp (e : String) (rest : List String) :
      (ofPieces p.isAbsolute (ps ++ (stem ++ "." ++ e) :: rest)).text.toList =
        (ofPieces p.isAbsolute (ps ++ [stem ++ "."])).text.toList ++ (e.toList ++ tail rest) := by
    rw [toList_text_ofPieces_append, text_ofPieces_concat, text_ofPieces_concat]
    simp
  have hl : p.text.toList = (ofPieces p.isAbsolute (ps ++ [stem ++ "."])).text.toList ++
      (old.toList ++ tail idle) := by
    rw [← hp, ← h.pieces, ofPieces_pieces]
  rw [← text_inj, ← String.toList_inj, String.toList_ofList, hp, ht, String.toList_ofList,
    ← List.take_append, ← List.take_length_add_append, ← hl, ← String.length_toList,
    ← String.length_toList, hl]
  congr 1
  simp only [List.length_append]
  omega

theorem withExtension_eq (h : p.LeadsTo ps (stem ++ "." ++ old) idle) (hs : stem ≠ "")
    (ho : '.' ∉ old.toList) (hne : old ≠ "") : p.withExtension ext = ofPieces p.isAbsolute
      (ps ++ [if idle = [] ∧ stem = "." then ".." else stem ++ "." ++ ext]) := by
  have hx : p.extension? = some old := by
    rw [extension?, h.fileName?_eq, if_neg (by simp [dotted_eq_parent_iff hs, hne]),
      Option.bind_some, splitExtension_append hs ho]
  obtain ⟨left, rest, hleft, hr, hrest, hcut⟩ := h.exists_cut
  have hslash : '/' ∉ (stem ++ "." ++ left).toList := by
    have hn := slash_not_mem_of_mem_pieces (p := p) (h.pieces ▸ List.mem_append_right ps
      List.mem_cons_self)
    simp only [String.toList_append, List.mem_append, not_or] at hn ⊢
    exact ⟨hn.1, fun hm => hn.2 (List.mem_of_mem_take (hleft ▸ hm))⟩
  obtain ⟨hq, ha⟩ := h.replace (isIdle_dotted hs) hslash hr
  have hd : left = "" ↔ idle = [] := by
    rw [← String.toList_eq_nil_iff, hleft, List.take_eq_nil_iff, List.length_eq_zero_iff,
      tail_eq_nil_iff, String.toList_eq_nil_iff, or_iff_left hne]
  rw [withExtension, hx]
  dsimp only
  rw [hcut]
  by_cases hu : stem = "." ∧ left = ""
  case pos =>
    have hi := hd.mp hu.2
    have hn := (dotted_eq_parent_iff hs).mpr hu
    rw [setExtension, hq.fileName?_eq, if_pos hn, if_pos ⟨hi, hu.1⟩, hrest hi, hn]
  case neg =>
    have hn : stem ++ "." ++ left ≠ ".." := mt (dotted_eq_parent_iff hs).mp hu
    have hdot : '.' ∉ left.toList := fun hm => ho (List.mem_of_mem_take (hleft ▸ hm))
    rw [hq.setExtension_eq hn, ha, splitExtension_append hs hdot, if_neg]
    rw [← hd, and_comm]
    exact hu

-- So it does where it is put below another path.
theorem below (h : p.LeadsTo ps name idle) (ha : p.isAbsolute = false) :
    (q / p).LeadsTo (q.base ++ ps) name idle where
  pieces := by rw [pieces_below ha, h.pieces, List.append_assoc]
  leads := h.leads
  idle := h.idle

theorem isStep (h : p.LeadsTo ps name idle) : IsStep name :=
  ⟨h.leads, slash_not_mem_of_mem_pieces (by rw [h.pieces]; simp)⟩

theorem getLast?_pieces_eq_iff (h : p.LeadsTo ps name idle) (hn : isIdle n = false) :
    p.pieces.getLast? = some n ↔ name = n ∧ idle = [] := by
  rcases List.eq_nil_or_concat' idle with rfl | ⟨rest, last, rfl⟩
  case inl => simp [h.pieces]
  case inr =>
    have hl := h.idle last (by simp)
    rw [h.pieces, ← List.cons_append, ← List.append_assoc, List.getLast?_concat]
    refine iff_of_false ?_ (by simp)
    rintro ⟨⟩
    simp [hn] at hl

end LeadsTo

theorem leadsTo_toRelative {dir : Location} (h : Location.IsPlain (dir ++ [name])) :
    (Location.toRelative (dir ++ [name])).LeadsTo dir name [] where
  pieces := h.pieces_toRelative (by simp)
  leads := (h name (by simp)).1
  idle := by simp

-- A path of names alone, of one at least: it is relative and does not lead up.
def IsNormal (p : Path) : Prop :=
  ∃ names name, p.components = (names ++ [name]).map .normal

section

variable {names : List String} (h : p.components = (names ++ [name]).map .normal)

include h

theorem head?_pieces_ne : p.pieces.head? ≠ some "." := by
  intro hd
  have ha := (steps_of_components h).1
  cases names <;> simp [components, ha, hd] at h

theorem ne_parent_of_components : name ≠ ".." := by
  rintro rfl
  exact (steps_of_components h).2.2 (by simp)

theorem exists_leadsTo : ∃ ps idle, p.LeadsTo ps name idle := by
  have hs := (steps_of_components h).2.1
  obtain ⟨idle, hp, hi⟩ := exists_dropIdleEnd_append p.pieces
  have hf : idle.filter (! isIdle ·) = [] := List.filter_eq_nil_iff.mpr (by simpa using hi)
  rw [steps, hp, List.filter_append, hf, List.append_nil] at hs
  rcases dropIdleEnd_cases p.pieces with hd | ⟨ps, last, hd, hn⟩ <;> rw [hd] at hp hs
  case inl => simp at hs
  case inr =>
    rw [List.filter_append, List.filter_singleton, hn] at hs
    obtain rfl : last = name := by simpa using congrArg List.getLast? hs
    exact ⟨ps, idle, by simpa using hp, hn, hi⟩

theorem exists_parent? : ∃ dir, p.parent? = some dir ∧ dir.components = names.map .normal := by
  obtain ⟨ps, idle, hl⟩ := exists_leadsTo h
  obtain ⟨dir, hp, hc⟩ := hl.exists_parent?
  refine ⟨dir, hp, ?_⟩
  rw [h, List.map_append, List.map_singleton] at hc
  exact (List.append_inj' hc rfl).1.symm

theorem fileName?_of_components : p.fileName? = some name := by
  rw [fileName?, h, List.map_append, List.map_singleton, List.getLast?_concat]

theorem eq_of_getLast?_pieces (hl : p.pieces.getLast? = some n) (hn : isIdle n = false) :
    name = n := by
  obtain ⟨ps, idle, ht⟩ := exists_leadsTo h
  exact ((ht.getLast?_pieces_eq_iff hn).mp hl).1

end

end StaticSite.Path
