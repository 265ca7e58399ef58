import StaticSite.Proofs.Yaml.Scalars
/-!
Scalars as they are printed. Main statement: the text of a scalar is read as its own content, with
quotes or without (`isScalar_text`).
-/
namespace StaticSite.Yaml.Printer

variable {x : Char} {cs ds : List Char} {n : Nat} {s : String} {v : Value} {level : Nat}

-- The characters that numbers are written with.
def isNumeralChar (x : Char) : Bool :=
  x.isDigit || ['.', 'e', '-'].contains x

theorem isNumeralChar_of_isDigit (h : x.isDigit) : isNumeralChar x := by
  simp [isNumeralChar, h]

-- A text of these that begins with a digit.
inductive IsNumeral : List Char → Prop where
  | intro (x : Char) (cs : List Char) (digit : x.isDigit) (more : ∀ y ∈ cs, isNumeralChar y) :
    IsNumeral (x :: cs)

namespace IsNumeral

theorem append (h : IsNumeral cs) (hd : ∀ y ∈ ds, isNumeralChar y) : IsNumeral (cs ++ ds) := by
  obtain ⟨x, cs, hx, hm⟩ := h
  exact ⟨x, cs ++ ds, hx, List.forall_mem_append.mpr ⟨hm, hd⟩⟩

theorem of_digits (hn : cs ≠ []) (h : ∀ y ∈ cs, y.isDigit) : IsNumeral cs := by
  obtain ⟨x, cs, rfl⟩ := List.exists_cons_of_ne_nil hn
  rw [List.forall_mem_cons] at h
  exact ⟨x, cs, h.1, fun y hy => isNumeralChar_of_isDigit (h.2 y hy)⟩

theorem mem (h : IsNumeral cs) : ∀ y ∈ cs, isNumeralChar y := by
  obtain ⟨x, cs, hx, hm⟩ := h
  exact List.forall_mem_cons.mpr ⟨isNumeralChar_of_isDigit hx, hm⟩

end IsNumeral

theorem isDigit_of_mem_toString (h : x ∈ (toString n).toList) : x.isDigit := by
  rw [show toString n = n.repr from rfl, Nat.repr_eq_ofList_toDigits, String.toList_ofList] at h
  exact Nat.isDigit_of_mem_toDigits (by omega) (by omega) h

theorem toList_toString_ne_nil (n : Nat) : (toString n).toList ≠ [] := by
  rw [show toString n = n.repr from rfl, Nat.repr_eq_ofList_toDigits, String.toList_ofList]
  exact Nat.toDigits_ne_nil

theorem isNumeral_toString (n : Nat) : IsNumeral (toString n).toList :=
  .of_digits (toList_toString_ne_nil n) fun _ => isDigit_of_mem_toString

theorem isDigit_of_mem_zeros (h : x ∈ (Decimal.zeros n).toList) : x.isDigit := by
  rw [Decimal.zeros, String.toList_ofList, List.mem_replicate] at h
  rw [h.2]
  rfl

theorem isNumeral_plain (s : Decimal.Scientific) : IsNumeral s.plain.toList := by
  have hzeros (n : Nat) : ∀ y ∈ (Decimal.zeros n).toList, isNumeralChar y :=
    fun y hy => isNumeralChar_of_isDigit (isDigit_of_mem_zeros hy)
  have hdigits : ∀ y ∈ (toString s.digits).toList, isNumeralChar y :=
    (isNumeral_toString s.digits).mem
  unfold Decimal.Scientific.plain
  dsimp only
  split
  · split
    · exact ⟨'0', [], rfl, nofun⟩
    · rw [String.toList_append]
      exact (isNumeral_toString _).append (hzeros _)
  · split
    case isTrue h =>
      simp only [String.toList_append, String.toList_ofList]
      refine (IsNumeral.of_digits ?_ fun y hy => ?_).append ?_ |>.append ?_
      · intro hn
        rcases List.take_eq_nil_iff.mp hn with h0 | h0
        · omega
        · exact toList_toString_ne_nil _ h0
      · exact isDigit_of_mem_toString (List.mem_of_mem_take hy)
      · simp [isNumeralChar]
      · exact fun y hy => hdigits y (List.mem_of_mem_drop hy)
    case isFalse =>
      simp only [String.toList_append]
      refine IsNumeral.append (IsNumeral.append ⟨'0', ['.'], rfl, forall_mem_of_all (by decide)⟩
        (hzeros _)) hdigits

theorem isNumeral_int (n : Int) :
    IsNumeral (toString n).toList ∨ ∃ cs, IsNumeral cs ∧ (toString n).toList = '-' :: cs := by
  cases n with
  | ofNat n => exact .inl (isNumeral_toString n)
  | negSucc n =>
    have he : toString (Int.negSucc n) = "-" ++ toString (n + 1) := rfl
    exact .inr ⟨_, isNumeral_toString (n + 1), by rw [he, String.toList_append]; rfl⟩

theorem isNumeralChar_of_mem_int {n : Int} (h : x ∈ (toString n).toList) : isNumeralChar x := by
  rcases isNumeral_int n with hn | ⟨cs, hn, he⟩
  · exact hn.mem x h
  · rw [he] at h
    rcases List.mem_cons.mp h with rfl | h
    · rfl
    · exact hn.mem x h

theorem isNumeral_mixed (s : Decimal.Scientific) : IsNumeral s.mixed.toList := by
  unfold Decimal.Scientific.mixed
  dsimp only
  split
  · exact ⟨'0', ['.', '0'], rfl, forall_mem_of_all (by decide)⟩
  split
  · rw [String.toList_append]
    exact (isNumeral_plain s).append (forall_mem_of_all (by decide))
  split
  · exact isNumeral_plain s
  -- One digit, the others behind a point if there are any, and the exponent.
  have hdigits := isNumeral_toString s.digits
  split
  case h_1 d hd =>
    rw [hd] at hdigits
    simp only [String.toList_append, String.toList_singleton]
    exact hdigits.append (List.forall_mem_append.mpr
      ⟨forall_mem_of_all (by decide), fun _ => isNumeralChar_of_mem_int⟩)
  case h_2 d ds _ hd =>
    rw [hd] at hdigits
    obtain ⟨_, _, hx, hm⟩ := hdigits
    simp only [String.toList_append, String.toList_singleton, String.toList_ofList]
    have hpoint : ∀ y ∈ ['.'], isNumeralChar y := forall_mem_of_all (by decide)
    refine (((IsNumeral.intro d [] hx nofun).append hpoint).append hm).append
      (List.forall_mem_append.mpr
        ⟨forall_mem_of_all (by decide), fun _ => isNumeralChar_of_mem_int⟩)
  case h_3 hn => exact absurd hn (toList_toString_ne_nil _)

theorem isNumeral_float (d : Decimal.Double) :
    d.mixedText = ".nan" ∨ d.mixedText = ".inf" ∨ d.mixedText = "-.inf" ∨
    IsNumeral d.mixedText.toList ∨ ∃ cs, IsNumeral cs ∧ d.mixedText.toList = '-' :: cs := by
  cases d with
  | nan => exact .inl rfl
  | infinite negative =>
    have he : (Decimal.Double.infinite negative).mixedText =
      if negative then "-.inf" else ".inf" := rfl
    cases negative <;> simp [he]
  | finite negative significand shift =>
    have he : (Decimal.Double.finite negative significand shift).mixedText =
      (if negative then "-" else "") ++ (Decimal.shortest .toEven significand shift).mixed := rfl
    have hm := isNumeral_mixed (Decimal.shortest .toEven significand shift)
    rw [he, String.toList_append]
    cases negative with
    | false => exact .inr (.inr (.inr (.inl hm)))
    | true => exact .inr (.inr (.inr (.inr ⟨_, hm, rfl⟩)))

theorem isInner_of_isNumeralChar (h : isNumeralChar x) : Plain.IsInner x := by
  have hno : ∀ y ∈ [' ', '\t', '\n', '\r', ':', '#', '\x00'], ¬isNumeralChar y :=
    forall_mem_of_all (by decide)
  have hne : ∀ y ∈ [' ', '\t', '\n', '\r', ':', '#', '\x00'], x ≠ y := by
    rintro y hy rfl
    exact hno x hy h
  simp at hne
  simp [Plain.IsInner, isGap, isBreak, hne]

theorem not_isDigit_of_mem : ∀ x ∈ indicators ++ ['-', '.'], ¬x.isDigit :=
  forall_mem_of_all (by decide)

theorem isScalar_of_isNumeral (h : IsNumeral cs) : IsScalar cs (.scalar (.ofList cs) true) := by
  refine .plain cs (.word ?_ fun x hx => isInner_of_isNumeralChar (h.mem x hx)) ?_
  · cases h
    exact List.cons_ne_nil _ _
  · obtain ⟨x, cs, hx, -⟩ := h
    refine ⟨fun hm => not_isDigit_of_mem x (List.mem_append_left _ hm) hx, ?_, ?_⟩
    · rintro rfl
      exact absurd hx (by decide)
    · rintro rfl
      exact absurd hx (by decide)

theorem isScalar_minus (h : IsNumeral cs) :
    IsScalar ('-' :: cs) (.scalar (.ofList ('-' :: cs)) true) := by
  refine .plain _ (.word (List.cons_ne_nil _ _) ?_) ?_
  · exact List.forall_mem_cons.mpr ⟨by decide, fun x hx => isInner_of_isNumeralChar (h.mem x hx)⟩
  · obtain ⟨x, cs, hx, -⟩ := h
    have hy : Plain.IsInner x ∧ x ≠ '-' := by
      refine ⟨isInner_of_isNumeralChar (isNumeralChar_of_isDigit hx), ?_⟩
      rintro rfl
      exact absurd hx (by decide)
    exact ⟨by decide, fun _ => decide_eq_true hy, nofun⟩

theorem isInner_of_not_isSpecial (h : ¬isSpecial x) : x = ' ' ∨ Plain.IsInner x := by
  have hall : ∀ y ∈ ['\t', '\n', '\r', ':', '#', '\x00'], isSpecial y :=
    forall_mem_of_all (by decide)
  have hne : ∀ y ∈ ['\t', '\n', '\r', ':', '#', '\x00'], x ≠ y := by
    rintro y hy rfl
    exact h (hall x hy)
  simp at hne
  by_cases hs : x = ' '
  · exact .inl hs
  · exact .inr (by simp [Plain.IsInner, isGap, isBreak, hne, hs])

theorem startsPlain_of (hn : ¬startsIndicator x) (hs : ¬isSpecial x) : StartsPlain (x :: cs) := by
  have hbad : ∀ y ∈ indicators ++ ['-', '.'], startsIndicator y ∨ isSpecial y :=
    forall_mem_of_all (by decide)
  have hx (hm : x ∈ indicators ++ ['-', '.']) : False := (hbad x hm).elim hn hs
  refine ⟨fun hm => hx (List.mem_append_left _ hm), ?_, ?_⟩
  · rintro rfl
    exact (hx (by decide)).elim
  · rintro rfl
    exact (hx (by decide)).elim

theorem isScalar_string (s : String) : IsScalar (string s).toList (.scalar s (!needsQuotes s)) := by
  unfold string
  cases hq : needsQuotes s with
  | true =>
    have := IsScalar.quoted s.toList
    simpa [quote] using this
  | false =>
    simp only [needsQuotes, Bool.or_eq_false_iff] at hq
    obtain ⟨⟨⟨⟨⟨⟨⟨⟨hne, hhead⟩, hlast⟩, hstart⟩, hspecial⟩, -⟩, -⟩, -⟩, -⟩ := hq
    have hspecial : ∀ x ∈ s.toList, ¬isSpecial x := by simpa using hspecial
    have htext : Plain.IsText s.toList :=
      .of_chars (by simpa using hne) (fun x hx => isInner_of_not_isSpecial (hspecial x hx))
        (by simpa using hhead) (by simpa using hlast)
    have hs : StartsPlain s.toList := by
      obtain ⟨x, cs, hx⟩ := List.exists_cons_of_ne_nil htext.ne_nil
      rw [hx] at hstart hspecial ⊢
      exact startsPlain_of (by simpa using hstart) (hspecial x List.mem_cons_self)
    simpa using IsScalar.plain s.toList htext hs

-- The text that a scalar is read as, and whether it stands without quotes.
def content : Value → String
  | .string s => s
  | v => text 0 v

def isPlain : Value → Bool
  | .string s => !needsQuotes s
  | _ => true

theorem isScalar_word {s : String} (hn : s.toList ≠ []) (hi : s.toList.all (Plain.IsInner ·))
    (hs : StartsPlain s.toList) : IsScalar s.toList (.scalar s true) := by
  simpa using IsScalar.plain s.toList (.word hn (forall_mem_of_all hi)) hs

theorem isScalar_number {s : String}
    (h : IsNumeral s.toList ∨ ∃ cs, IsNumeral cs ∧ s.toList = '-' :: cs) :
    IsScalar s.toList (.scalar s true) := by
  rcases h with h | ⟨cs, h, he⟩
  · simpa using isScalar_of_isNumeral h
  · simpa [← he] using isScalar_minus h

theorem isScalar_text (h : ¬isCollection v) (level : Nat) :
    IsScalar (text level v).toList (.scalar (content v) (isPlain v)) := by
  cases v with
  | null => exact isScalar_word (s := "~") (by decide) (by decide) (by decide)
  | bool b =>
    cases b with
    | false => exact isScalar_word (s := "false") (by decide) (by decide) (by decide)
    | true => exact isScalar_word (s := "true") (by decide) (by decide) (by decide)
  | int n => exact isScalar_number (isNumeral_int n)
  | float d =>
    change IsScalar d.mixedText.toList (.scalar d.mixedText true)
    rcases isNumeral_float d with he | he | he | hn
    case inr.inr.inr => exact isScalar_number hn
    all_goals
      rw [he]
      exact isScalar_word (by decide) (by decide) (by decide)
  | string s => exact isScalar_string s
  | sequence | mapping => exact absurd rfl h

end StaticSite.Yaml.Printer
