import Mathlib.Data.List.Infix
import StaticSite.Proofs.FileSystem.Steps
/-!
The order in which entries stand. Main statements: the entries of a directory stand in the order of
their names (`sorted_children`), and are the same where the same stands (`children_congr`); a walk
comes to all that is below a directory in the order of the locations (`walked_eq_flatMap`).
-/
namespace StaticSite.FileSystem

variable {fs a b : FileSystem} {l r r' : Location}

theorem append_lt_append_left_iff : l ++ r < l ++ r' ↔ r < r' := by
  refine ⟨fun h => ?_, fun h => List.append_left_lt h⟩
  apply Decidable.byContradiction
  intro hn
  rcases Std.le_iff_lt_or_eq.mp (Std.not_lt.mp hn) with hl | rfl
  · exact Std.lt_irrefl (Std.lt_trans h (List.append_left_lt hl))
  · exact Std.lt_irrefl h

-- A location stands before what is below it.
theorem lt_append (h : r ≠ []) : l < l ++ r := by
  obtain ⟨n, r, rfl⟩ := List.exists_cons_of_ne_nil h
  have hl : l ++ [] < l ++ n :: r := append_lt_append_left_iff.mpr (List.nil_lt_cons n r)
  rwa [List.append_nil] at hl

theorem sorted_below : Keyed.Sorted (fs.below l) := by
  apply fs.sorted.filterMap _
  rintro ⟨k, e⟩ ⟨k', e'⟩ h x hx y hy
  simp only [Option.ite_none_right_eq_some, List.isPrefixOf_iff_prefix,
    Option.some.injEq] at hx hy
  obtain ⟨⟨⟨r, rfl⟩, -⟩, rfl⟩ := hx
  obtain ⟨⟨⟨r', rfl⟩, -⟩, rfl⟩ := hy
  simpa using append_lt_append_left_iff.mp h

theorem sorted_children : Keyed.Sorted (fs.children l) := by
  apply sorted_below.filterMap _
  rintro ⟨k, e⟩ ⟨k', e'⟩ h x hx y hy
  split at hx <;> split at hy <;> simp only [Option.some.injEq, reduceCtorEq] at hx hy
  subst hx hy
  simp_all [List.cons_lt_cons_iff]

theorem nodup_children : ((fs.children l).map (·.1)).Nodup := by
  refine List.pairwise_map.mpr (sorted_children.imp ?_)
  rintro x y (h : x.1 < y.1) he
  exact Std.lt_irrefl (he ▸ h)

theorem children_congr (h : ∀ name, a.get? (l ++ [name]) = b.get? (l ++ [name])) :
    a.children l = b.children l := by
  refine Keyed.eq_of_lookup sorted_children sorted_children fun name => Option.ext fun e => ?_
  rw [Keyed.lookup_eq_some_iff sorted_children, Keyed.lookup_eq_some_iff sorted_children,
    mem_children, mem_children, h]

-- Sorted entries are told by what is among them.
theorem eq_of_mem_iff {as bs : List (Location × Entry)} (ha : Keyed.Sorted as)
    (hb : Keyed.Sorted bs) (h : ∀ x, x ∈ as ↔ x ∈ bs) : as = bs := by
  refine Keyed.eq_of_lookup ha hb fun k => Option.ext fun e => ?_
  rw [Keyed.lookup_eq_some_iff ha, Keyed.lookup_eq_some_iff hb, h]

-- What a walk comes to below a location that goes on below each directory but for those to skip.
def walked (fs : FileSystem) (skip : Location → Bool) (l : Location) : List (Location × Entry) :=
  ((fs.below l).filter fun x => x.1.inits.all fun m => m == [] || m == x.1 || !skip (l ++ m)).map
    fun x => (l ++ x.1, x.2)

variable {skip : Location → Bool} {k : Location} {name : String} {e : Entry}

theorem mem_walked : (k, e) ∈ fs.walked skip l ↔ ∃ r ≠ [], k = l ++ r ∧ fs.get? k = some e ∧
    ∀ m, m <+: r → m ≠ [] → m ≠ r → skip (l ++ m) = false := by
  simp only [walked, List.mem_map, List.mem_filter, mem_below, Prod.exists, Prod.mk.injEq,
    List.all_eq_true, List.mem_inits, Bool.or_eq_true, beq_iff_eq, Bool.not_eq_true', or_assoc]
  constructor
  · rintro ⟨r, _, ⟨⟨hr, hg⟩, hs⟩, rfl, rfl⟩
    exact ⟨r, hr, rfl, hg, fun m hm h₁ h₂ => ((hs m hm).resolve_left h₁).resolve_left h₂⟩
  · rintro ⟨r, hr, rfl, hg, hs⟩
    refine ⟨r, e, ⟨⟨hr, hg⟩, fun m hm => ?_⟩, rfl, rfl⟩
    by_cases h₁ : m = []
    case pos => exact .inl h₁
    case neg =>
      by_cases h₂ : m = r
      case pos => exact .inr (.inl h₂)
      case neg => exact .inr (.inr (hs m hm h₁ h₂))

theorem sorted_walked : Keyed.Sorted (fs.walked skip l) := by
  refine List.pairwise_map.mpr ((sorted_below.filter _).imp fun h => ?_)
  exact append_lt_append_left_iff.mpr h

theorem mem_walked_cons {r : Location} : (l ++ name :: r, e) ∈ fs.walked skip l ↔
    if r = [] then fs.get? (l ++ [name]) = some e
    else skip (l ++ [name]) = false ∧ (l ++ name :: r, e) ∈ fs.walked skip (l ++ [name]) := by
  simp only [mem_walked]
  split
  case isTrue hr =>
    subst hr
    constructor
    · rintro ⟨r, -, -, hg, -⟩
      exact hg
    · refine fun hg => ⟨[name], by simp, rfl, hg, fun m hm h₁ h₂ => ?_⟩
      obtain ⟨n, m, rfl⟩ := List.exists_cons_of_ne_nil h₁
      obtain ⟨rfl, hm'⟩ := List.cons_prefix_cons.mp hm
      obtain rfl := List.prefix_nil.mp hm'
      exact absurd rfl h₂
  case isFalse hr =>
    constructor
    · rintro ⟨r', -, he, hg, hs⟩
      obtain rfl : name :: r = r' := by simpa using he
      refine ⟨?_, r, hr, by simp, hg, fun m hm h₁ h₂ => ?_⟩
      · exact hs [name] (by simp) (by simp) (by simpa using Ne.symm hr)
      · simpa using hs (name :: m) (by simpa using hm) (by simp) (by simpa using h₂)
    · rintro ⟨h, r', -, he, hg, hs⟩
      obtain rfl : r = r' := by simpa using he
      refine ⟨name :: r, by simp, rfl, hg, fun m hm h₁ h₂ => ?_⟩
      obtain ⟨n, m, rfl⟩ := List.exists_cons_of_ne_nil h₁
      obtain ⟨rfl, hm'⟩ := List.cons_prefix_cons.mp hm
      by_cases hn : m = []
      case pos => exact hn ▸ h
      case neg => simpa using hs m hm' hn fun he => h₂ (he ▸ rfl)

theorem walked_of_not_directory (h : fs.get? l ≠ some .directory) : fs.walked skip l = [] := by
  apply List.eq_nil_iff_forall_not_mem.mpr
  intro ⟨k, e⟩ hk
  obtain ⟨r, hr, rfl, hg, -⟩ := mem_walked.mp hk
  exact h (get?_of_append hg hr)

-- What a walk comes to from one entry of a directory on.
def walkedFrom (fs : FileSystem) (skip : Location → Bool) (l : Location) (x : String × Entry) :
    List (Location × Entry) :=
  (l ++ [x.1], x.2) :: if skip (l ++ [x.1]) then [] else fs.walked skip (l ++ [x.1])

theorem mem_walkedFrom {x : String × Entry} (hx : x ∈ fs.children l) :
    (k, e) ∈ fs.walkedFrom skip l x ↔ (k, e) ∈ fs.walked skip l ∧ ∃ r, k = l ++ x.1 :: r := by
  have hg := mem_children.mp hx
  rw [walkedFrom, List.mem_cons]
  constructor
  · rintro (he | he)
    case inl =>
      obtain ⟨rfl, rfl⟩ := Prod.ext_iff.mp he
      exact ⟨mem_walked_cons.mpr (by simpa using hg), [], rfl⟩
    case inr =>
      split at he
      case isTrue => simp at he
      case isFalse h =>
        obtain ⟨r, hr, rfl, -⟩ := mem_walked.mp he
        rw [List.append_assoc, List.singleton_append] at he ⊢
        exact ⟨mem_walked_cons.mpr (by simpa [hr, h] using he), r, rfl⟩
  · rintro ⟨he, r, rfl⟩
    have he := mem_walked_cons.mp he
    split at he
    case isTrue hr =>
      rw [hg, Option.some_inj] at he
      exact .inl (by rw [hr, he])
    case isFalse => exact .inr (by simpa [he.1] using he.2)

-- A walk comes to an entry of a directory before it comes to what is below that.
theorem walked_eq_flatMap : fs.walked skip l = (fs.children l).flatMap (fs.walkedFrom skip l) := by
  refine eq_of_mem_iff sorted_walked (List.pairwise_flatMap.mpr ⟨?_, ?_⟩) fun ⟨k, e⟩ => ?_
  · rintro ⟨name, e⟩ -
    refine List.pairwise_cons.mpr ⟨?_, ?_⟩
    · rintro ⟨k, e'⟩ hk
      split at hk
      case isTrue => simp at hk
      case isFalse =>
        obtain ⟨r, hr, rfl, -⟩ := mem_walked.mp hk
        exact lt_append hr
    · split
      · exact .nil
      · exact sorted_walked
  · refine List.Pairwise.imp_of_mem ?_ sorted_children
    rintro x y hx hy hlt ⟨k, e⟩ hk ⟨k', e'⟩ hk'
    obtain ⟨-, r, rfl⟩ := (mem_walkedFrom hx).mp hk
    obtain ⟨-, r', rfl⟩ := (mem_walkedFrom hy).mp hk'
    exact append_lt_append_left_iff.mpr (List.cons_lt_cons_iff.mpr (.inl hlt))
  · rw [List.mem_flatMap]
    constructor
    · intro hk
      obtain ⟨r, hr, rfl, hg, -⟩ := mem_walked.mp hk
      obtain ⟨name, r, rfl⟩ := List.exists_cons_of_ne_nil hr
      obtain ⟨e', he'⟩ : ∃ e', fs.get? (l ++ [name]) = some e' := by
        by_cases hr' : r = []
        case pos => exact ⟨e, hr' ▸ hg⟩
        case neg => exact ⟨.directory, get?_of_append (k := r) (by simpa using hg) hr'⟩
      have hx := mem_children.mpr he'
      exact ⟨(name, e'), hx, (mem_walkedFrom hx).mpr ⟨hk, r, rfl⟩⟩
    · rintro ⟨x, hx, hk⟩
      exact ((mem_walkedFrom hx).mp hk).1

end StaticSite.FileSystem
