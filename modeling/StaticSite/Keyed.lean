/-!
Entries by key, in ascending order of the keys, so that each key occurs at most once and there is
one way to write down what is found at which key.

Main statements: an insertion changes what is found at its key and nothing else (`lookup_insert`);
sorted entries at which the same is found are equal (`eq_of_lookup`).
-/
namespace StaticSite.Keyed

variable {κ α : Type}

-- Keys ascend.
abbrev Sorted [LT κ] (es : List (κ × α)) : Prop :=
  es.Pairwise (·.1 < ·.1)

-- Sets the value at a key.
def insert [LT κ] [DecidableLT κ] [DecidableEq κ] (k : κ) (v : α) : List (κ × α) → List (κ × α)
  | [] => [(k, v)]
  | e :: es =>
    if k < e.1 then (k, v) :: e :: es
    else if k = e.1 then (k, v) :: es
    else e :: insert k v es

theorem eq_or_mem_of_mem_insert [LT κ] [DecidableLT κ] [DecidableEq κ] {k : κ} {v : α}
    {x : κ × α} {es : List (κ × α)} (h : x ∈ insert k v es) : x = (k, v) ∨ x ∈ es := by
  induction es
  case nil => simpa [insert] using h
  case cons e es hi =>
    unfold insert at h
    split at h
    · simpa using h
    · split at h
      · exact (List.mem_cons.mp h).imp_right (List.mem_cons_of_mem _)
      · cases List.mem_cons.mp h
        case inl h => exact .inr (h ▸ List.mem_cons_self)
        case inr h => exact (hi h).imp_right (List.mem_cons_of_mem _)

section

variable [BEq κ] [LawfulBEq κ] [DecidableEq κ] {j k : κ} {v w : α} {es : List (κ × α)}

theorem lookup_cons : ((j, w) :: es).lookup k = if k = j then some w else es.lookup k := by
  by_cases h : k = j
  · simp [h]
  · simp [List.lookup_cons, h, beq_eq_false_iff_ne.mpr h]

theorem lookup_insert [LT κ] [DecidableLT κ] :
    (insert k v es).lookup j = if j = k then some v else es.lookup j := by
  induction es
  case nil => simp [insert, lookup_cons]
  case cons e es hi =>
    obtain ⟨i, w⟩ := e
    unfold insert
    split
    · rw [lookup_cons]
    · split
      case isTrue he => subst he; simp only [lookup_cons]; split <;> rfl
      case isFalse he =>
        rw [lookup_cons, lookup_cons, hi]
        by_cases hj : j = i
        · simp [hj, Ne.symm he]
        · simp [hj]

end

variable [LE κ] [LT κ] [Std.LawfulOrderLT κ] {k : κ} {v : α} {es : List (κ × α)}

theorem Sorted.nodup (h : Sorted es) : es.Nodup :=
  List.Pairwise.imp (fun {x y} (h : x.1 < y.1) (he : x = y) => Std.lt_irrefl (he ▸ h)) h

-- In sorted entries, looking up a value is finding its entry.
theorem lookup_eq_some_iff [BEq κ] [LawfulBEq κ] (h : Sorted es) :
    es.lookup k = some v ↔ (k, v) ∈ es := by
  induction es
  case nil => simp
  case cons e es hi =>
    obtain ⟨j, w⟩ := e
    rw [Sorted, List.pairwise_cons] at h
    by_cases hk : k = j
    · subst hk
      simp only [List.lookup_cons, beq_self_eq_true, Option.some.injEq, List.mem_cons,
        Prod.mk.injEq, true_and]
      constructor
      · exact fun h => .inl h.symm
      · rintro (rfl | he)
        · rfl
        · exact absurd (h.1 _ he) Std.lt_irrefl
    · simp [List.lookup_cons, beq_eq_false_iff_ne.mpr hk, hk, hi h.2]

variable [Std.IsLinearOrder κ]

theorem eq_of_lookup [BEq κ] [LawfulBEq κ] {as bs : List (κ × α)} (ha : Sorted as)
    (hb : Sorted bs) (h : ∀ k, as.lookup k = bs.lookup k) : as = bs := by
  have hp : as.Perm bs :=
    (List.perm_ext_iff_of_nodup ha.nodup hb.nodup).mpr fun ⟨k, v⟩ => by
      rw [← lookup_eq_some_iff ha, ← lookup_eq_some_iff hb, h]
  exact hp.eq_of_pairwise
    (fun x y _ _ hx hy => absurd (Std.lt_trans hx hy) Std.lt_irrefl) ha hb

variable [DecidableLT κ] [DecidableEq κ]

theorem Sorted.insert (h : Sorted es) : Sorted (insert k v es) := by
  induction es
  case nil => simp [Keyed.insert]
  case cons e es hi =>
    have hes := List.pairwise_cons.mp h
    unfold Keyed.insert
    split
    case isTrue hl =>
      refine List.pairwise_cons.mpr ⟨fun x hx => ?_, h⟩
      rcases List.mem_cons.mp hx with rfl | hx
      · exact hl
      · exact Std.lt_trans hl (hes.1 x hx)
    case isFalse hl =>
      split
      case isTrue he => exact List.pairwise_cons.mpr ⟨fun x hx => he ▸ hes.1 x hx, hes.2⟩
      case isFalse he =>
        refine List.pairwise_cons.mpr ⟨fun x hx => ?_, hi hes.2⟩
        rcases eq_or_mem_of_mem_insert hx with rfl | hx
        · exact Std.lt_of_le_of_ne (Std.not_lt.mp hl) (Ne.symm he)
        · exact hes.1 x hx

theorem mem_insert [BEq κ] [LawfulBEq κ] {x : κ × α} (h : Sorted es) :
    x ∈ insert k v es ↔ x = (k, v) ∨ (x ∈ es ∧ x.1 ≠ k) := by
  obtain ⟨j, w⟩ := x
  rw [← lookup_eq_some_iff h.insert, lookup_insert, ← lookup_eq_some_iff h]
  by_cases hj : j = k
  · simp [hj, eq_comm]
  · simp [hj]

end StaticSite.Keyed
