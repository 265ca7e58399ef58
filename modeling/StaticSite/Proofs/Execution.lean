import Mathlib.Order.Defs.Unbundled
import StaticSite.World
/-!
Running actions: what an action gives in a world, and the world it leaves, whether it fails or not.
Main statements: what every part of an action keeps, the action keeps (`Keeps.bind`,
`Keeps.tryCatch`), and it fails only as its parts do (`Throws.bind`).
-/
namespace StaticSite.Action

variable {ε δ α β : Type}

def exec (x : Action ε α) (w : World) : Except ε α × World :=
  x.run.run w

@[simp]
theorem exec_pure (a : α) (w : World) : exec (pure a : Action ε α) w = (.ok a, w) :=
  rfl

@[simp]
theorem exec_throw (e : ε) (w : World) : exec (throw e : Action ε α) w = (.error e, w) :=
  rfl

@[simp]
theorem exec_get (w : World) : exec (get : Action ε World) w = (.ok w, w) :=
  rfl

@[simp]
theorem exec_modify (f : World → World) (w : World) :
    exec (modify f : Action ε Unit) w = (.ok (), f w) :=
  rfl

@[simp]
theorem exec_record (level : Log.Level) (message : String) (w : World) :
    exec (record level message : Action ε Unit) w =
      (.ok (), { w with log := w.log ++ [⟨level, message⟩] }) :=
  rfl

theorem exec_bind (x : Action ε α) (f : α → Action ε β) (w : World) :
    exec (x >>= f) w = match exec x w with
      | (.ok a, w) => exec (f a) w
      | (.error e, w) => (.error e, w) := by
  simp only [exec, ExceptT.run_bind, StateT.run_bind]
  rcases x.run.run w with ⟨_ | _, _⟩ <;> rfl

theorem exec_tryCatch (x : Action ε α) (f : ε → Action ε α) (w : World) :
    exec (tryCatch x f) w = match exec x w with
      | (.ok a, w) => (.ok a, w)
      | (.error e, w) => exec (f e) w := by
  simp only [exec, ExceptT.run_tryCatch, StateT.run_bind]
  rcases x.run.run w with ⟨_ | _, _⟩ <;> rfl

theorem exec_orElseThrow (x : Action δ α) (tell : δ → ε) (w : World) :
    exec (x.orElseThrow tell) w = ((exec x w).1.mapError tell, (exec x w).2) :=
  rfl

section

variable {x : Action ε α} {f : α → Action ε β} {w v : World} {a : α}

theorem exec_bind_of_ok (h : exec x w = (.ok a, v)) : exec (x >>= f) w = exec (f a) v := by
  rw [exec_bind, h]

theorem exec_bind_of_error {e : ε} (h : exec x w = (.error e, v)) :
    exec (x >>= f) w = (.error e, v) := by
  rw [exec_bind, h]

theorem exec_bind_eq_ok {b : β} :
    exec (x >>= f) w = (.ok b, v) ↔ ∃ a u, exec x w = (.ok a, u) ∧ exec (f a) u = (.ok b, v) := by
  rw [exec_bind]
  rcases exec x w with ⟨_ | _, _⟩ <;> simp [Prod.ext_iff, and_assoc]

theorem exec_bind_eq_error {e : ε} :
    exec (x >>= f) w = (.error e, v) ↔ exec x w = (.error e, v) ∨
      ∃ a u, exec x w = (.ok a, u) ∧ exec (f a) u = (.error e, v) := by
  rw [exec_bind]
  rcases exec x w with ⟨_ | _, _⟩ <;> simp [Prod.ext_iff, and_assoc]

theorem exec_orElseThrow_of_ok {x : Action δ α} {tell : δ → ε} (h : exec x w = (.ok a, v)) :
    exec (x.orElseThrow tell) w = (.ok a, v) := by
  rw [exec_orElseThrow, h]
  rfl

theorem exec_orElseThrow_of_error {x : Action δ α} {tell : δ → ε} {e : δ}
    (h : exec x w = (.error e, v)) : exec (x.orElseThrow tell) w = (.error (tell e), v) := by
  rw [exec_orElseThrow, h]
  rfl

theorem exec_orElseThrow_eq_error {x : Action δ α} {tell : δ → ε} {e : ε} :
    exec (x.orElseThrow tell) w = (.error e, v) ↔ ∃ d, exec x w = (.error d, v) ∧ tell d = e := by
  rw [exec_orElseThrow]
  rcases exec x w with ⟨d | b, u⟩
  case error =>
    show (Except.error (tell d), u) = (.error e, v) ↔ _
    simp only [Prod.mk.injEq, Except.error.injEq, and_assoc, exists_eq_left']
    exact and_comm
  case ok =>
    show (Except.ok b, u) = (.error e, v) ↔ _
    simp

theorem exec_orElseThrow_eq_ok {x : Action δ α} {tell : δ → ε} :
    exec (x.orElseThrow tell) w = (.ok a, v) ↔ exec x w = (.ok a, v) := by
  rw [exec_orElseThrow]
  rcases exec x w with ⟨e | b, u⟩
  case error =>
    show (Except.error (tell e), u) = (.ok a, v) ↔ _
    simp
  case ok =>
    show (Except.ok b, u) = (.ok a, v) ↔ _
    simp

end

-- What an action leaves, and whether it succeeds, can be found by running it.
instance {x : Except ε α × World} {P : α → World → Prop} [∀ a w, Decidable (P a w)] :
    Decidable (∃ a w, x = (.ok a, w) ∧ P a w) :=
  match x with
  | (.ok a, w) => decidable_of_iff (P a w) (by simp [and_assoc])
  | (.error _, _) => isFalse (by simp)

instance {x : Except ε α × World} {P : ε → World → Prop} [∀ e w, Decidable (P e w)] :
    Decidable (∃ e w, x = (.error e, w) ∧ P e w) :=
  match x with
  | (.error e, w) => decidable_of_iff (P e w) (by simp [and_assoc])
  | (.ok _, _) => isFalse (by simp)

-- Whatever an action does in a world, it leaves one that `R` relates to the first.
def Keeps (R : World → World → Prop) (x : Action ε α) : Prop :=
  ∀ w, R w (exec x w).2

namespace Keeps

variable {R : World → World → Prop} {x : Action ε α}

theorem of_exec {w v : World} {a : Except ε α} (h : Keeps R x) (he : exec x w = (a, v)) :
    R w v := by
  have hw := h w
  rwa [he] at hw

theorem orElseThrow {x : Action δ α} {tell : δ → ε} (h : Keeps R x) :
    Keeps R (x.orElseThrow tell) :=
  fun w => exec_orElseThrow x tell w ▸ h w

theorem mono {Q : World → World → Prop} (h : Keeps R x) (hq : ∀ {w v}, R w v → Q w v) : Keeps Q x :=
  fun w => hq (h w)

section

variable [Std.Refl R]

theorem pure (a : α) : Keeps R (pure a : Action ε α) :=
  fun w => Std.Refl.refl w

theorem throw (e : ε) : Keeps R (throw e : Action ε α) :=
  fun w => Std.Refl.refl w

theorem get : Keeps R (get : Action ε World) :=
  fun w => Std.Refl.refl w

end

variable [IsTrans World R]

theorem bind {f : α → Action ε β} (hx : Keeps R x) (hf : ∀ a, Keeps R (f a)) :
    Keeps R (x >>= f) := by
  intro w
  have h := hx w
  rw [exec_bind]
  rcases he : exec x w with ⟨e | a, v⟩ <;> rw [he] at h
  case error => exact h
  case ok => exact IsTrans.trans _ _ _ h (hf a v)

theorem foldlM [Std.Refl R] {σ : Type} {f : σ → β → Action ε σ} {bs : List β}
    (h : ∀ b ∈ bs, ∀ s, Keeps R (f s b)) (s : σ) : Keeps R (bs.foldlM f s) := by
  induction bs generalizing s
  case nil => exact .pure s
  case cons b bs hi =>
    exact (h b List.mem_cons_self s).bind (hi fun b hb => h b (List.mem_cons_of_mem _ hb))

theorem tryCatch {f : ε → Action ε α} (hx : Keeps R x) (hf : ∀ e, Keeps R (f e)) :
    Keeps R (tryCatch x f) := by
  intro w
  have h := hx w
  rw [exec_tryCatch]
  rcases he : exec x w with ⟨e | a, v⟩ <;> rw [he] at h
  case error => exact IsTrans.trans _ _ _ h (hf e v)
  case ok => exact h

end Keeps

-- If an action fails, it is with an error that satisfies `P`.
def Throws (P : ε → Prop) (x : Action ε α) : Prop :=
  ∀ w e v, exec x w = (.error e, v) → P e

namespace Throws

variable {P : ε → Prop} {x : Action ε α}

theorem pure (a : α) : Throws P (pure a : Action ε α) := by
  intro w e v h
  simp at h

theorem throw {e : ε} (h : P e) : Throws P (throw e : Action ε α) := by
  intro w e' v he
  obtain rfl : e = e' := by simpa using (Prod.ext_iff.mp he).1
  exact h

theorem get : Throws P (get : Action ε World) := by
  intro w e v h
  simp at h

theorem record {level : Log.Level} {message : String} :
    Throws P (record level message : Action ε Unit) := by
  intro w e v h
  simp at h

theorem bind {f : α → Action ε β} (hx : Throws P x) (hf : ∀ a, Throws P (f a)) :
    Throws P (x >>= f) := by
  intro w e v h
  rcases exec_bind_eq_error.mp h with he | ⟨a, u, -, he⟩
  case inl => exact hx w e v he
  case inr => exact hf a u e v he

theorem foldlM {σ : Type} {f : σ → β → Action ε σ} {bs : List β} (h : ∀ s b, Throws P (f s b))
    (s : σ) : Throws P (bs.foldlM f s) := by
  induction bs generalizing s
  case nil => exact .pure s
  case cons b bs hi => exact (h s b).bind hi

theorem orElseThrow {x : Action δ α} {tell : δ → ε} (h : ∀ e, P (tell e)) :
    Throws P (x.orElseThrow tell) := by
  intro w e v he
  obtain ⟨d, -, rfl⟩ := exec_orElseThrow_eq_error.mp he
  exact h d

theorem mono {Q : ε → Prop} (h : Throws P x) (hq : ∀ e, P e → Q e) : Throws Q x :=
  fun w e v he => hq e (h w e v he)

end Throws

end StaticSite.Action
