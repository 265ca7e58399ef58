import StaticSite.Compile
import StaticSite.Proofs.Disk.Growth
import StaticSite.Proofs.FileSystem.Lexical
/-!
Compiling a content file only reads: the file itself and a layout. Main statement: it changes
nothing, and its document is the same wherever these files are found with the same contents
(`reads_file`); a layout is looked for right in the directory of the layouts (`IsLayoutPath.steps`).
-/
namespace StaticSite

open FileSystem Action

-- An action that looks for files at certain paths and does nothing else.
structure Action.Reads {ε α : Type} (P : Path → Prop) (x : Action ε α) : Prop where
  world : ∀ w, (exec x w).2 = w
  congr : ∀ w v, (∀ p, P p → w.files.find w.directory p = v.files.find v.directory p) →
    (exec x w).1 = (exec x v).1
  -- What has been found is all that a success takes.
  ok : ∀ w v, (∀ p, P p → ∀ y, w.files.find w.directory p = .ok y →
    v.files.find v.directory p = .ok y) → ∀ a, (exec x w).1 = .ok a → (exec x v).1 = .ok a

namespace Action.Reads

variable {ε δ α β : Type} {P Q : Path → Prop} {x : Action ε α}

theorem pure (a : α) : Reads P (pure a : Action ε α) :=
  ⟨fun _ => rfl, fun _ _ _ => rfl, fun _ _ _ _ => id⟩

theorem throw (e : ε) : Reads P (throw e : Action ε α) :=
  ⟨fun _ => rfl, fun _ _ _ => rfl, fun _ _ _ _ => id⟩

theorem mono (h : Reads P x) (hq : ∀ p, P p → Q p) : Reads Q x where
  world := h.world
  congr w v hp := h.congr w v fun p h => hp p (hq p h)
  ok w v hp := h.ok w v fun p h => hp p (hq p h)

theorem eq_of_exec (h : Reads P x) {w u : World} {a : Except ε α} (he : exec x w = (a, u)) :
    u = w := by
  rw [← h.world w, he]

-- Whether it succeeds or not, it ends where it has begun.
theorem exec_cases (h : Reads P x) (w : World) :
    (∃ e, exec x w = (.error e, w)) ∨ ∃ a, exec x w = (.ok a, w) := by
  rcases hx : exec x w with ⟨e | a, u⟩ <;> obtain rfl := h.eq_of_exec hx
  case error => exact .inl ⟨e, rfl⟩
  case ok => exact .inr ⟨a, rfl⟩

theorem keeps {R : World → World → Prop} [Std.Refl R] (h : Reads P x) : Keeps R x :=
  fun w => (h.world w).symm ▸ Std.Refl.refl w

theorem orElseThrow {x : Action δ α} {tell : δ → ε} (h : Reads P x) :
    Reads P (x.orElseThrow tell) where
  world w := by rw [exec_orElseThrow, h.world]
  congr w v hp := by rw [exec_orElseThrow, exec_orElseThrow, h.congr w v hp]
  ok w v hp a ha := by
    rcases hx : exec x w with ⟨e | b, u⟩ <;> rw [exec_orElseThrow, hx] at ha
    case error => simp [Except.mapError] at ha
    case ok =>
      obtain rfl : b = a := by simpa [Except.mapError] using ha
      rw [exec_orElseThrow, h.ok w v hp b (by rw [hx])]
      rfl

theorem bind {f : α → Action ε β} (h : Reads P x) (hf : ∀ a, Reads P (f a)) :
    Reads P (x >>= f) where
  world w := by
    rcases h.exec_cases w with ⟨e, he⟩ | ⟨a, he⟩
    case inl => rw [exec_bind_of_error he]
    case inr => rw [exec_bind_of_ok he, (hf a).world]
  congr w v hp := by
    have hc := h.congr w v hp
    rcases h.exec_cases w with ⟨e, he⟩ | ⟨a, he⟩ <;> rw [he] at hc
    case inl =>
      have hv : exec x v = (.error e, v) := Prod.ext hc.symm (h.world v)
      rw [exec_bind_of_error he, exec_bind_of_error hv]
    case inr =>
      have hv : exec x v = (.ok a, v) := Prod.ext hc.symm (h.world v)
      rw [exec_bind_of_ok he, exec_bind_of_ok hv]
      exact (hf a).congr w v hp
  ok w v hp b hb := by
    rcases h.exec_cases w with ⟨e, he⟩ | ⟨a, he⟩
    case inl => simp [exec_bind_of_error he] at hb
    case inr =>
      have hv : exec x v = (.ok a, v) := Prod.ext (h.ok w v hp a (by rw [he])) (h.world v)
      rw [exec_bind_of_ok he] at hb
      rw [exec_bind_of_ok hv]
      exact (hf a).ok w v hp b hb

end Action.Reads

namespace Disk

theorem reads_ask_find {p : Path} : Reads (· = p) (ask (·.find · p)) where
  world w := by rw [exec_ask]
  congr w v hp := by rw [exec_ask, exec_ask, hp p rfl]
  ok w v hp y hy := by
    rw [exec_ask] at hy ⊢
    exact hp p rfl y hy

theorem reads_readText {p : Path} : Reads (· = p) (readText p) := by
  have hr : Reads (· = p) (read p) := by
    apply reads_ask_find.bind
    intro x
    split
    · exact .pure _
    · exact .throw _
  apply hr.bind
  intro contents
  split
  · exact .pure _
  · exact .throw _

end Disk

namespace Layout

variable {name : String}

theorem slash_not_mem_of_isValidName (h : isValidName name) : '/' ∉ name.toList := by
  rw [isValidName, Bool.and_eq_true] at h
  have hc : ∀ c ∈ name.toList, c ≠ '/' ∧ c ≠ '\\' := by simpa using h.1
  exact fun hm => (hc '/' hm).1 rfl

-- The file of a layout is a single step down.
theorem isStep_fileName (h : '/' ∉ name.toList) :
    Path.IsStep (name ++ "." ++ fileExtension) ∧ name ++ "." ++ fileExtension ≠ ".." := by
  refine ⟨⟨Path.isIdle_of_one_lt_length (by simp [fileExtension]), by simp [fileExtension, h]⟩, ?_⟩
  intro he
  have := congrArg (fun name : String => name.toList.reverse.head?) he
  simp [fileExtension] at this

theorem inject_of_isValidName {layouts page : Path} {config : EffectiveConfig} {body : String}
    (h : isValidName config.layout) : inject layouts config body page = do
      let template ← (Disk.readText (path layouts config.layout)).orElseThrow
        (readError config.layout (path layouts config.layout) page)
      return Template.render template config body := by
  simp [inject, h]

theorem reads_inject_path {layouts page : Path} {config : EffectiveConfig} {body : String}
    (h : isValidName config.layout) :
    Reads (· = path layouts config.layout) (inject layouts config body page) := by
  rw [inject_of_isValidName h]
  exact Disk.reads_readText.orElseThrow.bind fun _ => .pure _

end Layout

namespace Compile

open Disk

-- Where a layout is looked for.
def IsLayoutPath (layouts p : Path) : Prop :=
  ∃ name, Layout.isValidName name ∧ p = Layout.path layouts name

theorem reads_inject {layouts page : Path} {config : EffectiveConfig} {body : String} :
    Reads (IsLayoutPath layouts) (Layout.inject layouts config body page) := by
  cases hv : Layout.isValidName config.layout
  case false => exact Layout.inject_of_not_isValidName hv ▸ .throw _
  case true => exact (Layout.reads_inject_path hv).mono fun p hp => ⟨config.layout, hv, hp⟩

theorem reads_text {s : Session} {input : String} {page : Path} :
    Reads (IsLayoutPath s.layouts) (text s input page) := by
  unfold text
  split
  · exact .throw _
  · exact reads_inject.orElseThrow

theorem reads_file {s : Session} {p : Path} :
    Reads (fun q => q = p ∨ IsLayoutPath s.layouts q) (file s p) := by
  apply (reads_readText.mono fun _ => .inl).orElseThrow.bind
  exact fun _ => reads_text.mono fun _ => .inr

-- A layout is in the directory of the layouts, if anywhere.
theorem IsLayoutPath.exists_name {layouts p : Path} (h : IsLayoutPath layouts p) :
    ∃ name, Path.IsStep name ∧ name ≠ ".." ∧ p = layouts / Location.toRelative [name] := by
  obtain ⟨name, hv, rfl⟩ := h
  obtain ⟨hn, hu⟩ := Layout.isStep_fileName (Layout.slash_not_mem_of_isValidName hv)
  exact ⟨_, hn, hu, rfl⟩

theorem IsLayoutPath.steps {layouts p : Path} (h : IsLayoutPath layouts p)
    (ha : layouts.isAbsolute) :
    p.isAbsolute ∧ ∃ name, name ≠ ".." ∧ p.steps = layouts.steps ++ [name] := by
  obtain ⟨name, hn, hu, rfl⟩ := h.exists_name
  have hp : Location.IsPlain ([] ++ [name]) := Location.IsPlain.nil.concat hn
  rw [List.nil_append] at hp
  have hq := hp.isAbsolute_toRelative (by simp)
  refine ⟨Path.isAbsolute_join ha hq, name, hu, (Path.steps_join ha hq).trans ?_⟩
  rw [hp.steps_toRelative (by simp)]

theorem IsLayoutPath.location {layouts p : Path} (h : IsLayoutPath layouts p)
    (ha : layouts.isAbsolute) :
    p.isAbsolute ∧ ∃ name, p.location = layouts.location ++ [name] := by
  obtain ⟨name, hn, hu, rfl⟩ := h.exists_name
  exact ⟨(h.steps ha).1, name, Path.location_below hn hu⟩

end Compile

end StaticSite
