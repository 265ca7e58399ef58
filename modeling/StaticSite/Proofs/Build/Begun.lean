import StaticSite.Proofs.Build.Prepare
import StaticSite.Proofs.Build.Processed
import StaticSite.Proofs.Walk.Order
/-!
A build whose output has been made, and is no part of what the source is in. Main statements: work
on an entry of the source changes nothing but in the output (`Frame.exec_perform`), and the build
goes over the source as it stood when the output had been made (`Begun.exec_walk`).
-/
namespace StaticSite.Build

open FileSystem Action Location Walk Extension

-- Whether the location is in the output, and not the output itself.
def IsWithin (out k : Location) : Prop :=
  out <+: k ∧ k ≠ out

-- Nothing has changed but in the output, where no links have been made.
structure Frame (out : Location) (w u : World) : Prop where
  linkless : u.files.Linkless
  directory : u.directory = w.directory
  get?_eq {k} : ¬IsWithin out k → u.files.get? k = w.files.get? k

-- A session in a world where its output has been made, outside of which the source is.
structure Begun (s : Session) (src out : Location) (w : World) : Prop where
  between : s.Between src out
  outside : ¬out <+: src
  linkless : w.files.Linkless
  get?_output : w.files.get? out = some .directory

variable {s : Session} {src out r k l dir : Location} {w u w₁ : World} {e : Entry} {name : String}
  {t : Report}

theorem IsWithin.of_prefix (h : IsWithin out k) (hk : k <+: l) : IsWithin out l := by
  refine ⟨h.1.trans hk, ?_⟩
  rintro rfl
  exact h.2 (hk.eq_of_length_le h.1.length_le)

namespace Frame

theorem refl (h : w.files.Linkless) : Frame out w w :=
  ⟨h, rfl, fun _ => rfl⟩

theorem of_files {v : World} (h : Frame out w u) (hf : v.files = u.files)
    (hd : v.directory = u.directory) : Frame out w v where
  linkless := hf ▸ h.linkless
  directory := hd.trans h.directory
  get?_eq hk := hf ▸ h.get?_eq hk

theorem addsDirectories {v : World} (h : Frame out w u) (ho : w.files.get? out = some .directory)
    (ha : u.AddsDirectories (· <+: out ++ k) v) : Frame out w v where
  linkless := ha.1.linkless h.linkless
  directory := ha.2.trans h.directory
  get?_eq {m} hm := by
    rw [← h.get?_eq hm]
    apply (ha.1 m).resolve_right
    rintro ⟨hp, hn, -⟩
    have hu : u.files.get? out = some .directory := (h.get?_eq fun hw => hw.2 rfl).trans ho
    by_cases he : m = out
    case pos => simp [he, hu] at hn
    case neg =>
      cases List.prefix_or_prefix_of_prefix hp (List.prefix_append out k)
      case inl hp =>
        have hd := get?_of_prefix hu hp he
        simp [hd] at hn
      case inr hp => exact hm ⟨hp, he⟩

theorem put (h : Frame out w u) (hk : k ≠ []) (he : out ++ k = l ++ [name])
    (ha : u.files.Accepts l name e) (hl : ∀ target, e ≠ .link target) :
    Frame out w (u.put l name e) where
  linkless := h.linkless.put hl
  directory := h.directory
  get?_eq {m} hm := by
    show (u.files.put l name e).get? m = _
    rw [get?_put ha, if_neg, h.get?_eq hm]
    rintro rfl
    exact hm ⟨he ▸ List.prefix_append out k, by rw [← he]; simpa using hk⟩

-- A path from the root leads to the same, if not into the output.
theorem find_eq (h : Frame out w u) (hf : w.files.Linkless) {p : Path} (ha : p.isAbsolute)
    (hp : ".." ∉ p.steps) (hn : ¬IsWithin out p.steps) :
    u.files.find u.directory p = w.files.find w.directory p :=
  hf.find_congr ha hp fun _ hk => h.get?_eq fun hw => hn (hw.of_prefix hk)

-- A content file compiles to the same, if neither it nor the layouts are in the output.
theorem compile_congr (h : Frame out w u) (hf : w.files.Linkless) (hl : l.IsStraight)
    (hn : ¬IsWithin out l) (ha : s.layouts.isAbsolute) (hp : ".." ∉ s.layouts.steps)
    (ho : ¬out <+: s.layouts.steps) :
    (exec (Compile.file s l.toPath) u).1 = (exec (Compile.file s l.toPath) w).1 := by
  apply Compile.reads_file.congr u w
  rintro q (rfl | hq)
  case inl =>
    refine h.find_eq hf isAbsolute_toPath ?_ ?_ <;> rw [hl.isPlain.steps_toPath]
    · exact fun hm => (hl _ hm).2 rfl
    · exact hn
  case inr =>
    obtain ⟨ha, n, hne, hq⟩ := hq.steps ha
    refine h.find_eq hf ha ?_ ?_ <;> rw [hq]
    · simp [hp, hne.symm]
    · rintro ⟨hp, hne⟩
      cases List.prefix_concat_iff.mp hp
      case inl he => exact hne he.symm
      case inr hp => exact ho hp

-- Whatever is made for an entry is in the output.
theorem outcome {ε α : Type} {isDirectory : Bool} {contents : Option ByteArray}
    {x : Except ε α × World} (h : Frame out w u) (ho : w.files.get? out = some .directory)
    (hk : k ≠ []) (hx : Outcome (out ++ k) isDirectory contents u x) : Frame out w x.2 := by
  cases hx
  case failed ha => exact h.addsDirectories ho ha
  case directory ha => exact h.addsDirectories ho ha
  case file hl _ ha hw => exact (h.addsDirectories ho ha).put hk hl hw.accepts (by simp)

theorem exec_perform {isDirectory : Bool} (hw : Frame out w₁ w) (h : Begun s src out w₁)
    (hr : IsStraight (r ++ [name])) :
    Frame out w₁ (exec (perform s (src ++ (r ++ [name])).toPath isDirectory t) w).2 :=
  hw.outcome h.get?_output (by simp) (outcome_perform h.between hr hw.linkless)

end Frame

-- If nothing but the output has changed so far, it stays like that, and nothing is taken away.
def Extends (out : Location) (w₁ w u : World) : Prop :=
  Frame out w₁ w → Frame out w₁ u ∧ w.Grows u

instance : Std.Refl (Extends out w₁) where
  refl w h := ⟨h, Std.Refl.refl w⟩

instance : IsTrans World (Extends out w₁) where
  trans _ _ _ h h' hw := ⟨(h' (h hw).1).1, IsTrans.trans _ _ _ (h hw).2 (h' (h hw).1).2⟩

namespace Begun

-- Whether the location is that of a directory that the build goes over.
def IsOpen (src out : Location) (w : World) (l : Location) : Prop :=
  src <+: l ∧ ¬out <+: l ∧ w.files.get? l = some .directory

theorem ne_output (h : Begun s src out w₁) (hx : s.isExcluded l.toPath = false) : l ≠ out := by
  rintro rfl
  simp [Session.isExcluded, h.between.output, Path.same_refl] at hx

theorem not_isWithin_concat (h : ¬out <+: l) : ¬IsWithin out (l ++ [name]) := by
  rintro ⟨hp, hn⟩
  cases List.prefix_concat_iff.mp hp
  case inl he => exact hn he.symm
  case inr hp => exact h hp

theorem steady_visit (h : Begun s src out w₁) :
    Steady (visit s) w₁.files (s.isExcluded ·.toPath) (IsOpen src out w₁) (Frame out w₁) := by
  constructor
  case linkless => exact h.linkless
  case list_eq =>
    rintro l w ⟨-, hl, hg⟩ hw
    have hx : w.files.get? l = some .directory := (hw.get?_eq fun hw => hl hw.1).trans hg
    have hc : w.files.children l = w₁.files.children l :=
      children_congr fun name => hw.get?_eq (not_isWithin_concat hl)
    rw [list_toPath hx, hc]
  case isOpen_concat =>
    rintro l name ⟨hs, hl, -⟩ hg hx
    refine ⟨hs.trans (List.prefix_append _ _), fun hp => ?_, hg⟩
    cases List.prefix_concat_iff.mp hp
    case inl he => exact h.ne_output hx he.symm
    case inr hp => exact hl hp
  case visit =>
    rintro l name e t w x u ⟨⟨r, rfl⟩, -, -⟩ hw hg hx
    rw [List.append_assoc] at hg hx ⊢
    cases hp : s.isExcluded (src ++ (r ++ [name])).toPath
    case true =>
      obtain ⟨log, he⟩ := exec_visit_of_isExcluded (w := w) (r := t) hp
      have heq := he.symm.trans hx
      obtain ⟨rfl, rfl⟩ : none = x ∧ { w with log } = u := by simpa using heq
      exact ⟨hw.of_files rfl rfl, by simp⟩
    case false =>
      obtain ⟨r', rfl, he⟩ := exec_perform_of_exec_visit hp hx
      have hf : Frame out w₁
          (exec (perform s (src ++ (r ++ [name])).toPath (e = .directory) t) w).2 :=
        hw.exec_perform h (isStraight_of_get? hg).of_append.2
      rw [he] at hf
      exact ⟨hf, by simp⟩

-- The build goes over what there is in the source when it starts.
theorem exec_walk (h : Begun s src out w₁) (hs : w₁.files.get? src = some .directory)
    (hw : Frame out w₁ w) (t : Report) :
    exec (Walk.run .walk (visit s) s.source t) w =
      exec (look .walk s.source >>= fun _ =>
        (w₁.files.walked (s.isExcluded ·.toPath) src).foldlM (sweepInto .walk (visit s)) t) w := by
  have hg : w.files.get? src = some .directory := (hw.get?_eq fun hw => h.outside hw.1).trans hs
  have ho : IsOpen src out w₁ src := ⟨List.prefix_refl src, h.outside, hs⟩
  rw [h.between.source]
  exact h.steady_visit.exec_run ho hw t (resolve_toPath_eq_map hg (by simp))

end Begun

-- A build has begun when its output is made.
theorem begun_of_makeDirectory (hf : w.files.Linkless) (hb : s.Between src out)
    (hn : ¬out <+: src) (hm : exec (makeDirectory s.output) w = (.ok (), w₁)) :
    Begun s src out w₁ := by
  rw [hb.output] at hm
  have hp := hb.straight_output
  have hk := Disk.keeps_makeDirectories_toPath hp.isPlain (hp.of_prefix (List.dropLast_prefix _))
  have ha := hk.orElseThrow.of_exec hm hf
  exact ⟨hb, hn, ha.1.linkless hf,
    Disk.makeDirectories_toPath hf hp (exec_orElseThrow_eq_ok.mp hm)⟩

theorem begun_of_prepare_eq_ok {source output : Path} (hf : w.files.Linkless)
    (h : exec (prepare source output) w = (.ok s, w₁))
    (hn : ¬s.output.steps <+: s.source.steps) : Begun s s.source.steps s.output.steps w₁ where
  between := between_of_prepare_eq_ok h
  outside := hn
  linkless := ((keeps_prepare source output).of_exec h).1.linkless hf
  get?_output := get?_output_of_prepare_eq_ok h

end StaticSite.Build
