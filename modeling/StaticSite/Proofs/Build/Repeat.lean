import StaticSite.Proofs.Build.Steps
import StaticSite.Proofs.Disk.Again
/-!
Building once more. Where the first build has been, the second one finds all that the first has left
in the output, be it from then or from later. Main statements: an action gives the same once more if
its parts do (`Repeats.bind`), and what a build does on the disk gives the same
(`Repeats.makeDirectories`, `Repeats.write`, `Repeats.copy`).
-/
namespace StaticSite.Build

open FileSystem Action Location

-- A build runs once more. Where there was `f` the first time, there is `g` now, and `l` is what the
-- first time has left. A file may be as it was or as it has been left.
structure Rerun (out : Location) (w₁ f g l : World) : Prop where
  first : Frame out w₁ f
  last : Frame out w₁ l
  grows : f.Grows l
  directory : g.directory = f.directory
  get?_eq k : g.files.get? k = l.files.get? k ∨
    ∃ c, g.files.get? k = some (.file c) ∧ f.files.get? k = some (.file c)

-- Once more, the action gives the same. If the build has gone on after it, that is not undone.
structure Repeats {ε α : Type} (out : Location) (w₁ : World) (x : Action ε α) : Prop where
  keeps : Keeps (Extends out w₁) x
  ok {f g l f' : World} {a : α} : Rerun out w₁ f g l → exec x f = (.ok a, f') → f'.Grows l →
    ∃ g', exec x g = (.ok a, g') ∧ Rerun out w₁ f' g' l
  error {f g f' : World} {e : ε} : Rerun out w₁ f g f' → exec x f = (.error e, f') →
    ∃ g', exec x g = (.error e, g') ∧ Rerun out w₁ f' g' f'

variable {out k : Location} {w₁ f g l f' : World} {s : Session} {p : Path}

namespace Rerun

-- A build that has run is about to start again.
theorem of_last (hf : Frame out w₁ f) (hl : Frame out w₁ l) (hg : f.Grows l) {v : World}
    (hv : v.files = l.files) (hd : v.directory = l.directory) : Rerun out w₁ f v l :=
  ⟨hf, hl, hg, hd.trans hg.2, fun _ => .inl (by rw [hv])⟩

theorem log (h : Rerun out w₁ f g l) {a b c : Log} :
    Rerun out w₁ { f with log := a } { g with log := b } { l with log := c } :=
  ⟨h.first.of_files rfl rfl, h.last.of_files rfl rfl, h.grows, h.directory, h.get?_eq⟩

-- There is nothing new the second time, as compared to what the first time has left.
theorem last_grows (h : Rerun out w₁ f g l) : l.Grows g := by
  refine ⟨fun k e he => ?_, h.directory.trans h.grows.2.symm⟩
  rcases h.get?_eq k with hk | ⟨c, hg, hf⟩
  case inl => exact ⟨e, hk.trans he, .refl e⟩
  case inr =>
    obtain ⟨e', he', hs⟩ := h.grows.1 k _ hf
    obtain rfl : e' = e := Option.some.inj (he'.symm.trans he)
    refine ⟨.file c, hg, ?_⟩
    cases e' <;> simp_all [Entry.SameKind]

theorem grows_last (h : Rerun out w₁ f g l) : g.Grows l := by
  refine ⟨fun k e he => ?_, h.grows.2.trans h.directory.symm⟩
  rcases h.get?_eq k with hk | ⟨c, hg, hf⟩
  case inl => exact ⟨e, hk.symm.trans he, .refl e⟩
  case inr =>
    obtain rfl : Entry.file c = e := Option.some.inj (hg.symm.trans he)
    exact h.grows.1 k _ hf

theorem first_grows (h : Rerun out w₁ f g l) : f.Grows g :=
  IsTrans.trans _ _ _ h.grows h.last_grows

theorem second (h : Rerun out w₁ f g l) : Frame out w₁ g where
  linkless k target hg := by
    obtain ⟨e, he, hs⟩ := h.grows_last.1 k _ hg
    obtain rfl := Entry.SameKind.link_iff.mp hs
    exact h.last.linkless k target he
  directory := h.directory.trans h.first.directory
  get?_eq hk := by
    rcases h.get?_eq _ with he | ⟨c, hg, hf⟩
    case inl => exact he.trans (h.last.get?_eq hk)
    case inr => rw [hg, ← hf, h.first.get?_eq hk]

-- Where the build has ended, the files are as they have been left if none has changed since.
theorem files_eq (h : Rerun out w₁ f g l)
    (hk : ∀ k c, f.files.get? k = some (.file c) → l.files.get? k = some (.file c)) :
    g.files = l.files := by
  refine ext_get? fun k => ?_
  rcases h.get?_eq k with he | ⟨c, hg, hf⟩
  case inl => exact he
  case inr => rw [hg, hk k c hf]

-- What is found outside the output is found again.
theorem find_eq (h : Rerun out w₁ f g l) (ha : p.isAbsolute) (hn : ¬IsWithin out p.location)
    {y : Location × Entry} (hf : f.files.find f.directory p = .ok y) :
    g.files.find g.directory p = .ok y := by
  obtain ⟨m, e⟩ := y
  obtain rfl := h.first.linkless.find_location ha hf
  obtain ⟨e', hg, -⟩ := h.first_grows.1.find hf
  rw [h.first_grows.2.symm] at hg
  have he := get?_of_find hf
  have he' := get?_of_find hg
  rw [h.second.get?_eq hn, ← h.first.get?_eq hn, he] at he'
  rw [hg, Option.some.inj he']

theorem addsDirectories {P : Location → Prop} (h : Rerun out w₁ f g l)
    (ha : f.AddsDirectories P f') (hf : Frame out w₁ f') (hl : f'.Grows l) :
    Rerun out w₁ f' g l where
  first := hf
  last := h.last
  grows := hl
  directory := h.directory.trans ha.2.symm
  get?_eq k := (h.get?_eq k).imp_right fun ⟨c, hg, hf⟩ => ⟨c, hg, ha.1.get? hf⟩

-- A file is written anew.
theorem put {dir : Location} {name : String} {c : ByteArray} (h : Rerun out w₁ f g l)
    (hk : k ≠ []) (he : out ++ k = dir ++ [name]) (hf : f.files.Accepts dir name (.file c))
    (hg : g.files.Accepts dir name (.file c)) (hl : (f.put dir name (.file c)).Grows l) :
    Rerun out w₁ (f.put dir name (.file c)) (g.put dir name (.file c)) l where
  first := h.first.put hk he hf (by simp)
  last := h.last
  grows := hl
  directory := h.directory
  get?_eq m := by
    show (g.files.put dir name _).get? m = _ ∨ ∃ c', (g.files.put dir name _).get? m = _ ∧
      (f.files.put dir name _).get? m = _
    rw [get?_put hf, get?_put hg]
    by_cases hm : m = dir ++ [name]
    case pos => exact .inr ⟨c, by simp [hm]⟩
    case neg => simpa [hm] using h.get?_eq m

-- A failure comes again in the files that it has left, as these are all that there is.
theorem exec_again {ε α : Type} {x : Action ε α} {e : ε} (h : Rerun out w₁ f g f')
    (hi : IgnoresLog x) (hk : ∀ k c, f.files.get? k = some (.file c) →
      f'.files.get? k = some (.file c)) (hx : exec x f' = (.error e, f')) :
    ∃ g', exec x g = (.error e, g') ∧ Rerun out w₁ f' g' f' := by
  obtain ⟨h₁, h₂, h₃⟩ := hi.congr (h.files_eq hk) (h.directory.trans h.grows.2.symm)
  rw [hx] at h₁ h₂ h₃
  rcases hg : exec x g with ⟨y, g'⟩
  rw [hg] at h₁ h₂ h₃
  obtain rfl : y = .error e := h₁
  exact ⟨g', rfl, .of_last h.last h.last (Std.Refl.refl f') h₂ h₃⟩

end Rerun

namespace Repeats

variable {ε δ α β σ : Type} {x y : Action ε α}

-- Run again right after, the action does the same, and changes no file.
theorem again {y : Except ε α} (h : Repeats out w₁ x) (hr : Rerun out w₁ f g f')
    (hx : exec x f = (y, f')) :
    ∃ g', exec x g = (y, g') ∧ g'.files = f'.files := by
  cases y
  case error e =>
    obtain ⟨g', hg, hr'⟩ := h.error hr hx
    exact ⟨g', hg, hr'.files_eq fun _ _ => id⟩
  case ok a =>
    obtain ⟨g', hg, hr'⟩ := h.ok hr hx (Std.Refl.refl f')
    exact ⟨g', hg, hr'.files_eq fun _ _ => id⟩

-- What does the same wherever only the output has changed does so once more.
theorem of_const {r : Except ε α} (h : ∀ w, Frame out w₁ w → exec x w = (r, w)) :
    Repeats out w₁ x where
  keeps w hw := by
    rw [h w hw]
    exact ⟨hw, Std.Refl.refl w⟩
  ok {f g l f' a} hr hx _ := by
    obtain ⟨rfl, rfl⟩ : r = .ok a ∧ f = f' := by simpa [h f hr.first] using hx
    exact ⟨g, h g hr.second, hr⟩
  error {f g f' e} hr hx := by
    obtain ⟨rfl, rfl⟩ : r = .error e ∧ f = f' := by simpa [h f hr.first] using hx
    exact ⟨g, h g hr.second, hr⟩

theorem pure (a : α) : Repeats out w₁ (pure a : Action ε α) :=
  of_const fun _ _ => rfl

theorem throw (e : ε) : Repeats out w₁ (throw e : Action ε α) :=
  of_const fun _ _ => rfl

-- What is logged does not matter.
theorem of_log (hy : Repeats out w₁ y) (h : ∀ w, Frame out w₁ w →
    ∃ log, exec x w = ((exec y w).1, { (exec y w).2 with log })) : Repeats out w₁ x where
  keeps w hw := by
    obtain ⟨log, he⟩ := h w hw
    obtain ⟨hf, hg⟩ := hy.keeps w hw
    rw [he]
    exact ⟨hf.of_files rfl rfl, hg⟩
  ok {f g l f' a} hr hx hl := by
    obtain ⟨log, he⟩ := h f hr.first
    obtain ⟨log', he'⟩ := h g hr.second
    rcases hf : exec y f with ⟨r, u⟩
    rw [hf, hx] at he
    obtain ⟨rfl, rfl⟩ : .ok a = r ∧ f' = { u with log } := by simpa using he
    obtain ⟨g', hg, hr'⟩ := hy.ok hr hf hl
    rw [hg] at he'
    exact ⟨_, he', hr'.log⟩
  error {f g f' e} hr hx := by
    obtain ⟨log, he⟩ := h f hr.first
    obtain ⟨log', he'⟩ := h g hr.second
    rcases hf : exec y f with ⟨r, u⟩
    rw [hf, hx] at he
    obtain ⟨rfl, rfl⟩ : .error e = r ∧ f' = { u with log } := by simpa using he
    have hr : Rerun out w₁ f g u := hr.log
    obtain ⟨g', hg, hr'⟩ := hy.error hr hf
    rw [hg] at he'
    exact ⟨_, he', hr'.log⟩

theorem record (level : Log.Level) (message : String) :
    Repeats out w₁ (record level message : Action ε Unit) :=
  of_log (.pure ()) fun _ _ => ⟨_, exec_record level message _⟩

theorem bind {k : α → Action ε β} (hx : Repeats out w₁ x) (hk : ∀ a, Repeats out w₁ (k a)) :
    Repeats out w₁ (x >>= k) where
  keeps := hx.keeps.bind fun a => (hk a).keeps
  ok {f g l f'' b} hr h hl := by
    obtain ⟨a, f', hf, h⟩ := exec_bind_eq_ok.mp h
    obtain ⟨hframe, -⟩ := hx.keeps.of_exec hf hr.first
    obtain ⟨-, hgrows⟩ := (hk a).keeps.of_exec h hframe
    obtain ⟨g', hg, hr'⟩ := hx.ok hr hf (IsTrans.trans _ _ _ hgrows hl)
    obtain ⟨g'', hg', hr''⟩ := (hk a).ok hr' h hl
    exact ⟨g'', exec_bind_eq_ok.mpr ⟨a, g', hg, hg'⟩, hr''⟩
  error {f g f'' e} hr h := by
    rw [exec_bind] at h
    rcases hf : exec x f with ⟨e' | a, f'⟩ <;> rw [hf] at h
    case error =>
      obtain ⟨rfl, rfl⟩ : e' = e ∧ f' = f'' := by simpa using h
      obtain ⟨g', hg, hr'⟩ := hx.error hr hf
      exact ⟨g', exec_bind_of_error hg, hr'⟩
    case ok =>
      obtain ⟨hframe, -⟩ := hx.keeps.of_exec hf hr.first
      obtain ⟨-, hgrows⟩ := (hk a).keeps.of_exec h hframe
      obtain ⟨g', hg, hr'⟩ := hx.ok hr hf hgrows
      obtain ⟨g'', hg', hr''⟩ := (hk a).error hr' h
      exact ⟨g'', (exec_bind_of_ok hg).trans hg', hr''⟩

theorem orElseThrow {x : Action δ α} {tell : δ → ε} (hx : Repeats out w₁ x) :
    Repeats out w₁ (x.orElseThrow tell) where
  keeps := hx.keeps.orElseThrow
  ok hr h hl := by
    obtain ⟨g', hg, hr'⟩ := hx.ok hr (exec_orElseThrow_eq_ok.mp h) hl
    exact ⟨g', exec_orElseThrow_of_ok hg, hr'⟩
  error {f g f' e} hr h := by
    rw [exec_orElseThrow] at h
    rcases hf : exec x f with ⟨e' | a, f''⟩ <;> rw [hf] at h
    case error =>
      obtain ⟨rfl, rfl⟩ : tell e' = e ∧ f'' = f' := by simpa [Except.mapError] using h
      obtain ⟨g', hg, hr'⟩ := hx.error hr hf
      exact ⟨g', exec_orElseThrow_of_error hg, hr'⟩
    case ok => simp [Except.mapError] at h

theorem foldlM {k : σ → β → Action ε σ} {bs : List β} (h : ∀ b ∈ bs, ∀ a, Repeats out w₁ (k a b))
    (a : σ) : Repeats out w₁ (bs.foldlM k a) := by
  induction bs generalizing a
  case nil => exact .pure a
  case cons b bs hi =>
    exact (h b List.mem_cons_self a).bind (hi fun b hb => h b (List.mem_cons_of_mem _ hb))

-- What only reads outside the output does so once more.
theorem of_reads {P : Path → Prop} (hx : Reads P x)
    (hp : ∀ p, P p → p.isAbsolute ∧ ¬IsWithin out p.location) : Repeats out w₁ x where
  keeps w hw := by
    rw [hx.world]
    exact ⟨hw, Std.Refl.refl w⟩
  ok {f g l f' a} hr h hl := by
    obtain rfl : f' = f := by rw [← hx.world f, h]
    refine ⟨g, Prod.ext ?_ (hx.world g), hr⟩
    refine hx.ok f' g (fun p hm y hy => ?_) a (by rw [h])
    exact hr.find_eq (hp p hm).1 (hp p hm).2 hy
  error {f g f' e} hr h := by
    obtain rfl : f' = f := by rw [← hx.world f, h]
    exact hr.exec_again hx.ignoresLog (fun _ _ => id) h

-- A file of the output is written once more if it can be written at all.
theorem of_put {x : Action ε Unit} {dir : Location} {name : String} {c : ByteArray}
    (hi : IgnoresLog x) (hk : k ≠ []) (he : out ++ k = dir ++ [name])
    (hc : ∀ w, Frame out w₁ w →
      (∃ e, exec x w = (.error e, w)) ∨ w.files.Writable dir name)
    (hp : ∀ w, Frame out w₁ w → w.files.Writable dir name →
      exec x w = (.ok (), w.put dir name (.file c))) : Repeats out w₁ x where
  keeps w hw := by
    rcases hc w hw with ⟨e, h⟩ | h
    case inl =>
      rw [h]
      exact ⟨hw, Std.Refl.refl w⟩
    case inr =>
      rw [hp w hw h]
      refine ⟨hw.put hk he h.accepts (by simp), World.grows_put fun y hy => ?_⟩
      cases y
      case directory => exact absurd hy h.not_directory
      case file => trivial
      case link => exact absurd hy (hw.linkless _ _)
  ok {f g l f' a} hr h hl := by
    have hw : f.files.Writable dir name := by
      refine (hc f hr.first).resolve_left ?_
      rintro ⟨e, he⟩
      simp [he] at h
    have hput := hp f hr.first hw
    obtain rfl : f.put dir name (.file c) = f' := (Prod.ext_iff.mp (hput.symm.trans h)).2
    have hg : g.files.Writable dir name := by
      refine ⟨hw.isName, hr.first_grows.1.directory hw.directory, fun hd => ?_, hw.isShort⟩
      have hf : (f.put dir name (.file c)).files.get? (dir ++ [name]) = some (.file c) :=
        (get?_put hw.accepts).trans (if_pos rfl)
      obtain ⟨e, he, hs⟩ := hl.1 _ _ hf
      rw [hr.grows_last.1.directory hd] at he
      obtain rfl := Option.some.inj he
      exact hs
    exact ⟨_, hp g hr.second hg, hr.put hk he hw.accepts hg.accepts hl⟩
  error {f g f' e} hr h := by
    rcases hc f hr.first with ⟨e', h'⟩ | hw
    case inl =>
      obtain rfl : f = f' := (Prod.ext_iff.mp (h'.symm.trans h)).2
      exact hr.exec_again hi (fun _ _ => id) h
    case inr => simp [hp f hr.first hw] at h

-- Directories that have been made in the output are there.
theorem makeDirectories (ho : w₁.files.get? out = some .directory) (hp : IsPlain (out ++ k))
    (hd : IsStraight (out ++ k).dropLast) :
    Repeats out w₁ (Disk.makeDirectories (out ++ k).toPath) where
  keeps w hw := by
    have ha := Disk.keeps_makeDirectories_toPath hp hd w hw.linkless
    exact ⟨hw.addsDirectories ho ha, ha.grows⟩
  ok {f g l f' a} hr h hl := by
    have ha := (Disk.keeps_makeDirectories_toPath hp hd).of_exec h hr.first.linkless
    exact ⟨g, Disk.makeDirectories_of_grows h (IsTrans.trans _ _ _ hl hr.last_grows),
      hr.addsDirectories ha (hr.first.addsDirectories ho ha) hl⟩
  error {f g f' e} hr h := by
    have ha := (Disk.keeps_makeDirectories_toPath hp hd).of_exec h hr.first.linkless
    exact hr.exec_again Disk.ignoresLog_makeDirectories (fun _ _ => ha.1.get?)
      (Disk.exec_makeDirectories_toPath_again hr.first.linkless hp hd h)

theorem write {dir : Location} {name : String} {c : ByteArray} (hk : k ≠ [])
    (he : out ++ k = dir ++ [name]) (hd : dir.IsStraight) (hn : Path.IsStep name) :
    Repeats out w₁ (Disk.write (dir ++ [name]).toPath c) :=
  of_put Disk.ignoresLog_write hk he
    (fun _ hw => Disk.write_toPath_cases hw.linkless hd hn c)
    (fun _ hw h => Disk.write_toPath hw.linkless h c)

-- What is not in the output is copied once more.
theorem copy {dir src : Location} {name : String} (hw₁ : w₁.files.Linkless) (hk : k ≠ [])
    (he : out ++ k = dir ++ [name]) (hd : dir.IsStraight) (hn : Path.IsStep name)
    (hs : src.IsStraight) (hsrc : ¬IsWithin out src) :
    Repeats out w₁ (Disk.copy src.toPath (dir ++ [name]).toPath) := by
  have hf (w) (hw : Frame out w₁ w) : w.files.find w.directory src.toPath =
      w₁.files.find w₁.directory src.toPath := by
    refine hw.find_eq hw₁ isAbsolute_toPath ?_ ?_ <;> rw [hs.isPlain.steps_toPath]
    · exact fun hm => (hs _ hm).2 rfl
    · exact hsrc
  rcases hx : w₁.files.find w₁.directory src.toPath with x | ⟨m, _ | old | _⟩ <;> rw [hx] at hf
  case ok.file =>
    refine of_put (c := old) Disk.ignoresLog_copy hk he (fun w hw => ?_) fun w hw h => ?_
    · exact (Disk.copy_toPath_cases hw.linkless hd hn src.toPath).imp_right And.left
    · refine Disk.copy_toPath hw.linkless h (hf w hw) ?_
      rintro rfl
      obtain ⟨hm, -⟩ := hw₁.find_toPath hs hx
      refine hsrc (hm ▸ ⟨he ▸ List.prefix_append out k, ?_⟩)
      rw [← he]
      simpa using hk
  case error =>
    refine of_const (r := .error x) fun w hw => ?_
    rw [Disk.copy, exec_bind, Disk.exec_ask, hf w hw]
  all_goals
    refine of_const (r := .error .invalidInput) fun w hw => ?_
    rw [Disk.copy, exec_bind, Disk.exec_ask, hf w hw]
    exact exec_throw _ _

end Repeats

end StaticSite.Build
