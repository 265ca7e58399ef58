import StaticSite.Proofs.Build.Perform
import StaticSite.Proofs.Disk.Again
import StaticSite.Proofs.Unlogged
/-!
What a build does before it starts to work on the source, once and again. Main statements: a build
that has been prepared is prepared in the same way again as long as its configuration stays and
nothing is taken away (`exec_prepare_of_grows`), and where there are no links, a failure to prepare
a build comes again, with one exception (`exec_prepare_again`).
-/
namespace StaticSite.Build

open FileSystem Action Location

-- What a build does before it starts to work on the source.
def prepare (source output : Path) : Action Error Session := do
  let config ← (SiteConfig.loadFrom source).orElseThrow .config
  let canonicalSource ← (Disk.canonical source).orElseThrow (.io source)
  makeDirectory output
  let canonicalOutput ← (Disk.canonical output).orElseThrow (.io output)
  if canonicalSource.same canonicalOutput then throw (.outputIsSource canonicalSource)
  else return .ofConfig canonicalSource canonicalOutput config

theorem site_eq_prepare_run (source output : Path) :
    site source output = prepare source output >>= run := by
  unfold site prepare
  simp only [bind_assoc]
  congr! 8
  split <;> simp

-- The second half of the preparation, once the source is known.
def settle (source output : Path) (config : SiteConfig) : Action Error Session := do
  makeDirectory output
  let canonicalOutput ← (Disk.canonical output).orElseThrow (.io output)
  if source.same canonicalOutput then throw (.outputIsSource source)
  else return .ofConfig source canonicalOutput config

-- What that comes to once the output has been made.
def settled (source output : Path) (config : SiteConfig) (w : World) : Except Error Session :=
  match w.files.find w.directory output with
  | .error x => .error (.io output x)
  | .ok (out, _) =>
    if source.same out.toPath then .error (.outputIsSource source)
    else .ok (.ofConfig source out.toPath config)

-- What the first half comes to: the configuration and the source are only looked for.
structure Found (source : Path) (w : World) (config : SiteConfig) (src : Location) : Prop where
  load : (exec (SiteConfig.loadFrom source) w).1 = .ok config
  find : ∃ e, w.files.find w.directory source = .ok (src, e)

variable {s : Session} {source output p : Path} {src : Location} {w v w₁ : World} {e : Error}
  {x : Except Error Session} {config : SiteConfig}

theorem reads_load : Reads (· = p) (SiteConfig.load p) := by
  refine Reads.bind (Disk.reads_readText.orElseThrow) fun text => ?_
  split
  · exact .pure _
  · exact .throw _

theorem exec_loadFrom (source : Path) (w : World) :
    ∃ log, exec (SiteConfig.loadFrom source) w =
      (if Disk.isFile (source / SiteConfig.fileName) w then
          (exec (SiteConfig.load (source / SiteConfig.fileName)) w).1
        else .ok {}, { w with log }) := by
  rw [SiteConfig.loadFrom, exec_bind_of_ok (exec_get w)]
  split
  case isTrue => exact ⟨w.log, Prod.ext rfl (reads_load.world w)⟩
  case isFalse => exact ⟨_, rfl⟩

theorem keeps_loadFrom :
    Keeps (World.AddsDirectories fun _ => False) (SiteConfig.loadFrom source) := by
  intro w
  obtain ⟨log, h⟩ := exec_loadFrom source w
  rw [h]
  exact ⟨.refl _ w.files, rfl⟩

-- A configuration is the same if its file is.
theorem loadFrom_congr (h : ∀ l c,
    v.files.find v.directory (source / SiteConfig.fileName) = .ok (l, .file c) ↔
      w.files.find w.directory (source / SiteConfig.fileName) = .ok (l, .file c)) :
    (exec (SiteConfig.loadFrom source) v).1 = (exec (SiteConfig.loadFrom source) w).1 := by
  obtain ⟨_, hv⟩ := exec_loadFrom source v
  obtain ⟨_, hw⟩ := exec_loadFrom source w
  have hi : Disk.isFile (source / SiteConfig.fileName) v ↔
      Disk.isFile (source / SiteConfig.fileName) w := by
    rw [Disk.isFile_iff, Disk.isFile_iff]
    exact exists_congr fun l => exists_congr fun c => h l c
  rw [hv, hw]
  by_cases hf : Disk.isFile (source / SiteConfig.fileName) w
  case neg => simp [hi, hf]
  case pos =>
    obtain ⟨l, c, hl⟩ := Disk.isFile_iff.mp hf
    simp only [hi, hf, if_true]
    refine reads_load.congr v w fun q hq => ?_
    rw [hq, hl, (h l c).mpr hl]

theorem keeps_prepare (source output : Path) :
    Keeps (World.AddsDirectories fun _ => True) (prepare source output) := by
  have hl : Keeps (World.AddsDirectories fun _ => True) (SiteConfig.loadFrom source) :=
    keeps_loadFrom.mono fun h => h.mono fun _ => False.elim
  refine hl.orElseThrow.bind fun config => Disk.keeps_canonical.orElseThrow.bind fun src => ?_
  refine keeps_makeDirectory.bind fun _ => Keeps.bind Disk.keeps_canonical.orElseThrow fun out => ?_
  split
  · exact .throw _
  · exact .pure _

theorem Found.exec_prepare (h : Found source w config src) (output : Path) :
    ∃ log, exec (prepare source output) w =
      exec (settle src.toPath output config) { w with log } := by
  obtain ⟨log, hl⟩ := exec_loadFrom source w
  obtain ⟨e, he⟩ := h.find
  have hl' : exec (SiteConfig.loadFrom source) w = (.ok config, { w with log }) := by
    rw [hl, ← h.load, hl]
  have hc : exec (Disk.canonical source) { w with log } = (.ok src.toPath, { w with log }) :=
    Disk.exec_canonical_eq_ok.mpr ⟨rfl, src, e, he, rfl⟩
  refine ⟨log, ?_⟩
  rw [prepare, exec_bind_of_ok (exec_orElseThrow_of_ok hl'),
    exec_bind_of_ok (exec_orElseThrow_of_ok hc), settle]

-- If they are not found, nothing is made.
theorem exec_prepare_cases (source output : Path) (w : World) :
    (∃ config src, Found source w config src) ∨
      ∃ e log, exec (prepare source output) w = (.error e, { w with log }) ∧
        ((∃ x, (exec (SiteConfig.loadFrom source) w).1 = .error x ∧ e = .config x) ∨
          ∃ x, w.files.find w.directory source = .error x ∧ e = .io source x) := by
  obtain ⟨log, hl⟩ := exec_loadFrom source w
  rcases hx : exec (SiteConfig.loadFrom source) w with ⟨x | config, u⟩ <;> rw [hx] at hl <;>
    obtain rfl : u = { w with log } := (Prod.ext_iff.mp hl).2
  case error =>
    refine .inr ⟨.config x, log, ?_, .inl ⟨x, rfl, rfl⟩⟩
    exact exec_bind_of_error (exec_orElseThrow_of_error hx)
  case ok =>
    rcases hf : w.files.find w.directory source with y | ⟨src, e⟩
    case ok => exact .inl ⟨config, src, by rw [hx], e, hf⟩
    case error =>
      refine .inr ⟨.io source y, log, ?_, .inr ⟨y, rfl, rfl⟩⟩
      have hc : exec (Disk.canonical source) { w with log } = (.error y, { w with log }) := by
        rw [Disk.canonical, exec_bind, Disk.exec_ask, hf]
      rw [prepare, exec_bind_of_ok (exec_orElseThrow_of_ok hx),
        exec_bind_of_error (exec_orElseThrow_of_error hc)]

-- Nothing is made but the output.
theorem exec_settle (p output : Path) (config : SiteConfig) (w : World) :
    exec (settle p output config) w = match exec (Disk.makeDirectories output) w with
      | (.error x, v) => (.error (.makeDirectory output x), v)
      | (.ok _, v) => (settled p output config v, v) := by
  rcases hm : exec (Disk.makeDirectories output) w with ⟨x | _, v⟩
  case error => exact exec_bind_of_error (exec_orElseThrow_of_error hm)
  case ok =>
    refine (exec_bind_of_ok (exec_orElseThrow_of_ok hm)).trans ?_
    dsimp only
    rw [settled, exec_bind, exec_orElseThrow, Disk.canonical, exec_bind, Disk.exec_ask]
    rcases v.files.find v.directory output with x | ⟨out, e⟩
    case error => rfl
    case ok =>
      dsimp only [Except.mapError, exec_pure]
      split <;> rfl

-- Once it has been made, the output is there, unless its path is empty. So it is later on.
theorem settled_cases (p : Path) (config : SiteConfig)
    (h : exec (Disk.makeDirectories output) w = (.ok (), v)) :
    v = w ∧ (∀ u, settled p output config u = .error (.io output .notFound)) ∨
      ∃ out, v.files.find v.directory output = .ok (out, .directory) ∧
        ∀ u, v.Grows u → settled p output config u =
          if p.same out.toPath then .error (.outputIsSource p)
          else .ok (.ofConfig p out.toPath config) := by
  rcases Disk.find_of_makeDirectories h with ⟨rfl, hv⟩ | ⟨out, ho⟩
  case inl => exact .inl ⟨hv, fun u => rfl⟩
  case inr =>
    refine .inr ⟨out, ho, fun u hu => ?_⟩
    obtain ⟨e, he, -⟩ := hu.1.find ho
    rw [settled, hu.2, he]

theorem settle_eq_ok (h : exec (settle p output config) w = (.ok s, w₁)) :
    ∃ out, w₁.files.find w₁.directory output = .ok (out, .directory) ∧
      s = .ofConfig p out.toPath config ∧ ¬p.same out.toPath := by
  rw [exec_settle] at h
  rcases hm : exec (Disk.makeDirectories output) w with ⟨x | _, v⟩ <;> rw [hm] at h <;>
    dsimp only at h
  case error => simp at h
  case ok =>
    obtain ⟨hs, rfl⟩ := Prod.mk.inj h
    rcases settled_cases p config hm with ⟨-, hx⟩ | ⟨out, ho, hx⟩
    case inl => simp [hx] at hs
    case inr =>
      rw [hx v (Std.Refl.refl v)] at hs
      split at hs
      case isTrue => simp at hs
      case isFalse hn => exact ⟨out, ho, (Except.ok.inj hs).symm, hn⟩

-- A session that has been prepared has been settled with what was found.
theorem exists_settle_of_prepare_eq_ok (h : exec (prepare source output) w = (.ok s, w₁)) :
    ∃ config src log, Found source w config src ∧
      exec (settle src.toPath output config) { w with log } = (.ok s, w₁) := by
  rcases exec_prepare_cases source output w with ⟨config, src, hfound⟩ | ⟨e, log, he, -⟩
  case inr => simp [he] at h
  case inl =>
    obtain ⟨log, hs⟩ := hfound.exec_prepare output
    exact ⟨config, src, log, hfound, hs.symm.trans h⟩

-- It works from where the source is into the directory at the output, once that has been made.
theorem prepare_eq_ok (h : exec (prepare source output) w = (.ok s, w₁)) :
    ∃ src e out config, w.files.find w.directory source = .ok (src, e) ∧
      w₁.files.find w₁.directory output = .ok (out, .directory) ∧
      s = .ofConfig src.toPath out.toPath config ∧ src ≠ out := by
  obtain ⟨config, src, log, hfound, hs⟩ := exists_settle_of_prepare_eq_ok h
  obtain ⟨e, he⟩ := hfound.find
  obtain ⟨out, ho, rfl, hn⟩ := settle_eq_ok hs
  refine ⟨src, e, out, config, he, ho, rfl, ?_⟩
  rintro rfl
  exact hn (Path.same_refl _)

theorem between_of_prepare_eq_ok (h : exec (prepare source output) w = (.ok s, w₁)) :
    s.Between s.source.steps s.output.steps := by
  obtain ⟨src, e, out, config, hs, ho, rfl, hne⟩ := prepare_eq_ok h
  have hs := isStraight_of_find hs
  have ho := isStraight_of_find ho
  have he : (toPath src).steps = src := hs.isPlain.steps_toPath
  have he' : (toPath out).steps = out := ho.isPlain.steps_toPath
  constructor <;> simp_all [Session.ofConfig]

theorem steps_source_of_prepare_eq_ok {e : Entry}
    (h : exec (prepare source output) w = (.ok s, w₁))
    (hs : w.files.find w.directory source = .ok (src, e)) : s.source.steps = src := by
  obtain ⟨k, e', out, config, hk, -, rfl, -⟩ := prepare_eq_ok h
  obtain ⟨rfl, -⟩ : k = src ∧ e' = e := by simpa [hk] using hs
  exact (isStraight_of_find hk).isPlain.steps_toPath

-- What is known of the configuration and the layouts once a build has been prepared.
theorem found_of_prepare_eq_ok (h : exec (prepare source output) w = (.ok s, w₁)) :
    Found source w s.site s.source.steps ∧ s.layouts = s.source / s.site.layouts := by
  obtain ⟨config, src, log, hfound, hs⟩ := exists_settle_of_prepare_eq_ok h
  obtain ⟨e, he⟩ := hfound.find
  have hsrc := steps_source_of_prepare_eq_ok h he
  obtain ⟨out, -, rfl, -⟩ := settle_eq_ok hs
  exact ⟨hsrc.symm ▸ hfound, rfl⟩

-- The source of a session that has been prepared is there, and it is no link.
theorem get?_source_of_prepare_eq_ok (h : exec (prepare source output) w = (.ok s, w₁)) :
    ∃ e, w₁.files.get? s.source.steps = some e ∧ ∀ target, e ≠ .link target := by
  obtain ⟨src, e, -, -, hf, -⟩ := prepare_eq_ok h
  have hg := get?_of_find hf
  rw [steps_source_of_prepare_eq_ok h hf]
  exact ⟨e, ((keeps_prepare source output).of_exec h).1.get? hg, fun _ => ne_link_of_find hf⟩

theorem get?_output_of_prepare_eq_ok (h : exec (prepare source output) w = (.ok s, w₁)) :
    w₁.files.get? s.output.steps = some .directory := by
  obtain ⟨src, e, out, config, -, ho, rfl, -⟩ := prepare_eq_ok h
  have hg := get?_of_find ho
  have hs : (toPath out).steps = out := (isStraight_of_get? hg).isPlain.steps_toPath
  exact hs.symm ▸ hg

theorem isAbsolute_layouts_of_prepare_eq_ok
    (h : exec (prepare source output) w = (.ok s, w₁)) : s.layouts.isAbsolute := by
  obtain ⟨src, e, out, config, -, -, rfl, -⟩ := prepare_eq_ok h
  exact Path.isAbsolute_div isAbsolute_toPath

theorem ignoresLog_settle : IgnoresLog (settle p output config) := by
  refine ignoresLog_makeDirectory.bind fun _ => ?_
  refine Disk.ignoresLog_canonical.orElseThrow.bind fun q => ?_
  split
  · exact .throw _
  · exact .pure _

theorem ignoresLog_prepare (source output : Path) : IgnoresLog (prepare source output) := by
  have hl : IgnoresLog (SiteConfig.loadFrom source) := by
    refine .get_bind (fun _ _ => rfl) fun w => ?_
    split
    · exact reads_load.ignoresLog
    · exact (IgnoresLog.record _ _).bind fun _ => .pure _
  refine hl.orElseThrow.bind fun config => ?_
  refine Disk.ignoresLog_canonical.orElseThrow.bind fun src => ?_
  exact ignoresLog_settle

-- They are found again as long as they stay and nothing is taken away.
theorem Found.of_grows (h : Found source w config src) (hf : w.files.Linkless)
    (hv : v.files.Linkless) (hg : w.Grows v)
    (hc : v.files.get? (src ++ [SiteConfig.fileName.text]) =
        w.files.get? (src ++ [SiteConfig.fileName.text]) ∨
      v.files.get? (src ++ [SiteConfig.fileName.text]) = some .directory) :
    Found source v config src := by
  obtain ⟨e, he⟩ := h.find
  have hk : IsStraight [SiteConfig.fileName.text] := by decide
  have hp : source / SiteConfig.fileName = source / toRelative [SiteConfig.fileName.text] :=
    Path.below_name
  refine ⟨?_, ?_⟩
  · rw [← h.load]
    refine loadFrom_congr fun l c => ?_
    rw [hg.2, hp]
    exact find_file_below_iff hf hv hg.1 he hk (by simp) hc
  · obtain ⟨e', he', -⟩ := hg.1.find he
    exact ⟨e', hg.2 ▸ he'⟩

-- Only making the output can do anything. What comes after it is the same from then on.
theorem exec_settle_cases (h : exec (settle p output config) w = (x, w₁)) :
    (∃ y, x = .error (.makeDirectory output y) ∧
      exec (Disk.makeDirectories output) w = (.error y, w₁)) ∨
      ∀ v, w₁.Grows v → exec (settle p output config) v = (x, v) := by
  rw [exec_settle] at h
  rcases hm : exec (Disk.makeDirectories output) w with ⟨y | _, u⟩ <;> rw [hm] at h <;>
    obtain ⟨rfl, rfl⟩ := Prod.mk.inj h
  case error => exact .inl ⟨y, rfl, rfl⟩
  case ok =>
    refine .inr fun v hv => ?_
    rw [exec_settle, Disk.makeDirectories_of_grows hm hv]
    rcases settled_cases p config hm with ⟨-, hx⟩ | ⟨out, -, hx⟩
    case inl => simp only [hx]
    case inr => simp only [hx v hv, hx u (Std.Refl.refl u)]

-- A build that has been prepared is prepared again, and nothing more is made.
theorem exec_prepare_of_grows (hf : w.files.Linkless) (hv : v.files.Linkless)
    (h : exec (prepare source output) w = (.ok s, w₁)) (hg : w₁.Grows v)
    (hc : v.files.get? (s.source.steps ++ [SiteConfig.fileName.text]) =
      w₁.files.get? (s.source.steps ++ [SiteConfig.fileName.text])) :
    ∃ log, exec (prepare source output) v = (.ok s, { v with log }) := by
  have ha := (keeps_prepare source output).of_exec h
  obtain ⟨config, src, log, hfound, hs⟩ := exists_settle_of_prepare_eq_ok h
  obtain ⟨e, he⟩ := hfound.find
  rw [steps_source_of_prepare_eq_ok h he] at hc
  have hfound' : Found source v config src := by
    refine hfound.of_grows hf hv (IsTrans.trans _ _ _ ha.grows hg) ?_
    exact (ha.1 _).imp hc.trans fun h => hc.trans h.2.2
  obtain ⟨log', hs'⟩ := hfound'.exec_prepare output
  rcases exec_settle_cases hs with ⟨y, hy, -⟩ | hx
  case inl => simp at hy
  case inr => exact ⟨log', hs'.trans (hx _ hg)⟩

-- Where there are no links, a failure to prepare a build comes again, and nothing more is made.
-- Only the way to an output that leads up again may fail in another way.
theorem exec_prepare_again (hf : w.files.Linkless)
    (h : exec (prepare source output) w = (.error e, w₁)) :
    ∃ e' log, exec (prepare source output) w₁ = (.error e', { w₁ with log }) ∧ (e' = e ∨
      e = .makeDirectory output .alreadyExists ∧ e' = .makeDirectory output .notADirectory ∧
        ∃ q, output.parent? = some q ∧ ".." ∈ q.pieces) := by
  have ha := (keeps_prepare source output).of_exec h
  rcases exec_prepare_cases source output w with ⟨config, src, hfound⟩ | ⟨e', log, he, -⟩
  case inr =>
    obtain ⟨rfl, rfl⟩ : e' = e ∧ { w with log } = w₁ := by simpa [he] using h
    obtain ⟨log', hl⟩ := ignoresLog_prepare source output w log
    exact ⟨e', log', by rw [hl, he], .inl rfl⟩
  case inl =>
    have hfound' : Found source w₁ config src :=
      hfound.of_grows hf (ha.1.linkless hf) ha.grows ((ha.1 _).imp_right fun h => h.2.2)
    obtain ⟨log, hs⟩ := hfound.exec_prepare output
    obtain ⟨log', hs'⟩ := hfound'.exec_prepare output
    rcases exec_settle_cases (hs.symm.trans h) with ⟨y, hy, hm⟩ | hx
    case inr => exact ⟨e, log', hs'.trans (hx _ ⟨.refl w₁.files, rfl⟩), .inl rfl⟩
    case inl =>
      obtain rfl := Except.error.inj hy
      have hf' : FileSystem.Linkless { w with log }.files := hf
      obtain ⟨y', hy', hcases⟩ := Disk.exec_makeDirectories_again hf' hm
      obtain ⟨log'', hl⟩ := Disk.ignoresLog_makeDirectories (p := output) w₁ log'
      rw [hy'] at hl
      refine ⟨.makeDirectory output y', log'', ?_, ?_⟩
      · exact hs'.trans (exec_bind_of_error (exec_orElseThrow_of_error hl))
      · exact hcases.imp (fun h => by rw [h]) fun ⟨h₁, h₂, h₃⟩ => ⟨by rw [h₁], by rw [h₂], h₃⟩

end StaticSite.Build
