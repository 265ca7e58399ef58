import StaticSite.Proofs.Disk.Adds
import StaticSite.Proofs.Disk.Missing
import StaticSite.Proofs.FileSystem.Children
import StaticSite.Proofs.Skeleton.Create
/-!
Creating a new site where nothing is. Main statement: the site is created, and all that is below its
root is its tree (`exists_create`), unless its paths are too long (`exec_create_of_long`).
-/
namespace StaticSite.Skeleton

open FileSystem Action Location

variable {root : Path} {text : String} {w u v : World} {l k dir : Location} {name : String}
  {e : Entry} {xs : List (Location × Entry)}

-- A site can be created where there is an empty directory, or nothing and a directory can be made.
inductive IsFree (w : World) (root : Path) : Prop
  | empty (l : Location) (h : w.files.find w.directory root = .ok (l, .directory))
    (hl : w.files.children l = [])
  | missing (h : ∀ l e, w.files.find w.directory root ≠ .ok (l, e)) (u : World)
    (hu : exec (Disk.makeDirectories root) w = (.ok (), u))

-- All that is below the root of a new site.
def tree : List (Location × Entry) :=
  [(["config.yaml"], .file config.toUTF8), (["index.md"], .file home.toUTF8),
   (["layouts"], .directory), (["layouts", "layout.html"], .file layout.toUTF8)]

-- The root is a directory, and these are the entries below it.
structure Holds (w : World) (root : Path) (l : Location) (xs : List (Location × Entry)) : Prop where
  find_eq : w.files.find w.directory root = .ok (l, .directory)
  get?_eq : ∀ k ≠ [], w.files.get? (l ++ k) = xs.lookup k

namespace Holds

theorem get?_of_lookup (h : Holds w root l xs) (hd : dir = [] ∨ xs.lookup dir = some .directory) :
    w.files.get? (l ++ dir) = some .directory := by
  by_cases hn : dir = []
  case pos => rw [hn, List.append_nil, get?_of_find h.find_eq]
  case neg => rw [h.get?_eq dir hn, hd.resolve_left hn]

theorem adds (h : Holds w root l xs) (ha : w.Adds (l ++ k) e v) :
    Holds v root l ((k, e) :: xs) where
  find_eq := ha.find_directory h.find_eq
  get?_eq m hm := by
    rw [ha.get?_eq, h.get?_eq m hm, List.lookup_cons]
    by_cases hk : m = k
    case pos => simp [hk]
    case neg => simp [hk, beq_eq_false_iff_ne.mpr hk]

theorem logged (h : Holds w root l xs) (log : Log) : Holds { w with log } root l xs :=
  ⟨h.find_eq, h.get?_eq⟩

theorem of_find (h : w.files.find w.directory root = .ok (l, .directory)) :
    Holds w root l (w.files.below l) where
  find_eq := h
  get?_eq k hk := by
    refine Option.ext fun e => ?_
    rw [Keyed.lookup_eq_some_iff sorted_below, mem_below, and_iff_right hk]

theorem of_vacant (h : w.files.find w.directory root = .ok (l, .directory))
    (hv : ∀ name, w.files.get? (l ++ [name]) = none) : Holds w root l [] where
  find_eq := h
  get?_eq k hk := by
    obtain ⟨name, k, rfl⟩ := List.exists_cons_of_ne_nil hk
    by_cases hn : k = []
    case pos => exact hn ▸ hv name
    case neg => simpa using get?_append_of_none (hv name) hn

theorem below_eq (h : Holds w root l xs) {ys : List (Location × Entry)} (hs : Keyed.Sorted ys)
    (hsub : xs ⊆ ys) (hy : ∀ x ∈ ys, x.1 ≠ [] ∧ xs.lookup x.1 = some x.2) :
    w.files.below l = ys := by
  refine eq_of_mem_iff sorted_below hs fun ⟨k, e⟩ => ?_
  rw [mem_below]
  constructor
  · rintro ⟨hk, hg⟩
    obtain ⟨xs₁, xs₂, hx, -⟩ := List.lookup_eq_some_iff.mp ((h.get?_eq k hk).symm.trans hg)
    exact hsub (hx ▸ by simp)
  · intro hm
    obtain ⟨hk, hl⟩ := hy _ hm
    exact ⟨hk, (h.get?_eq k hk).trans hl⟩

end Holds

theorem IsFree.exists_holds (h : IsFree w root) (hne : root.text ≠ "") (hp : ".." ∉ root.pieces) :
    ∃ u l, exec (Disk.makeDirectories root.trimmed) w = (.ok (), u) ∧ w.Grows u ∧
      Holds u root l [] := by
  cases h
  case empty l h hl =>
    refine ⟨w, l, Disk.makeDirectories_trimmed_of_find h, Std.Refl.refl w,
      .of_vacant h fun name => Option.eq_none_iff_forall_ne_some.mpr fun e he => ?_⟩
    have hm := mem_children.mpr he
    simp [hl] at hm
  case missing h u hu =>
    obtain ⟨l, hl, hv⟩ := Disk.exists_of_makeDirectories hne hp h hu
    exact ⟨u, l, Disk.makeDirectories_trimmed_of_missing hne hp h hu,
      (Disk.keeps_makeDirectories.of_exec hu).grows, .of_vacant hl hv⟩

-- The layout of a site whose layouts are where they are in a new one.
theorem layoutPath_below (root : Path) :
    Layout.path (root / "layouts") EffectiveConfig.defaultLayout =
      root / toRelative ["layouts", "layout.html"] := by
  have hn : Layout.path (root / "layouts") EffectiveConfig.defaultLayout =
      root / ⟨"layouts"⟩ / ⟨"layout.html"⟩ := rfl
  have hl : IsStraight ["layouts"] := by decide
  have hf : IsStraight ["layout.html"] := by decide
  rw [hn, Path.below_name (p := root), Path.below_name,
    Path.below_below hl.isPlain hf.isPlain (by simp) (by simp)]
  rfl

-- The files of a new site as seen from its root.
theorem files_eq (root : Path) : files root =
    [(root / toRelative ["config.yaml"], config),
     (root / toRelative ["layouts", "layout.html"], layout),
     (root / toRelative ["index.md"], home)] := by
  have hn (n : String) : root / ⟨n⟩ = root / toRelative [n] := Path.below_name
  rw [files, layoutPath_below, ← hn "config.yaml", ← hn "index.md"]
  rfl

theorem makeParent_name (root : Path) {name : String} (hn : IsName name) :
    makeParent (root / toRelative [name]) = Disk.makeDirectories root.trimmed := by
  rw [makeParent, Path.parent?_below_name hn.isStep]

theorem makeParent_layout (root : Path) :
    makeParent (root / toRelative ["layouts", "layout.html"]) =
      Disk.makeDirectories (root / toRelative ["layouts"]) := by
  have hl : IsStraight (["layouts"] ++ ["layout.html"]) := by decide
  have hp := Path.parent?_below (p := root) hl.isPlain (by simp)
  rw [List.singleton_append] at hp
  rw [makeParent, hp]

-- A way below the root of a site that is no longer than that to its layout.
def IsWay (k : Location) : Prop :=
  k ≠ [] ∧ (∀ n ∈ k, IsName n) ∧ '\x00' ∉ k.toRelative.text.toList ∧
    k.toRelative.text.utf8ByteSize ≤ (toRelative ["layouts", "layout.html"]).text.utf8ByteSize

instance (k : Location) : Decidable (IsWay k) := by
  unfold IsWay; infer_instance

section

variable (h : Holds w root l xs)
  (hs : (root / toRelative ["layouts", "layout.html"]).text.utf8ByteSize < pathLimit)
  (hk : IsWay k) (hd : k.dropLast = [] ∨ xs.lookup k.dropLast = some .directory)
  (hv : xs.lookup k = none)

include h hs hk

theorem Holds.checkPath_below : checkPath (root / k.toRelative) = .ok () := by
  obtain ⟨hne, hn, h₀, hle⟩ := hk
  have hl : IsStraight ["layouts", "layout.html"] := by decide
  exact checkPath_below_of_le (find_iff_takeSteps.mp h.find_eq).1 (fun n hm => (hn n hm).isStep) hne
    h₀ hl.isPlain (by simp) hs hle

include hd hv

theorem Holds.exists_create (e : Entry) :
    ∃ v, exec (Disk.create (root / k.toRelative) e) w = (.ok (), v) ∧
      Holds v root l ((k, e) :: xs) := by
  have hc := h.checkPath_below hs hk
  obtain ⟨hne, hn, -⟩ := hk
  obtain ⟨dir, name, rfl⟩ := (List.eq_nil_or_concat' k).resolve_left hne
  rw [List.dropLast_concat] at hd
  obtain ⟨v, hx, ha⟩ := Disk.exists_create_below h.find_eq (fun n hm => (hn n hm).isStep)
    (hn name (by simp)) hc (h.get?_of_lookup hd) ((h.get?_eq _ hne).trans hv) e
  exact ⟨v, hx, h.adds ha⟩

theorem Holds.exists_makeDirectories :
    ∃ v, exec (Disk.makeDirectories (root / k.toRelative)) w = (.ok (), v) ∧
      Holds v root l ((k, .directory) :: xs) := by
  obtain ⟨v, hx, hv⟩ := h.exists_create hs hk hd hv .directory
  refine ⟨v, Disk.makeDirectories_of_makeDirectory hx, hv⟩

theorem Holds.exists_createFile {u : World} (text : String)
    (hm : exec (makeParent (root / k.toRelative)) u = (.ok (), w)) :
    ∃ v, exec (createFile (root / k.toRelative, text)) u = (.ok (), v) ∧
      Holds v root l ((k, .file text.toUTF8) :: xs) := by
  obtain ⟨v, hx, hv⟩ := h.exists_create hs hk hd hv (.file text.toUTF8)
  have hw : exec (writeNew (root / k.toRelative) text) u = (.ok (), v) := by
    rw [writeNew_eq, exec_bind_of_ok hm, hx]
  exact ⟨_, exec_bind_of_ok (exec_orElseThrow_of_ok hw), hv.logged _⟩

end

-- The files are created one after another, each in a directory that is there by then.
theorem exists_forM_createFile (h : Holds u root l [])
    (hs : (root / toRelative ["layouts", "layout.html"]).text.utf8ByteSize < pathLimit)
    (hm : exec (Disk.makeDirectories root.trimmed) w = (.ok (), u)) :
    ∃ v, exec (forM (files root) createFile) w = (.ok (), v) ∧
      v.files.find v.directory root = .ok (l, .directory) ∧ v.files.below l = tree := by
  have hconfig : IsWay ["config.yaml"] := by decide
  have hlayouts : IsWay ["layouts"] := by decide
  have hlayout : IsWay ["layouts", "layout.html"] := by decide
  have hhome : IsWay ["index.md"] := by decide
  obtain ⟨u₁, hu₁, h₁⟩ := h.exists_createFile hs hconfig (.inl rfl) rfl config
    (makeParent_name root (hconfig.2.1 _ List.mem_cons_self) ▸ hm)
  obtain ⟨t, ht, h₂⟩ := h₁.exists_makeDirectories hs hlayouts (.inl rfl) rfl
  obtain ⟨u₂, hu₂, h₃⟩ := h₂.exists_createFile hs hlayout (.inr rfl) rfl layout
    (makeParent_layout root ▸ ht)
  obtain ⟨v, hv, h₄⟩ := h₃.exists_createFile hs hhome (.inl rfl) rfl home
    (makeParent_name root (hhome.2.1 _ List.mem_cons_self) ▸
      Disk.makeDirectories_trimmed_of_find h₃.find_eq)
  refine ⟨v, ?_, h₄.find_eq, h₄.below_eq (by decide) (by simp [tree]) ?_⟩
  · rw [files_eq, List.forM_cons, exec_bind_of_ok hu₁, List.forM_cons, exec_bind_of_ok hu₂,
      List.forM_cons, exec_bind_of_ok hv]
    rfl
  · simp [tree, List.lookup_cons]

-- Nothing has been below the root before either.
theorem Holds.not_isEntry (h : Holds u root l []) (hg : w.Grows u) (hk : k.IsStraight)
    (hne : k ≠ []) : ¬Disk.isEntry (root / k.toRelative) w := by
  intro he
  obtain ⟨d, e, hf⟩ := Disk.isEntry_iff.mp he
  obtain ⟨e', hf, -⟩ := hg.find hf
  obtain ⟨name, k, rfl⟩ := List.exists_cons_of_ne_nil hne
  exact not_find_below h.find_eq hk (h.get?_eq [name] (by simp)) hf

theorem Holds.find?_files_eq_none (h : Holds u root l []) (hg : w.Grows u) :
    (files root).find? (fun x => Disk.isEntry x.1 w) = none := by
  refine List.find?_eq_none.mpr fun x hx => ?_
  rw [files_eq] at hx
  simp only [List.mem_cons, List.not_mem_nil, or_false] at hx
  rcases hx with rfl | rfl | rfl <;> exact h.not_isEntry hg (by decide) (by simp)

-- Where a site can be created, it is, unless its paths are too long.
theorem exists_create (hne : root.text ≠ "") (hp : ".." ∉ root.pieces) (h : IsFree w root)
    (hs : (root / toRelative ["layouts", "layout.html"]).text.utf8ByteSize < pathLimit) :
    ∃ v l, exec (create root) w = (.ok (), v) ∧
      v.files.find v.directory root = .ok (l, .directory) ∧ v.files.below l = tree := by
  obtain ⟨u, l, hm, hg, hu⟩ := h.exists_holds hne hp
  obtain ⟨v, hv, hf, hb⟩ := exists_forM_createFile hu hs hm
  refine ⟨v, l, ?_, hf, hb⟩
  rw [exec_create, hu.find?_files_eq_none hg]
  exact hv

-- If the path of the first file is too long, its root is all that is made.
theorem exec_create_of_long (hne : root.text ≠ "") (hp : ".." ∉ root.pieces) (h : IsFree w root)
    (hl : pathLimit ≤ (root / SiteConfig.fileName).text.utf8ByteSize) :
    ∃ v, exec (create root) w =
      (.error (.io (root / SiteConfig.fileName) .invalidFilename), v) := by
  obtain ⟨u, l, hm, hg, hu⟩ := h.exists_holds hne hp
  have hc : checkPath (root / SiteConfig.fileName) = .error .invalidFilename := by
    rw [checkPath_below_eq (find_iff_takeSteps.mp hu.find_eq).1 (by decide) (by decide), if_pos hl]
  have hx : exec (Disk.create (root / SiteConfig.fileName) (.file config.toUTF8)) u =
      (.error .invalidFilename, u) := by
    rw [Disk.exec_create, resolveLast, hc]
    rfl
  have hw : exec (writeNew (root / SiteConfig.fileName) config) w =
      (.error .invalidFilename, u) := by
    have hn : root / SiteConfig.fileName = root / toRelative ["config.yaml"] := Path.below_name
    rw [writeNew_eq, hn, makeParent_name root (by decide), exec_bind_of_ok hm, ← hn, hx]
  refine ⟨u, ?_⟩
  rw [exec_create, hu.find?_files_eq_none hg]
  exact exec_bind_of_error (exec_bind_of_error (exec_orElseThrow_of_error hw))

-- The root directory, with any number of slashes.
def slashes (n : Nat) : Path :=
  ⟨.ofList (List.replicate n '/')⟩

section

variable {n : Nat}

theorem utf8ByteSize_slashes : (slashes n).text.utf8ByteSize = n := by
  induction n
  case zero => rfl
  case succ n hi =>
    rw [slashes] at hi ⊢
    rw [List.replicate_succ', String.ofList_append, String.utf8ByteSize_append, hi]
    rfl

theorem isIdle_of_mem_slashes (h : name ∈ (slashes n).pieces) : Path.isIdle name := by
  have hn : name.toList = [] := by
    refine List.eq_nil_iff_forall_not_mem.mpr fun c hc => ?_
    have hm := Path.mem_text_of_mem_pieces h hc
    rw [slashes, String.toList_ofList] at hm
    exact Path.slash_not_mem_of_mem_pieces h (List.eq_of_mem_replicate hm ▸ hc)
  rw [String.toList_inj.mp (hn.trans String.toList_empty.symm)]
  exact Path.isIdle_empty

theorem text_slashes_ne (hn : 0 < n) : (slashes n).text ≠ "" := by
  intro he
  have hs := utf8ByteSize_slashes (n := n)
  rw [he] at hs
  exact hn.ne hs

theorem find_slashes (hn : 0 < n) (hs : n < pathLimit) (w : World) :
    w.files.find w.directory (slashes n) = .ok ([], .directory) := by
  obtain ⟨n, rfl⟩ := Nat.exists_eq_succ_of_ne_zero hn.ne'
  have ha : (slashes (n + 1)).isAbsolute := by
    simp [Path.isAbsolute, slashes, List.replicate_succ]
  have hc : checkPath (slashes (n + 1)) = .ok () := by
    refine checkPath_eq_ok.mpr ⟨?_, text_slashes_ne hn, utf8ByteSize_slashes.symm ▸ hs⟩
    simp [slashes]
  refine find_iff_takeSteps.mpr ⟨hc, ?_⟩
  rw [if_pos ha, ← List.append_nil (slashes _).pieces,
    takeSteps_idle_append get?_nil fun _ => isIdle_of_mem_slashes]
  rfl

end

-- There is nothing but the root directory.
def blank : World where
  files := .empty
  directory := []
  log := []

-- The way to any file is too long.
theorem slashes_not_created :
    (slashes 4090).text ≠ "" ∧ ".." ∉ (slashes 4090).pieces ∧
      blank.files.find blank.directory (slashes 4090) = .ok ([], .directory) ∧
      blank.files.children [] = [] ∧
      ∃ v, exec (create (slashes 4090)) blank =
        (.error (.io (slashes 4090 / SiteConfig.fileName) .invalidFilename), v) := by
  have hne : (slashes 4090).text ≠ "" := text_slashes_ne (by decide)
  have hp : ".." ∉ (slashes 4090).pieces := fun hm => nomatch isIdle_of_mem_slashes hm
  have hf : blank.files.find blank.directory (slashes 4090) = .ok ([], .directory) :=
    find_slashes (by decide) (by decide) blank
  have hl : pathLimit ≤ (slashes 4090 / SiteConfig.fileName).text.utf8ByteSize := by
    rw [Path.text_below (by decide), String.utf8ByteSize_append, String.utf8ByteSize_append,
      utf8ByteSize_slashes]
    have hn : pathLimit ≤ 4090 + SiteConfig.fileName.text.utf8ByteSize := by decide
    omega
  exact ⟨hne, hp, hf, rfl, exec_create_of_long hne hp (.empty [] hf rfl) hl⟩

end StaticSite.Skeleton
