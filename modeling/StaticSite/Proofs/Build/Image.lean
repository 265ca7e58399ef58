import StaticSite.Proofs.Build.Remaining
/-!
What a build makes of one entry of the source. Main statements: its image is put into the output
where there is room for it (`HasRoom.exec_part`), and what the image is does not depend on what is
in the output (`image?_of_frame`).
-/
namespace StaticSite.Build

open FileSystem Action Location Extension

-- The entry of the output that an entry of the source stands for, unless that fails to compile.
def image? (s : Session) (w : World) (p : Path) : Entry → Option Entry
  | .file contents =>
    if isContent p then (exec (Compile.file s p) w).1.toOption.map fun text => .file text.toUTF8
    else some (.file contents)
  | e => some e

variable {s : Session} {fs : FileSystem} {src out ls r dir : Location} {w w₁ : World} {e y : Entry}
  {name : String}

theorem image?_not_link {p target : Path} (he : ∀ target, e ≠ .link target) :
    image? s w p e ≠ some (.link target) := by
  cases e
  case link target => exact absurd rfl (he target)
  case directory => simp [image?]
  case file => rw [image?]; split <;> simp

theorem isSome_image? {p : Path} : (image? s w p e).isSome ↔
    ∀ contents, e = .file contents → isContent p → (exec (Compile.file s p) w).1.isOk := by
  cases e
  case directory => simp [image?]
  case link => simp [image?]
  case file contents =>
    rw [image?]
    rcases (exec (Compile.file s p) w).1 with x | text <;> split <;>
      simp_all [Except.toOption, Except.isOk, Except.toBool]

-- An entry of the source whose place in the output is free.
structure HasRoom (fs : FileSystem) (src out dir : Location) (name : String) (e : Entry) :
    Prop where
  get?_source : fs.get? (src ++ (dir ++ [name])) = some e
  isShort_source : IsShort (src ++ (dir ++ [name]))
  directory : fs.get? (out ++ dir) = some .directory
  vacant : fs.get? (out ++ dir ++ [outputName name]) = none
  isName : IsName (outputName name)
  isShort : IsShort (out ++ dir ++ [outputName name])

namespace HasRoom

theorem writable (h : HasRoom fs src out dir name e) :
    fs.Writable (out ++ dir) (outputName name) :=
  ⟨h.isName, h.directory, by rw [h.vacant]; simp, h.isShort⟩

theorem isContent_source (h : HasRoom fs src out dir name e) :
    isContent (src ++ (dir ++ [name])).toPath = isContentName name := by
  have hs := isStraight_of_get? h.get?_source
  rw [← List.append_assoc] at hs ⊢
  exact isContent_toPath hs

theorem isPlain (h : HasRoom fs src out dir name e) : IsPlain (out ++ dir ++ [outputName name]) :=
  h.writable.isStraight.isPlain

-- The directory that it goes into is there already.
theorem exec_makeDirectories (h : HasRoom w.files src out dir name e) :
    exec (Disk.makeDirectories (out ++ dir).toPath) w = (.ok (), w) :=
  Disk.makeDirectories_of_get? h.directory (h.isShort.of_prefix (List.prefix_append _ _))

theorem exec_part_directory {p : Path} {isContent : Bool}
    (h : HasRoom w.files src out dir name e) :
    exec (part s p (out ++ dir ++ [outputName name]).toPath true isContent) w =
      (.ok (), w.put (out ++ dir) (outputName name) .directory) := by
  rw [part_directory]
  exact exec_orElseThrow_of_ok
    (Disk.makeDirectories_of_vacant h.directory h.vacant h.isName h.isShort)

theorem exec_part_page {p : Path} {text : String} (h : HasRoom w.files src out dir name e)
    (hf : w.files.Linkless) (hx : (exec (Compile.file s p) w).1 = .ok text) :
    exec (part s p (out ++ dir ++ [outputName name]).toPath false true) w =
      (.ok (), w.put (out ++ dir) (outputName name) (.file text.toUTF8)) := by
  have hc : exec (Compile.file s p) w = (.ok text, w) := Prod.ext hx (Compile.reads_file.world w)
  rw [part_page h.isPlain]
  apply exec_orElseThrow_of_ok
  rw [exec_bind_of_ok hc, exec_bind_of_ok (exec_orElseThrow_of_ok h.exec_makeDirectories)]
  exact exec_orElseThrow_of_ok (Disk.write_toPath hf h.writable _)

theorem exec_part_copy {contents : ByteArray}
    (h : HasRoom w.files src out dir name (.file contents)) (hf : w.files.Linkless) :
    exec (part s (src ++ (dir ++ [name])).toPath (out ++ dir ++ [outputName name]).toPath false
      false) w = (.ok (), w.put (out ++ dir) (outputName name) (.file contents)) := by
  have hk : w.files.find w.directory (src ++ (dir ++ [name])).toPath = .ok (_, .file contents) :=
    find_toPath h.get?_source h.isShort_source (by simp)
  have hne : src ++ (dir ++ [name]) ≠ out ++ dir ++ [outputName name] := by
    intro he
    have := h.get?_source
    rw [he, h.vacant] at this
    simp at this
  rw [part_copy h.isPlain, makeDirectory,
    exec_bind_of_ok (exec_orElseThrow_of_ok h.exec_makeDirectories)]
  exact exec_orElseThrow_of_ok (Disk.copy_toPath hf h.writable hk hne)

-- The image of the entry is put there.
theorem exec_part (h : HasRoom w.files src out dir name e) (hf : w.files.Linkless)
    (hy : image? s w (src ++ (dir ++ [name])).toPath e = some y) :
    exec (part s (src ++ (dir ++ [name])).toPath (out ++ target (dir ++ [name])).toPath
      (e = .directory) (isContentName name)) w =
        (.ok (), w.put (out ++ dir) (outputName name) y) := by
  rw [target_concat, ← List.append_assoc out dir]
  cases e
  case link target => exact absurd h.get?_source (hf _ _)
  case directory =>
    obtain rfl : Entry.directory = y := by simpa [image?] using hy
    exact h.exec_part_directory
  case file contents =>
    rw [show decide (Entry.file contents = .directory) = false by simp]
    rw [image?, h.isContent_source] at hy
    cases hc : isContentName name <;> rw [hc] at hy
    case true =>
      rw [if_pos rfl] at hy
      rcases hx : (exec (Compile.file s (src ++ (dir ++ [name])).toPath) w).1 with x | text <;>
        rw [hx] at hy
      case error => simp [Except.toOption] at hy
      case ok =>
        obtain rfl : Entry.file text.toUTF8 = y := by simpa [Except.toOption] using hy
        exact h.exec_part_page hf hx
    case false =>
      obtain rfl : Entry.file contents = y := by simpa using hy
      exact h.exec_part_copy hf

end HasRoom

-- If there is no image, the entry does not compile.
theorem exec_part_eq_error {p q : Path} (hy : image? s w p e = none) :
    ∃ x, exec (part s p q (e = .directory) (isContent p)) w = (.error x, w) := by
  cases e
  case directory => simp [image?] at hy
  case link => simp [image?] at hy
  case file contents =>
    rw [image?] at hy
    split at hy
    case isFalse => simp at hy
    case isTrue hc =>
      have hr : Reads _ (Compile.file s p) := Compile.reads_file
      rw [part, if_neg (by simp), if_pos hc, Compile.write]
      rcases hr.exec_cases w with ⟨x, hx⟩ | ⟨text, hx⟩
      case inl => exact ⟨_, exec_orElseThrow_of_error (exec_bind_of_error hx)⟩
      case inr => simp [hx, Except.toOption] at hy

-- What an entry stands for depends on nothing in the output.
theorem image?_of_frame (h : Ready s src out ls w₁) (hw : Frame out w₁ w) (hr : r.IsStraight)
    (hn : ¬IsWithin out (src ++ r)) :
    image? s w (src ++ r).toPath e = image? s w₁ (src ++ r).toPath e := by
  have hs := h.straight_source.append hr
  have hp : ".." ∉ s.layouts.steps := by
    rw [h.steps_layouts, List.mem_append, not_or]
    exact ⟨fun hm => (h.straight_source _ hm).2 rfl, h.parent_notMem⟩
  have hc := hw.compile_congr h.linkless hs hn h.isAbsolute_layouts hp
    (h.steps_layouts ▸ h.layouts_outside)
  cases e <;> simp only [image?, hc]

end StaticSite.Build
