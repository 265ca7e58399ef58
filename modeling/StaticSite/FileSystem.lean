import StaticSite.FileSystem.Error
import StaticSite.Keyed
import StaticSite.Path
/-!
A file system: what stands at each location. Every entry stands in a directory under a proper
name, and entries are kept in the order of their locations, in which a directory comes before its
contents and neighbours follow their names.

Main statements: file systems that agree at every location are equal (`ext_get?`); putting and
erasing entries changes what it says and nothing else (`get?_put`, `get?_erase`).
-/
namespace StaticSite

-- The names on the way from the root.
abbrev Location := List String

namespace Location

def toPath (l : Location) : Path :=
  ⟨"/" ++ "/".intercalate l⟩

end Location

inductive Entry where
  | directory
  | file (contents : ByteArray)
  -- A symbolic link.
  | link (target : Path)

-- Files are compared byte by byte.
instance : DecidableEq Entry := fun a b =>
  match a, b with
  | .directory, .directory => isTrue rfl
  | .file c, .file d => decidable_of_iff (c.data = d.data) (by cases c; cases d; simp)
  | .link p, .link q => decidable_of_iff (p = q) (by simp)
  | .directory, .file _ | .directory, .link _ | .file _, .directory | .file _, .link _
  | .link _, .directory | .link _, .file _ => isFalse nofun

namespace FileSystem

-- How many bytes a name has at most.
def nameLimit : Nat :=
  255

-- What an entry can be called.
def IsName (name : String) : Prop :=
  name ≠ "" ∧ name ≠ "." ∧ name ≠ ".." ∧ name.utf8ByteSize ≤ nameLimit ∧
    '/' ∉ name.toList ∧ '\x00' ∉ name.toList

instance (name : String) : Decidable (IsName name) := by
  unfold IsName; infer_instance

end FileSystem

structure FileSystem where
  entries : List (Location × Entry)
  sorted : Keyed.Sorted entries
  rooted : ∀ x ∈ entries, ∃ dir name, x.1 = dir ++ [name] ∧ FileSystem.IsName name ∧
    (dir = [] ∨ (dir, Entry.directory) ∈ entries)

namespace FileSystem

variable (fs : FileSystem)

-- What stands at a location. The root is a directory.
def get? (l : Location) : Option Entry :=
  if l = [] then some .directory else fs.entries.lookup l

variable {fs} {l dir : Location} {name : String} {e : Entry}

@[simp]
theorem get?_nil : fs.get? [] = some .directory :=
  rfl

theorem ne_nil_of_mem (h : (l, e) ∈ fs.entries) : l ≠ [] := by
  obtain ⟨dir, name, hl, _⟩ := fs.rooted _ h
  simp_all

theorem mem_iff : (l, e) ∈ fs.entries ↔ l ≠ [] ∧ fs.get? l = some e := by
  by_cases hl : l = []
  · subst hl
    simpa using fun h => ne_nil_of_mem h rfl
  · simp [get?, hl, Keyed.lookup_eq_some_iff fs.sorted]

-- An entry stands in a directory, under a proper name.
theorem get?_concat (h : fs.get? (dir ++ [name]) = some e) :
    IsName name ∧ fs.get? dir = some .directory := by
  obtain ⟨dir', name', hl, hn, hd⟩ := fs.rooted _ (mem_iff.mpr ⟨by simp, h⟩)
  obtain ⟨rfl, rfl⟩ : dir = dir' ∧ name = name' := by simpa [List.concat_inj] using hl
  refine ⟨hn, ?_⟩
  cases hd
  case inl hd => simp_all
  case inr hd => exact (mem_iff.mp hd).2

-- File systems that agree at every location are equal.
@[ext]
theorem ext_get? {a b : FileSystem} (h : ∀ l, a.get? l = b.get? l) : a = b := by
  have he : a.entries = b.entries := Keyed.eq_of_lookup a.sorted b.sorted fun l => by
    by_cases hl : l = []
    · have none (fs : FileSystem) : fs.entries.lookup [] = none :=
        Option.eq_none_iff_forall_ne_some.mpr fun e he =>
          ne_nil_of_mem ((Keyed.lookup_eq_some_iff fs.sorted).mp he) rfl
      simp [hl, none]
    · simpa [get?, hl] using h l
  cases a; cases b; cases he; rfl

-- Whether an entry can be put into a directory under a name. What is a directory stays one.
def Accepts (fs : FileSystem) (dir : Location) (name : String) (e : Entry) : Prop :=
  IsName name ∧ fs.get? dir = some .directory ∧
    (fs.get? (dir ++ [name]) = some .directory → e = .directory)

instance : Decidable (fs.Accepts dir name e) := by
  unfold Accepts; infer_instance

-- Puts an entry into a directory, in place of the one that has the name already.
def put (fs : FileSystem) (dir : Location) (name : String) (e : Entry) : FileSystem :=
  if h : fs.Accepts dir name e then {
    entries := Keyed.insert (dir ++ [name]) e fs.entries
    sorted := fs.sorted.insert
    rooted := by
      intro x hx
      have keeps {d : Location} (hd : fs.get? d = some .directory) :
          d = [] ∨ (d, Entry.directory) ∈ Keyed.insert (dir ++ [name]) e fs.entries := by
        refine Decidable.or_iff_not_imp_left.mpr fun hn => (Keyed.mem_insert fs.sorted).mpr ?_
        by_cases hl : d = dir ++ [name]
        · subst hl
          exact .inl (by rw [h.2.2 hd])
        · exact .inr ⟨mem_iff.mpr ⟨hn, hd⟩, hl⟩
      rcases (Keyed.mem_insert fs.sorted).mp hx with rfl | ⟨hx, _⟩
      · exact ⟨dir, name, rfl, h.1, keeps h.2.1⟩
      · obtain ⟨d, n, hl, hn, _⟩ := fs.rooted _ hx
        refine ⟨d, n, hl, hn, keeps ?_⟩
        have := (mem_iff.mp hx).2
        rw [hl] at this
        exact (get?_concat this).2 }
  else fs

theorem get?_put (h : fs.Accepts dir name e) :
    (fs.put dir name e).get? l = if l = dir ++ [name] then some e else fs.get? l := by
  by_cases hl : l = []
  · simp [hl]
  · simp [get?, hl, put, h, Keyed.lookup_insert]

-- Erases the entry at a location with all that is below it.
def erase (fs : FileSystem) (l : Location) : FileSystem where
  entries := fs.entries.filter fun x => !l.isPrefixOf x.1
  sorted := fs.sorted.filter _
  rooted := by
    intro x hx
    obtain ⟨hx, hp⟩ := List.mem_filter.mp hx
    obtain ⟨dir, name, hl, hn, hd⟩ := fs.rooted _ hx
    refine ⟨dir, name, hl, hn, hd.imp_right fun hd => List.mem_filter.mpr ⟨hd, ?_⟩⟩
    simp only [hl, Bool.not_eq_true', ← Bool.not_eq_true, List.isPrefixOf_iff_prefix] at hp ⊢
    exact fun h => hp (h.trans (List.prefix_append _ _))

theorem get?_erase {k : Location} (hl : l ≠ []) :
    (fs.erase l).get? k = if l <+: k then none else fs.get? k := by
  by_cases hk : k = []
  · simp [hk, hl]
  · refine Option.ext fun x => ?_
    have hm : (k, x) ∈ (fs.erase l).entries ↔ (k, x) ∈ fs.entries ∧ ¬l <+: k := by
      simp [erase, List.mem_filter, ← Bool.not_eq_true, List.isPrefixOf_iff_prefix]
    rw [mem_iff, mem_iff] at hm
    split <;> simp_all

-- What stands below a location, with the way to it: a directory before its contents, neighbours in
-- the order of their names.
def below (fs : FileSystem) (l : Location) : List (Location × Entry) :=
  fs.entries.filterMap fun x =>
    if l.isPrefixOf x.1 ∧ x.1 ≠ l then some (x.1.drop l.length, x.2) else none

-- The entries of a directory in the order of their names.
def children (fs : FileSystem) (l : Location) : List (String × Entry) :=
  (fs.below l).filterMap fun
    | ([name], e) => some (name, e)
    | _ => none

theorem mem_below {r : Location} : (r, e) ∈ fs.below l ↔ r ≠ [] ∧ fs.get? (l ++ r) = some e := by
  simp only [below, List.mem_filterMap, Prod.exists, Option.ite_none_right_eq_some,
    List.isPrefixOf_iff_prefix, Option.some.injEq, Prod.mk.injEq]
  constructor
  · rintro ⟨k, x, hk, ⟨⟨r', rfl⟩, hn⟩, hr, rfl⟩
    obtain rfl : r' = r := by simpa using hr
    exact ⟨by simpa using hn, (mem_iff.mp hk).2⟩
  · rintro ⟨hr, h⟩
    refine ⟨l ++ r, e, mem_iff.mpr ⟨by simp [hr], h⟩, ⟨List.prefix_append _ _, by simpa⟩, ?_, rfl⟩
    simp

theorem mem_children : (name, e) ∈ fs.children l ↔ fs.get? (l ++ [name]) = some e := by
  have : (name, e) ∈ fs.children l ↔ ([name], e) ∈ fs.below l := by
    simp only [children, List.mem_filterMap]
    constructor
    · rintro ⟨⟨r, x⟩, hx, h⟩
      split at h <;> simp_all
    · exact fun h => ⟨_, h, rfl⟩
  simp [this, mem_below]

-- The file system that holds nothing.
def empty : FileSystem where
  entries := []
  sorted := .nil
  rooted := by simp

end FileSystem

end StaticSite
