import KloudlensAggregator.Foundation.Utf8
import Mathlib.Data.List.AList
import Mathlib.Data.List.Sort

/-!
# The directory of a WAL

The files of one directory by name, with the file operations the WAL uses, and
what each operation does to a lookup.
-/

namespace KloudlensAggregator.Envwal

open KloudlensAggregator.Foundation

structure File where
  data : Bytes
  mtime : Int
  deriving DecidableEq, Repr

abbrev Directory := AList (fun _ : String => File)

namespace Directory

/-- `os.OpenFile` with `O_CREATE|O_APPEND`: an existing file is kept. -/
def openAppend (dir : Directory) (name : String) (now : Int) : Directory :=
  match dir.lookup name with
  | some _ => dir
  | none => dir.insert name ⟨[], now⟩

def write (dir : Directory) (name : String) (bytes : Bytes) (now : Int) : Directory :=
  match dir.lookup name with
  | some file => dir.insert name ⟨file.data ++ bytes, now⟩
  | none => dir

def removeAll (dir : Directory) (names : List String) : Directory :=
  names.foldl (fun dir name => dir.erase name) dir

/-- `os.ReadDir`: the entries sorted by file name. -/
def readDir (dir : Directory) : List (String × File) :=
  (dir.entries.map fun entry => (entry.1, entry.2)).insertionSort
    fun a b => a.1 ≤ b.1

variable {dir : Directory} {name other : String} {now : Int}

theorem lookup_openAppend_self (dir : Directory) (name : String) (now : Int) :
    (dir.openAppend name now).lookup name =
      some ((dir.lookup name).getD ⟨[], now⟩) := by
  unfold openAppend
  cases h : dir.lookup name with
  | none => simp
  | some file => simp [h]

theorem lookup_openAppend_of_ne (h : other ≠ name) :
    (dir.openAppend name now).lookup other = dir.lookup other := by
  unfold openAppend
  split
  · rfl
  · exact AList.lookup_insert_ne h

theorem lookup_write_self {file : File} (h : dir.lookup name = some file)
    (bytes : Bytes) (now : Int) :
    (dir.write name bytes now).lookup name = some ⟨file.data ++ bytes, now⟩ := by
  simp [write, h]

theorem lookup_write_of_ne (h : other ≠ name) (bytes : Bytes) :
    (dir.write name bytes now).lookup other = dir.lookup other := by
  unfold write
  split
  · exact AList.lookup_insert_ne h
  · rfl

theorem data_write_nil (dir : Directory) (name : String) (now : Int) (other : String) :
    ((dir.write name [] now).lookup other).map File.data = (dir.lookup other).map File.data := by
  by_cases hname : other = name
  · subst hname
    cases hfile : dir.lookup other with
    | none => simp [write, hfile]
    | some file => simp [lookup_write_self hfile]
  · rw [lookup_write_of_ne hname]

theorem lookup_removeAll (dir : Directory) (names : List String) (name : String) :
    (dir.removeAll names).lookup name =
      if name ∈ names then none else dir.lookup name := by
  induction names generalizing dir with
  | nil => simp [removeAll]
  | cons removed names ih =>
      have hcons : dir.removeAll (removed :: names) =
          Directory.removeAll (dir.erase removed) names := rfl
      rw [hcons, ih]
      by_cases hname : name = removed
      · subst hname
        simp
      · simp [hname, AList.lookup_erase_ne hname]

theorem mem_readDir {file : File} :
    (name, file) ∈ dir.readDir ↔ dir.lookup name = some file := by
  rw [readDir, (List.perm_insertionSort _ _).mem_iff]
  constructor
  · intro h
    obtain ⟨⟨key, value⟩, hentry, heq⟩ := List.mem_map.mp h
    cases heq
    exact AList.mem_lookup_iff.mpr hentry
  · intro h
    exact List.mem_map.mpr ⟨⟨name, file⟩, AList.mem_lookup_iff.mp h, rfl⟩

theorem nodup_readDir_names (dir : Directory) : (dir.readDir.map Prod.fst).Nodup := by
  have hperm : (dir.readDir.map Prod.fst).Perm dir.keys := by
    have hnames : dir.keys =
        (dir.entries.map fun entry => (entry.1, entry.2)).map Prod.fst := by
      simp [AList.keys, List.keys]
    rw [hnames]
    exact (List.perm_insertionSort _ _).map Prod.fst
  exact hperm.nodup_iff.mpr dir.keys_nodup

end Directory

end KloudlensAggregator.Envwal
