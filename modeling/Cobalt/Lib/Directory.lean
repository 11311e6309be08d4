import Cobalt.Lib.Disk
import Mathlib.Data.List.Dedup
import Mathlib.Data.List.TakeWhile

/-!
# Directories of a disk

The names of files are paths, with a slash between a directory and what is in it. A directory lists
the first parts of the paths below it, which are files and directories.

## Main definitions

* `Disk.child dir path`: the entry of `dir` through which the path goes.
* `Disk.listFiles dir`: the entries of a directory.

## Main results

* `Disk.mem_listFiles`: which entries there are.
-/

namespace Disk

/-- The entry of the directory through which the path goes. -/
def child (dir path : String) : Option String :=
  ((dir ++ "/").toList.isPrefixOf? path.toList).map fun rest =>
    String.ofList (rest.takeWhile (· ≠ '/'))

/-- The entries of a directory, files and directories. -/
def listFiles (disk : Disk) (dir : String) : List String :=
  (disk.keys.filterMap (child dir)).dedup

theorem child_eq_some_iff {dir path name : String} :
    child dir path = some name ↔ ∃ rest : List Char, path = dir ++ "/" ++ String.ofList rest ∧
      name = String.ofList (rest.takeWhile (· ≠ '/')) := by
  rw [child, Option.map_eq_some_iff]
  refine exists_congr fun rest => and_congr ?_ eq_comm
  rw [List.isPrefixOf?_eq_some_iff_append_eq, ← String.toList_inj, eq_comm]
  simp only [String.toList_append, String.toList_ofList]

/-- **The entries of a directory** are the first parts of the paths below it. -/
theorem mem_listFiles {disk : Disk} {dir name : String} :
    name ∈ disk.listFiles dir ↔ ∃ rest : List Char,
      (disk.lookup (dir ++ "/" ++ String.ofList rest)).isSome ∧
      name = String.ofList (rest.takeWhile (· ≠ '/')) := by
  rw [listFiles, List.mem_dedup, List.mem_filterMap]
  constructor
  · rintro ⟨path, hpath, hname⟩
    obtain ⟨rest, rfl, rfl⟩ := child_eq_some_iff.mp hname
    exact ⟨rest, AList.lookup_isSome.mpr (AList.mem_keys.mpr hpath), rfl⟩
  · rintro ⟨rest, hsome, rfl⟩
    exact ⟨_, AList.mem_keys.mp (AList.lookup_isSome.mp hsome), child_eq_some_iff.mpr ⟨rest, rfl, rfl⟩⟩

end Disk
