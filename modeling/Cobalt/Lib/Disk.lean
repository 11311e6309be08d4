import Cobalt.Lib.ProtoMap
import Mathlib.Algebra.Order.BigOperators.Group.List
import Mathlib.Algebra.Order.Group.Nat

/-!
# A disk with files of bytes

A disk is a finite map from file names to contents. A file can be renamed, which replaces the file
that has the new name, deleted, and opened for output. A file that is opened for output without
being truncated is overwritten from its start: bytes of the old contents that are not overwritten
stay.

## Main definitions

* `Bytes`, `Disk`, `Disk.rename`.
* `overlay`: the contents after writing from the start of a file that was not truncated.
* `Disk.total`, `Disk.totalSize`: the sum of a measure, such as the size, over the files with
  certain names.

## Main results

* `Disk.lookup_rename`: what is on the disk after a rename.
* `Disk.total_add`, `Disk.total_erase`, `Disk.total_le_add`: the total after a file is added, erased
  or overwritten.
-/

/-- The contents of a file. -/
abbrev Bytes : Type := List UInt8

/-- The files of a directory, by their names. -/
abbrev Disk : Type := ProtoMap String Bytes

/-- The contents of a file after `new` was written from its start over `old`. -/
def overlay (old new : Bytes) : Bytes := new ++ old.drop new.length

theorem overlay_of_length_le {old new : Bytes} (h : old.length ≤ new.length) :
    overlay old new = new := by
  rw [overlay, List.drop_eq_nil_of_le h, List.append_nil]

namespace Disk

variable {disk disk' : Disk}

/-- The file `src` gets the name `dst`; `none` when there is no such file. -/
def rename (disk : Disk) (src dst : String) : Option Disk :=
  (disk.lookup src).map fun contents => (disk.erase src).insert dst contents

theorem lookup_erase (disk : Disk) (name name' : String) :
    AList.lookup name' (disk.erase name) = if name' = name then none else disk.lookup name' := by
  split_ifs with h
  · rw [h, AList.lookup_erase]
  · rw [AList.lookup_erase_ne h]

/-- **After a rename** the new name has the contents of the old one, which is gone. -/
theorem lookup_rename {src dst : String} (h : disk.rename src dst = some disk') (name : String) :
    disk'.lookup name = if name = dst then disk.lookup src
      else if name = src then none else disk.lookup name := by
  obtain ⟨contents, hcontents, rfl⟩ := Option.map_eq_some_iff.mp h
  rw [ProtoMap.lookup_insert_eq_ite, lookup_erase, hcontents]

theorem rename_isSome {src : String} (h : (disk.lookup src).isSome) (dst : String) :
    (disk.rename src dst).isSome := by
  rwa [rename, Option.isSome_map]

/-- The sum of a measure of the contents, over the files whose names satisfy `p`. -/
def total (disk : Disk) (f : Bytes → ℕ) (p : String → Bool) : ℕ :=
  ((disk.keys.filter p).map fun name => f ((disk.lookup name).getD [])).sum

/-- The total size of the files whose names satisfy `p`. -/
def totalSize (disk : Disk) (p : String → Bool) : ℕ :=
  ((disk.keys.filter p).map fun name => ((disk.lookup name).getD []).length).sum

theorem mem_keys_filter {p : String → Bool} {name : String} :
    name ∈ disk.keys.filter p ↔ (disk.lookup name).isSome ∧ p name := by
  rw [List.mem_filter, ← AList.mem_keys, AList.lookup_isSome]

variable {f : Bytes → ℕ} {p : String → Bool}

/-- The total depends on the files with these names alone. -/
theorem total_congr (h : ∀ name, p name → disk'.lookup name = disk.lookup name) :
    disk'.total f p = disk.total f p := by
  have hperm : (disk'.keys.filter p).Perm (disk.keys.filter p) := by
    refine (List.perm_ext_iff_of_nodup (disk'.keys_nodup.filter p) (disk.keys_nodup.filter p)).mpr
      fun name => ?_
    rw [mem_keys_filter, mem_keys_filter]
    exact and_congr_left fun hp => by rw [h name hp]
  rw [total, (hperm.map _).sum_nat, total]
  refine congrArg List.sum (List.map_congr_left fun name hname => ?_)
  rw [h name (mem_keys_filter.mp hname).2]

theorem totalSize_congr (h : ∀ name, p name → disk'.lookup name = disk.lookup name) :
    disk'.totalSize p = disk.totalSize p :=
  total_congr h

/-- A new file adds its measure to the total. -/
theorem total_add {name : String} {bytes : Bytes} (hp : p name)
    (hold : disk.lookup name = none) (hnew : disk'.lookup name = some bytes)
    (h : ∀ name', p name' → name' ≠ name → disk'.lookup name' = disk.lookup name') :
    disk'.total f p = disk.total f p + f bytes := by
  have hmem : name ∉ disk.keys.filter p := fun hmem => by
    simpa [hold] using (mem_keys_filter.mp hmem).1
  have hperm : (disk'.keys.filter p).Perm (name :: disk.keys.filter p) := by
    refine (List.perm_ext_iff_of_nodup (disk'.keys_nodup.filter p)
      ((disk.keys_nodup.filter p).cons hmem)).mpr fun name' => ?_
    rw [List.mem_cons, mem_keys_filter, mem_keys_filter]
    by_cases heq : name' = name
    · subst heq
      simp [hnew, hp]
    · simp only [heq, false_or]
      exact and_congr_left fun hp' => by rw [h name' hp' heq]
  have hrest : ((disk.keys.filter p).map fun name => f ((disk'.lookup name).getD [])) =
      (disk.keys.filter p).map fun name => f ((disk.lookup name).getD []) := by
    refine List.map_congr_left fun name' hname' => ?_
    rw [h name' (mem_keys_filter.mp hname').2 fun heq => hmem (heq ▸ hname')]
  rw [total, (hperm.map _).sum_nat, List.map_cons, List.sum_cons, hrest, hnew, total,
    Option.getD_some, Nat.add_comm]

theorem totalSize_add {name : String} {bytes : Bytes} (hp : p name)
    (hold : disk.lookup name = none) (hnew : disk'.lookup name = some bytes)
    (h : ∀ name', p name' → name' ≠ name → disk'.lookup name' = disk.lookup name') :
    disk'.totalSize p = disk.totalSize p + bytes.length :=
  total_add hp hold hnew h

/-- A file that is erased takes its measure from the total; the measure is zero where there are
no bytes. -/
theorem total_erase {name : String} (hp : p name) (hzero : f [] = 0) :
    disk.total f p = total (disk.erase name) f p + f ((disk.lookup name).getD []) := by
  have hother : ∀ name', p name' → name' ≠ name →
      disk.lookup name' = AList.lookup name' (disk.erase name) :=
    fun name' _ hne => (AList.lookup_erase_ne hne).symm
  cases hlookup : disk.lookup name with
  | some bytes => exact total_add hp (AList.lookup_erase _ _) hlookup hother
  | none =>
    rw [Option.getD_none, hzero, Nat.add_zero]
    refine total_congr fun name' hp' => ?_
    by_cases hne : name' = name
    · rw [hne, hlookup, AList.lookup_erase]
    · exact hother name' hp' hne

theorem totalSize_erase {name : String} (hp : p name) :
    disk.totalSize p = totalSize (disk.erase name) p + ((disk.lookup name).getD []).length :=
  total_erase hp rfl

/-- A file that is written, over another one or not, adds at most its measure. -/
theorem total_le_add {name : String} {bytes : Bytes} (hp : p name) (hzero : f [] = 0)
    (hnew : disk'.lookup name = some bytes)
    (h : ∀ name', p name' → name' ≠ name → disk'.lookup name' = disk.lookup name') :
    disk'.total f p ≤ disk.total f p + f bytes := by
  have hadd : disk'.total f p = total (disk.erase name) f p + f bytes :=
    total_add hp (AList.lookup_erase _ _) hnew fun name' hp' hne =>
      (h name' hp' hne).trans (AList.lookup_erase_ne hne).symm
  have herase := @total_erase disk f p name hp hzero
  omega

/-- A measure that is smaller on every file has a smaller total. -/
theorem total_le_total {g : Bytes → ℕ}
    (h : ∀ name bytes, p name → disk.lookup name = some bytes → f bytes ≤ g bytes) :
    disk.total f p ≤ disk.total g p := by
  refine List.sum_le_sum fun name hname => ?_
  obtain ⟨hsome, hp⟩ := mem_keys_filter.mp hname
  obtain ⟨bytes, hbytes⟩ := Option.isSome_iff_exists.mp hsome
  rw [hbytes]
  exact h name bytes hp hbytes

theorem totalSize_eq_zero
    (h : ∀ name, p name → (disk.lookup name).getD [] = []) : disk.totalSize p = 0 := by
  refine List.sum_eq_zero_iff_forall_eq_nat.mpr fun size hsize => ?_
  obtain ⟨name, hname, rfl⟩ := List.mem_map.mp hsize
  rw [h name (mem_keys_filter.mp hname).2, List.length_nil]

end Disk
