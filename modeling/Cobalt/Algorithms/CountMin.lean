import Mathlib.Algebra.Order.BigOperators.Group.List
import Mathlib.Data.List.GetD
import Mathlib.Data.Nat.Digits.Defs
import Mathlib.Tactic.Linarith

/-!
# The count-min sketch

A sketch has a field of cells for each hash function, one after the other in a single vector. An
observation is counted in one cell of each field, and the estimate of its count is the smallest
value of its cells.

`GetSketchCell` reduces a hash modulo the number of hash functions instead of the number of cells of
a field. A sketch with more hash functions than cells in a field leaves its fields, and the vector.

The values of type `size_t` are those of a machine of 64 bits. The digest `SHA256` is a parameter.

## Main definitions

* `truncatedDigest`, `CountMin.getSketchCell`: the cell of a hash function.
* `CountMin.increment`, `CountMin.getCount`: counting and estimating.
* `KeepsFields`, `NeverUnderestimates`: what a sketch is to guarantee.

## Main results

* `run_new_of_inside`: what the cells hold after some increments.
* `keepsFields_and_neverUnderestimates_iff`: for which sketches it is guaranteed.
-/

namespace Cobalt.Algorithms

/-! ### Hashing -/

section Hash

variable (sha256 : List UInt8 → Vector UInt8 32)

/-- The bytes of a `uint64_t` in memory. -/
def bytesOf (seed : UInt64) : List UInt8 :=
  (List.range 8).map fun i => (seed >>> UInt64.ofNat (8 * i)).toUInt8

/-- The first eight bytes of a digest, read as a `uint64_t`. -/
def firstWord (digest : Vector UInt8 32) : UInt64 :=
  UInt64.ofNat (Nat.ofDigits 256 ((digest.toList.take 8).map UInt8.toNat))

/-- `Hash64WithSeed`. -/
def hash64WithSeed (data : List UInt8) (seed : UInt64) : UInt64 :=
  firstWord (sha256 (bytesOf seed ++ data))

/-- `TruncateDigest`. -/
def truncateDigest (digest max : UInt64) : UInt64 := digest % max

/-- `TruncatedDigest`. -/
def truncatedDigest (data : List UInt8) (seed max : UInt64) : UInt64 :=
  truncateDigest (hash64WithSeed sha256 data seed) max

end Hash

/-! ### The sketch -/

/-- `CountMin`. The vector of the cells has the size that both constructors give it. -/
structure CountMin where
  numCells : UInt64
  numHashes : UInt64
  cells : List UInt32
  size_eq : cells.length = (numCells * numHashes).toNat

namespace CountMin

/-- The constructor of an empty sketch. -/
def new (numCells numHashes : UInt64) : CountMin where
  numCells := numCells
  numHashes := numHashes
  cells := List.replicate (numCells * numHashes).toNat 0
  size_eq := List.length_replicate

variable (sha256 : List UInt8 → Vector UInt8 32)

/-- `GetSketchCell`. -/
def getSketchCell (s : CountMin) (data : List UInt8) (index : UInt64) : UInt64 :=
  index * s.numCells + truncatedDigest sha256 data index s.numHashes

/-- `cells_[cell] += num`; `none` where the cell is outside of the vector. -/
def addToCell (s : CountMin) (cell : ℕ) (num : Int32) : Option CountMin :=
  if cell < s.cells.length then
    some { s with
      cells := s.cells.modify cell (· + num.toUInt32)
      size_eq := (List.length_modify ..).trans s.size_eq }
  else none

/-- `Increment`. -/
def increment (s : CountMin) (data : List UInt8) (num : Int32) : Option CountMin :=
  (List.range s.numHashes.toNat).foldlM
    (fun s i => s.addToCell (s.getSketchCell sha256 data (UInt64.ofNat i)).toNat num) s

/-- `GetCount`. -/
def getCount (s : CountMin) (data : List UInt8) : Option UInt32 :=
  (List.range s.numHashes.toNat).foldlM (fun minCount i => do
    let count ← s.cells[(s.getSketchCell sha256 data (UInt64.ofNat i)).toNat]?
    return if count < minCount ∨ i = 0 then count else minCount) 0

/-- A sequence of calls of `Increment`. -/
def run (s : CountMin) (calls : List (List UInt8 × Int32)) : Option CountMin :=
  calls.foldlM (fun s call => s.increment sha256 call.1 call.2) s

end CountMin

/-! ### What a sketch is to guarantee -/

section Guarantee

variable (sha256 : List UInt8 → Vector UInt8 32) (numCells numHashes : UInt64)

/-- The cell of an observation for a hash function, in a sketch of a shape. -/
def cellOf (data : List UInt8) (k : ℕ) : ℕ :=
  (UInt64.ofNat k * numCells + truncatedDigest sha256 data (UInt64.ofNat k) numHashes).toNat

/-- Each hash function has a field of its own, inside the vector. -/
def KeepsFields : Prop :=
  ∀ data k, k < numHashes.toNat →
    k * numCells.toNat ≤ cellOf sha256 numCells numHashes data k ∧
      cellOf sha256 numCells numHashes data k < (k + 1) * numCells.toNat ∧
      cellOf sha256 numCells numHashes data k < (numCells * numHashes).toNat

/-- The total amount that was added for an observation. -/
def amountOf (calls : List (List UInt8 × Int32)) (data : List UInt8) : ℕ :=
  ((calls.filter fun call => call.1 = data).map fun call => call.2.toNatClampNeg).sum

/-- The additions that calls make, as pairs of a cell and an amount. -/
def additions (calls : List (List UInt8 × Int32)) : List (ℕ × Int32) :=
  calls.flatMap fun call =>
    (List.range numHashes.toNat).map fun k =>
      (cellOf sha256 numCells numHashes call.1 k, call.2)

/-- The total amount that is added to a cell. -/
def loadOf (adds : List (ℕ × Int32)) (cell : ℕ) : ℕ :=
  ((adds.filter fun add => add.1 = cell).map fun add => add.2.toNatClampNeg).sum

/-- No estimate is too small: after calls with positive amounts that overflow no cell, the
estimate of every observation is at least the amount that was added for it. -/
def NeverUnderestimates : Prop :=
  ∀ calls : List (List UInt8 × Int32), (∀ call ∈ calls, 0 < call.2) →
    (∀ cell, loadOf (additions sha256 numCells numHashes calls) cell < 2 ^ 32) →
    ∃ s, (CountMin.new numCells numHashes).run sha256 calls = some s ∧
      ∀ data, ∃ count, s.getCount sha256 data = some count ∧ amountOf calls data ≤ count.toNat

end Guarantee

/-! ### What the cells hold -/

variable {sha256 : List UInt8 → Vector UInt8 32} {numCells numHashes : UInt64} {s : CountMin}
  {calls : List (List UInt8 × Int32)} {data : List UInt8}

/-- A sequence of additions to cells. -/
def CountMin.addAll (s : CountMin) (adds : List (ℕ × Int32)) : Option CountMin :=
  adds.foldlM (fun s add => s.addToCell add.1 add.2) s

/-- A sketch of the same shape, whose cells hold given values. -/
structure CountMin.Holds (s s' : CountMin) (value : ℕ → ℕ) : Prop where
  numCells : s'.numCells = s.numCells
  numHashes : s'.numHashes = s.numHashes
  length : s'.cells.length = s.cells.length
  cells : ∀ cell < s.cells.length, (s'.cells.getD cell 0).toNat = value cell

theorem loadOf_cons (add : ℕ × Int32) (adds : List (ℕ × Int32)) (cell : ℕ) :
    loadOf (add :: adds) cell =
      (if add.1 = cell then add.2.toNatClampNeg else 0) + loadOf adds cell := by
  rw [loadOf, loadOf, List.filter_cons]
  by_cases h : add.1 = cell
  · rw [if_pos h, if_pos (decide_eq_true h), List.map_cons, List.sum_cons]
  · rw [if_neg h, if_neg (by simpa using h), Nat.zero_add]

theorem loadOf_append (adds adds' : List (ℕ × Int32)) (cell : ℕ) :
    loadOf (adds ++ adds') cell = loadOf adds cell + loadOf adds' cell := by
  rw [loadOf, List.filter_append, List.map_append, List.sum_append, loadOf, loadOf]

/-- One addition that does not overflow. -/
theorem CountMin.addToCell_of_lt {cell : ℕ} {num : Int32} (hcell : cell < s.cells.length)
    (hnum : 0 ≤ num) (hfits : (s.cells.getD cell 0).toNat + num.toNatClampNeg < 2 ^ 32) :
    ∃ s', s.addToCell cell num = some s' ∧ s.Holds s' fun cell' =>
      (s.cells.getD cell' 0).toNat + if cell = cell' then num.toNatClampNeg else 0 := by
  refine ⟨_, if_pos hcell, rfl, rfl, List.length_modify .., fun cell' hcell' => ?_⟩
  rw [List.getD_eq_getElem?_getD, List.getElem?_modify]
  by_cases h : cell = cell'
  · subst h
    rw [List.getD_eq_getElem?_getD] at hfits ⊢
    rw [List.getElem?_eq_getElem hcell] at hfits ⊢
    simp only [if_true, Option.map_eq_map, Option.map_some, Option.getD_some, UInt32.toNat_add,
      Int32.toNat_toUInt32_of_le hnum] at hfits ⊢
    exact Nat.mod_eq_of_lt hfits
  · simp only [if_neg h, Option.map_eq_map, Option.map_id_fun', id_eq, Nat.add_zero,
      List.getD_eq_getElem?_getD]

/-- A sequence of additions that stay inside the vector and overflow no cell. -/
theorem CountMin.addAll_of_inside {adds : List (ℕ × Int32)}
    (hinside : ∀ add ∈ adds, add.1 < s.cells.length) (hnum : ∀ add ∈ adds, 0 ≤ add.2)
    (hfits : ∀ cell < s.cells.length,
      (s.cells.getD cell 0).toNat + loadOf adds cell < 2 ^ 32) :
    ∃ s', s.addAll adds = some s' ∧ s.Holds s' fun cell =>
      (s.cells.getD cell 0).toNat + loadOf adds cell := by
  induction adds generalizing s with
  | nil => exact ⟨s, rfl, rfl, rfl, rfl, fun _ _ => rfl⟩
  | cons add adds ih =>
    obtain ⟨hcell, hinside⟩ := List.forall_mem_cons.mp hinside
    obtain ⟨hadd, hnum⟩ := List.forall_mem_cons.mp hnum
    have hfirst := hfits add.1 hcell
    rw [loadOf_cons, if_pos rfl] at hfirst
    obtain ⟨s₁, hs₁, hholds⟩ := s.addToCell_of_lt hcell hadd (by omega)
    have hvalue : ∀ cell < s.cells.length, (s₁.cells.getD cell 0).toNat + loadOf adds cell =
        (s.cells.getD cell 0).toNat + loadOf (add :: adds) cell := by
      intro cell hcell
      rw [hholds.cells cell hcell, loadOf_cons, Nat.add_assoc]
    obtain ⟨s₂, hs₂, hholds'⟩ := ih (s := s₁) (hholds.length ▸ hinside) hnum fun cell hcell =>
      (hvalue cell (hholds.length ▸ hcell)).trans_lt (hfits cell (hholds.length ▸ hcell))
    refine ⟨s₂, ?_, hholds'.numCells.trans hholds.numCells,
      hholds'.numHashes.trans hholds.numHashes, hholds'.length.trans hholds.length,
      fun cell hcell => ?_⟩
    · rw [CountMin.addAll, List.foldlM_cons, hs₁]
      exact hs₂
    · rw [hholds'.cells cell (hholds.length ▸ hcell), hvalue cell hcell]

/-! ### Calls as additions -/

theorem CountMin.shape_of_addToCell {s s' : CountMin} {cell : ℕ} {num : Int32}
    (h : s.addToCell cell num = some s') :
    s'.numCells = s.numCells ∧ s'.numHashes = s.numHashes := by
  obtain ⟨-, heq⟩ := Option.ite_none_right_eq_some.mp h
  rw [← Option.some.inj heq]
  exact ⟨rfl, rfl⟩

/-- The loop of `Increment` adds to the cells of the shape. -/
theorem CountMin.foldlM_addToCell (s : CountMin) (data : List UInt8) (num : Int32) (l : List ℕ) :
    l.foldlM (fun s i => s.addToCell (s.getSketchCell sha256 data (UInt64.ofNat i)).toNat num) s =
      s.addAll (l.map fun k => (cellOf sha256 s.numCells s.numHashes data k, num)) := by
  induction l generalizing s with
  | nil => rfl
  | cons i l ih =>
    rw [List.map_cons, CountMin.addAll, List.foldlM_cons, List.foldlM_cons]
    change (s.addToCell (cellOf sha256 s.numCells s.numHashes data i) num).bind _ =
      (s.addToCell (cellOf sha256 s.numCells s.numHashes data i) num).bind _
    refine Option.bind_congr fun s' hs' => ?_
    obtain ⟨hcells, hhashes⟩ := CountMin.shape_of_addToCell hs'
    rw [ih s', hcells, hhashes, CountMin.addAll]

theorem CountMin.shape_of_addAll {s s' : CountMin} {adds : List (ℕ × Int32)}
    (h : s.addAll adds = some s') :
    s'.numCells = s.numCells ∧ s'.numHashes = s.numHashes := by
  induction adds generalizing s with
  | nil =>
    rw [← Option.some.inj h]
    exact ⟨rfl, rfl⟩
  | cons add adds ih =>
    rw [CountMin.addAll, List.foldlM_cons] at h
    obtain ⟨s₁, hs₁, hrest⟩ := Option.bind_eq_some_iff.mp h
    obtain ⟨hcells, hhashes⟩ := CountMin.shape_of_addToCell hs₁
    obtain ⟨hcells', hhashes'⟩ := ih hrest
    exact ⟨hcells'.trans hcells, hhashes'.trans hhashes⟩

/-- A sequence of calls makes the additions of the calls. -/
theorem CountMin.run_eq_addAll (s : CountMin) (calls : List (List UInt8 × Int32)) :
    s.run sha256 calls = s.addAll (additions sha256 s.numCells s.numHashes calls) := by
  induction calls generalizing s with
  | nil => rfl
  | cons call calls ih =>
    have hcons : additions sha256 s.numCells s.numHashes (call :: calls) =
        (List.range s.numHashes.toNat).map
            (fun k => (cellOf sha256 s.numCells s.numHashes call.1 k, call.2)) ++
          additions sha256 s.numCells s.numHashes calls := List.flatMap_cons
    rw [hcons, CountMin.run, List.foldlM_cons, CountMin.increment, CountMin.foldlM_addToCell,
      CountMin.addAll, CountMin.addAll, List.foldlM_append]
    refine Option.bind_congr fun s' hs' => ?_
    obtain ⟨hcells, hhashes⟩ := CountMin.shape_of_addAll hs'
    rw [← CountMin.run, ih s', hcells, hhashes, CountMin.addAll]

/-- After some calls on an empty sketch whose cells are inside the vector and do not overflow,
every cell holds what was added to it. -/
theorem run_new_of_inside (hkeeps : KeepsFields sha256 numCells numHashes)
    (hpos : ∀ call ∈ calls, 0 < call.2)
    (hfits : ∀ cell, loadOf (additions sha256 numCells numHashes calls) cell < 2 ^ 32) :
    ∃ s, (CountMin.new numCells numHashes).run sha256 calls = some s ∧
      (CountMin.new numCells numHashes).Holds s
        (loadOf (additions sha256 numCells numHashes calls)) := by
  have hzero (cell : ℕ) : ((CountMin.new numCells numHashes).cells.getD cell 0).toNat = 0 := by
    rw [CountMin.new, List.getD_eq_getElem?_getD, List.getElem?_getD_replicate_default_eq]
    rfl
  have hlength : (CountMin.new numCells numHashes).cells.length =
      (numCells * numHashes).toNat := List.length_replicate
  have hmem : ∀ add ∈ additions sha256 numCells numHashes calls,
      add.1 < (numCells * numHashes).toNat ∧ 0 ≤ add.2 := by
    intro add hadd
    obtain ⟨call, hcall, hadd⟩ := List.mem_flatMap.mp hadd
    obtain ⟨k, hk, rfl⟩ := List.mem_map.mp hadd
    exact ⟨(hkeeps call.1 k (List.mem_range.mp hk)).2.2, Int32.le_of_lt (hpos call hcall)⟩
  obtain ⟨s, hs, hholds⟩ := (CountMin.new numCells numHashes).addAll_of_inside
    (fun add hadd => hlength ▸ (hmem add hadd).1) (fun add hadd => (hmem add hadd).2)
    (fun cell _ => by rw [hzero, Nat.zero_add]; exact hfits cell)
  refine ⟨s, ?_, hholds.numCells, hholds.numHashes, hholds.length, fun cell hcell => ?_⟩
  · rw [CountMin.run_eq_addAll]
    exact hs
  · rw [hholds.cells cell hcell, hzero, Nat.zero_add]

/-! ### Estimates -/

theorem amountOf_cons (call : List UInt8 × Int32) (calls : List (List UInt8 × Int32))
    (data : List UInt8) :
    amountOf (call :: calls) data =
      (if call.1 = data then call.2.toNatClampNeg else 0) + amountOf calls data := by
  rw [amountOf, amountOf, List.filter_cons]
  by_cases h : call.1 = data
  · rw [if_pos h, if_pos (decide_eq_true h), List.map_cons, List.sum_cons]
  · rw [if_neg h, if_neg (by simpa using h), Nat.zero_add]

theorem toNatClampNeg_le_loadOf {adds : List (ℕ × Int32)} {add : ℕ × Int32} (h : add ∈ adds) :
    add.2.toNatClampNeg ≤ loadOf adds add.1 := by
  refine List.le_sum_of_mem (List.mem_map.mpr ⟨add, ?_, rfl⟩)
  exact List.mem_filter.mpr ⟨h, decide_eq_true rfl⟩

/-- Every cell of an observation has got the whole amount of the observation. -/
theorem amountOf_le_loadOf (calls : List (List UInt8 × Int32)) (data : List UInt8) {k : ℕ}
    (hk : k < numHashes.toNat) :
    amountOf calls data ≤ loadOf (additions sha256 numCells numHashes calls)
      (cellOf sha256 numCells numHashes data k) := by
  induction calls with
  | nil => exact Nat.le_refl 0
  | cons call calls ih =>
    rw [amountOf_cons, additions, List.flatMap_cons, loadOf_append, ← additions]
    refine Nat.add_le_add ?_ ih
    split_ifs with h
    · subst h
      have hmem : (cellOf sha256 numCells numHashes call.1 k, call.2) ∈
          (List.range numHashes.toNat).map fun k =>
            (cellOf sha256 numCells numHashes call.1 k, call.2) :=
        List.mem_map.mpr ⟨k, List.mem_range.mpr hk, rfl⟩
      exact toNatClampNeg_le_loadOf hmem
    · exact Nat.zero_le _

/-- The smallest value of the cells of an observation is found, if the cells are inside the
vector. -/
theorem CountMin.getCount_of_inside {lower : ℕ} (hhashes : 0 < s.numHashes.toNat)
    (hinside : ∀ k < s.numHashes.toNat,
      cellOf sha256 s.numCells s.numHashes data k < s.cells.length)
    (hlower : ∀ k < s.numHashes.toNat,
      lower ≤ (s.cells.getD (cellOf sha256 s.numCells s.numHashes data k) 0).toNat) :
    ∃ count, s.getCount sha256 data = some count ∧ lower ≤ count.toNat := by
  -- The estimate after the first fields is bounded as soon as there was one.
  have hprefix : ∀ n ≤ s.numHashes.toNat, ∃ count : UInt32,
      (List.range n).foldlM (fun minCount i => do
        let count ← s.cells[(s.getSketchCell sha256 data (UInt64.ofNat i)).toNat]?
        return if count < minCount ∨ i = 0 then count else minCount) 0 = some count ∧
      (0 < n → lower ≤ count.toNat) := by
    intro n hn
    induction n with
    | zero => exact ⟨0, rfl, fun h => absurd h (Nat.lt_irrefl 0)⟩
    | succ n ih =>
      obtain ⟨minCount, hfold, hmin⟩ := ih (Nat.le_of_succ_le hn)
      have hcell := hinside n hn
      have hvalue := hlower n hn
      rw [List.getD_eq_getElem _ _ hcell] at hvalue
      have hget : s.cells[(s.getSketchCell sha256 data (UInt64.ofNat n)).toNat]? =
          some (s.cells[cellOf sha256 s.numCells s.numHashes data n]) :=
        List.getElem?_eq_getElem hcell
      refine ⟨if s.cells[cellOf sha256 s.numCells s.numHashes data n] < minCount ∨ n = 0
        then s.cells[cellOf sha256 s.numCells s.numHashes data n] else minCount, ?_, fun _ => ?_⟩
      · rw [List.range_succ, List.foldlM_append, hfold]
        simp only [Option.bind_eq_bind, Option.bind_some, List.foldlM_cons, List.foldlM_nil, hget]
        rfl
      · split_ifs with h
        · exact hvalue
        · exact hmin (Nat.pos_of_ne_zero fun hn => h (.inr hn))
  obtain ⟨count, hcount, hle⟩ := hprefix _ (Nat.le_refl _)
  exact ⟨count, hcount, hle hhashes⟩

/-- A sketch whose hash functions keep to their fields underestimates no count. -/
theorem neverUnderestimates_of_keepsFields (hhashes : 0 < numHashes.toNat)
    (hkeeps : KeepsFields sha256 numCells numHashes) :
    NeverUnderestimates sha256 numCells numHashes := by
  intro calls hpos hfits
  obtain ⟨s, hs, hnumCells, hnumHashes, hlength, hcells⟩ := run_new_of_inside hkeeps hpos hfits
  refine ⟨s, hs, fun data => ?_⟩
  have hsize : (CountMin.new numCells numHashes).cells.length =
      (numCells * numHashes).toNat := List.length_replicate
  have hinside (k : ℕ) (hk : k < numHashes.toNat) :
      cellOf sha256 numCells numHashes data k < (CountMin.new numCells numHashes).cells.length :=
    hsize ▸ (hkeeps data k hk).2.2
  change s.numCells = numCells at hnumCells
  change s.numHashes = numHashes at hnumHashes
  subst hnumCells hnumHashes
  refine s.getCount_of_inside hhashes (fun k hk => hlength ▸ hinside k hk) fun k hk => ?_
  rw [hcells _ (hinside k hk)]
  exact amountOf_le_loadOf calls data hk

/-! ### For which sketches it is guaranteed -/

/-- Every hash of a hash function is less than the number of cells of a field. -/
def DigestsFit (sha256 : List UInt8 → Vector UInt8 32) (numCells numHashes : UInt64) : Prop :=
  ∀ data k, k < numHashes.toNat →
    truncatedDigest sha256 data (UInt64.ofNat k) numHashes < numCells

/-- The cell of a hash function, in a sketch whose size does not overflow. -/
theorem cellOf_eq_mod {k : ℕ} (hk : k < numHashes.toNat) (hcells : 0 < numCells.toNat)
    (hsize : numCells.toNat * numHashes.toNat < 2 ^ 64) :
    cellOf sha256 numCells numHashes data k = (k * numCells.toNat +
      (truncatedDigest sha256 data (UInt64.ofNat k) numHashes).toNat) % 2 ^ 64 := by
  have hfield : k * numCells.toNat < numHashes.toNat * numCells.toNat :=
    Nat.mul_lt_mul_of_pos_right hk hcells
  have hmul : (UInt64.ofNat k * numCells).toNat = k * numCells.toNat := by
    rw [UInt64.toNat_mul, UInt64.toNat_ofNat_of_lt' (hk.trans numHashes.toNat_lt)]
    refine Nat.mod_eq_of_lt (hfield.trans ?_)
    rwa [Nat.mul_comm]
  rw [cellOf, UInt64.toNat_add, hmul]

/-- The hash functions keep to their fields exactly if the size of the sketch does not overflow
and every hash is less than the number of cells of a field. -/
theorem keepsFields_iff (hcells : 0 < numCells) (hhashes : 0 < numHashes) :
    KeepsFields sha256 numCells numHashes ↔
      numCells.toNat * numHashes.toNat < 2 ^ 64 ∧ DigestsFit sha256 numCells numHashes := by
  have hcells' : 0 < numCells.toNat := UInt64.lt_iff_toNat_lt.mp hcells
  have hhashes' : 0 < numHashes.toNat := UInt64.lt_iff_toNat_lt.mp hhashes
  constructor
  · intro hkeeps
    -- The last field starts inside the vector, so that the vector has all of the fields.
    have hlast := hkeeps [] (numHashes.toNat - 1) (by omega)
    have hmul : (numHashes.toNat - 1) * numCells.toNat + numCells.toNat =
        numCells.toNat * numHashes.toNat := by
      rw [← Nat.succ_mul, Nat.succ_eq_add_one, Nat.sub_add_cancel hhashes', Nat.mul_comm]
    have hsize : numCells.toNat * numHashes.toNat < 2 ^ 64 := by
      by_contra hover
      have hmod : (numCells * numHashes).toNat =
          numCells.toNat * numHashes.toNat % 2 ^ 64 := UInt64.toNat_mul ..
      have hlt := numCells.toNat_lt
      omega
    refine ⟨hsize, fun data k hk => UInt64.lt_iff_toNat_lt.mpr ?_⟩
    obtain ⟨hlower, hupper, -⟩ := hkeeps data k hk
    rw [cellOf_eq_mod hk hcells' hsize] at hlower hupper
    -- A sum that overflows is less than the start of the field.
    have hdigest := (truncatedDigest sha256 data (UInt64.ofNat k) numHashes).toNat_lt
    have hfield : (k + 1) * numCells.toNat ≤ numHashes.toNat * numCells.toNat :=
      Nat.mul_le_mul_right _ hk
    rw [Nat.succ_mul] at hupper hfield
    rw [Nat.mul_comm] at hsize
    omega
  · rintro ⟨hsize, hfit⟩ data k hk
    have hdigest := UInt64.lt_iff_toNat_lt.mp (hfit data k hk)
    have hfield : (k + 1) * numCells.toNat ≤ numHashes.toNat * numCells.toNat :=
      Nat.mul_le_mul_right _ hk
    have hlength : (numCells * numHashes).toNat = numHashes.toNat * numCells.toNat := by
      rw [UInt64.toNat_mul, Nat.mul_comm]
      exact Nat.mod_eq_of_lt (by rwa [Nat.mul_comm])
    rw [cellOf_eq_mod hk hcells' hsize, hlength]
    rw [Nat.succ_mul] at hfield ⊢
    rw [Nat.mul_comm] at hsize
    rw [Nat.mod_eq_of_lt (by omega)]
    refine ⟨Nat.le_add_right _ _, ?_, ?_⟩
    · omega
    · omega

theorem length_bytesOf (seed : UInt64) : (bytesOf seed).length = 8 :=
  List.length_map _

/-- A digest whose first eight bytes are those of a word. -/
def digestOf (word : UInt64) : Vector UInt8 32 :=
  ⟨(bytesOf word ++ List.replicate 24 0).toArray, List.length_append⟩

/-- The first bytes of a number make up its remainder. -/
theorem ofDigits_map_range (n x : ℕ) :
    Nat.ofDigits 256 ((List.range n).map fun i => x / 256 ^ i % 256) = x % 256 ^ n := by
  induction n generalizing x with
  | zero => rw [Nat.pow_zero, Nat.mod_one, List.range_zero, List.map_nil, Nat.ofDigits_nil]
  | succ n ih =>
    have htail : (List.range n).map (fun i => x / 256 ^ (i + 1) % 256) =
        (List.range n).map fun i => x / 256 / 256 ^ i % 256 :=
      List.map_congr_left fun i _ => by rw [Nat.div_div_eq_div_mul, Nat.pow_succ']
    rw [List.range_succ_eq_map, List.map_cons, List.map_map, Nat.ofDigits_cons, Nat.pow_zero,
      Nat.div_one, Nat.pow_succ', Nat.mod_mul, ← ih (x / 256), ← htail]
    rfl

theorem firstWord_digestOf (word : UInt64) : firstWord (digestOf word) = word := by
  have htake : (digestOf word).toList.take 8 = bytesOf word :=
    List.take_left' (length_bytesOf word)
  have hbyte (i : ℕ) (hi : i < 8) :
      (word >>> UInt64.ofNat (8 * i)).toUInt8.toNat = word.toNat / 256 ^ i % 256 := by
    have hshift : (UInt64.ofNat (8 * i)).toNat = 8 * i :=
      UInt64.toNat_ofNat_of_lt' (by rw [UInt64.size]; omega)
    rw [UInt64.toNat_toUInt8, UInt64.toNat_shiftRight, hshift,
      Nat.mod_eq_of_lt (by omega : 8 * i < 64), Nat.shiftRight_eq_div_pow, Nat.pow_mul]
  have hbytes : (bytesOf word).map UInt8.toNat =
      (List.range 8).map fun i => word.toNat / 256 ^ i % 256 := by
    rw [bytesOf, List.map_map]
    exact List.map_congr_left fun i hi => hbyte i (List.mem_range.mp hi)
  have hword : word.toNat < 256 ^ 8 := word.toNat_lt
  rw [firstWord, htake, hbytes, ofDigits_map_range, Nat.mod_eq_of_lt hword, UInt64.ofNat_toNat]

/-- Every hash fits whatever the hash function is exactly if there are at most as many hash
functions as cells in a field. -/
theorem forall_digestsFit_iff (hhashes : 0 < numHashes) :
    (∀ sha256, DigestsFit sha256 numCells numHashes) ↔ numHashes ≤ numCells := by
  constructor
  · intro hfit
    by_contra hlt
    have hlt : numCells < numHashes := UInt64.not_le.mp hlt
    have hzero := hfit (fun _ => digestOf numCells) [] 0 (UInt64.lt_iff_toNat_lt.mp hhashes)
    rw [truncatedDigest, truncateDigest, hash64WithSeed, firstWord_digestOf] at hzero
    rw [UInt64.lt_iff_toNat_lt, UInt64.toNat_mod,
      Nat.mod_eq_of_lt (UInt64.lt_iff_toNat_lt.mp hlt)] at hzero
    exact Nat.lt_irrefl _ hzero
  · intro hle sha256 data k hk
    exact UInt64.lt_of_lt_of_le (UInt64.mod_lt _ hhashes) hle

/-- **For which sketches the guarantee is met**: those whose size does not overflow and whose
hashes are less than the number of cells of a field. Whatever the hash function is, this is so
exactly if there are at most as many hash functions as cells in a field. -/
theorem keepsFields_and_neverUnderestimates_iff (hcells : 0 < numCells) (hhashes : 0 < numHashes) :
    (∀ sha256, KeepsFields sha256 numCells numHashes ∧
        NeverUnderestimates sha256 numCells numHashes ↔
      numCells.toNat * numHashes.toNat < 2 ^ 64 ∧ DigestsFit sha256 numCells numHashes) ∧
    ((∀ sha256, KeepsFields sha256 numCells numHashes ∧
        NeverUnderestimates sha256 numCells numHashes) ↔
      numCells.toNat * numHashes.toNat < 2 ^ 64 ∧ numHashes ≤ numCells) := by
  have hiff (sha256 : List UInt8 → Vector UInt8 32) :
      KeepsFields sha256 numCells numHashes ∧ NeverUnderestimates sha256 numCells numHashes ↔
        numCells.toNat * numHashes.toNat < 2 ^ 64 ∧ DigestsFit sha256 numCells numHashes := by
    rw [← keepsFields_iff hcells hhashes]
    exact and_iff_left_of_imp
      (neverUnderestimates_of_keepsFields (UInt64.lt_iff_toNat_lt.mp hhashes))
  refine ⟨hiff, ?_⟩
  have : Nonempty (List UInt8 → Vector UInt8 32) := ⟨fun _ => digestOf 0⟩
  rw [← forall_digestsFit_iff hhashes, ← forall_and_left]
  exact forall_congr' hiff

/-- A sketch of the shape of the tests. -/
theorem keepsFields_and_neverUnderestimates_iff_2000_10 :
    (0 : UInt64) < 2000 ∧ (0 : UInt64) < 10 ∧
      ∀ sha256, KeepsFields sha256 2000 10 ∧ NeverUnderestimates sha256 2000 10 := by
  have hcells : (0 : UInt64) < 2000 := by decide
  have hhashes : (0 : UInt64) < 10 := by decide
  refine ⟨hcells, hhashes, ?_⟩
  exact (keepsFields_and_neverUnderestimates_iff hcells hhashes).2.mpr ⟨by decide, by decide⟩

/-- The SHA-256 digests of the letter d after each of the seeds 0 and 1. -/
def digestsOfD (data : List UInt8) : Vector UInt8 32 :=
  if data = bytesOf 0 ++ [100] then
    #v[251, 132, 253, 225, 240, 216, 150, 152, 40, 1, 120, 162, 58, 177, 77, 70,
      51, 208, 198, 228, 248, 7, 244, 111, 183, 216, 234, 252, 123, 60, 67, 243]
  else if data = bytesOf 1 ++ [100] then
    #v[141, 192, 84, 82, 250, 222, 106, 5, 179, 63, 118, 31, 2, 17, 162, 157,
      61, 48, 56, 175, 74, 1, 59, 49, 195, 57, 182, 125, 80, 98, 162, 241]
  else Vector.replicate 32 0

/-- With fields of one cell, the letter d is counted in the field of the other hash function, and
then outside of the vector. -/
theorem not_keepsFields_not_neverUnderestimates_1_2 :
    ¬ KeepsFields digestsOfD 1 2 ∧ ¬ NeverUnderestimates digestsOfD 1 2 := by
  have hcell₀ : cellOf digestsOfD 1 2 [100] 0 = 1 := by decide
  have hcell₁ : cellOf digestsOfD 1 2 [100] 1 = 2 := by decide
  constructor
  · intro hkeeps
    have hfield := hkeeps [100] 0 (by decide)
    rw [hcell₀] at hfield
    exact absurd hfield.2.1 (by decide)
  · intro hnever
    have hadds : additions digestsOfD 1 2 [([100], 1)] = [(1, 1), (2, 1)] := by
      rw [← hcell₀, ← hcell₁]
      rfl
    have hfits (cell : ℕ) : loadOf (additions digestsOfD 1 2 [([100], 1)]) cell < 2 ^ 32 := by
      have hnil : loadOf [] cell = 0 := rfl
      rw [hadds, loadOf_cons, loadOf_cons, hnil]
      split_ifs <;> decide
    have hnone : (CountMin.new 1 2).run digestsOfD [([100], 1)] = none := by
      rw [CountMin.run_eq_addAll]
      change (CountMin.new 1 2).addAll (additions digestsOfD 1 2 [([100], 1)]) = none
      rw [hadds]
      rfl
    obtain ⟨s, hs, -⟩ := hnever [([100], 1)] (by decide) hfits
    rw [hnone] at hs
    cases hs

end Cobalt.Algorithms
