import Cobalt.Lib.MachineInt
import Mathlib.Algebra.Order.Group.Nat
import Mathlib.Data.List.Basic
import Mathlib.Data.List.DropRight
import Mathlib.Data.Nat.Digits.Defs

/-!
# Packed event codes

Several event codes travel in one 64-bit number: five codes of ten bits (version 0) or, when one of
them needs more bits, four codes of fifteen bits under a version header.

## Main definitions

* `packEventCodes`, `packEventCodesV1`, `unpackEventCodes`.
* `trimmed`, `Packable`: the codes without zeros at the end, and those that a layout can hold.

## Main results

* `packEventCodes_unpackEventCodes`: below `2 ^ 50`, where the header is zero, packing what was
  unpacked gives back the number.
* `packEventCodes_spec`: which codes can be unpacked, up to zeros at the end.
-/

namespace Cobalt.Config

/-- The mask for one code of version 0. -/
def kEventCodeMask : ℕ := 0b1111111111

/-- The mask for one code of version 1. -/
def kV1EventCodeMask : ℕ := 0b111111111111111

def kVersionHeaderOffset : ℕ := 60

def kV0NumEventCodes : ℕ := 5

def kV0MaxEventCodeSize : ℕ := 1024

def kV0EventCodeSize : ℕ := 10

def kV1NumEventCodes : ℕ := 4

def kV1EventCodeSize : ℕ := 15

/-- The loop of the two packing functions: the first `n` codes are masked and shifted into
consecutive fields of `size` bits, the code at hand into the field `i`. -/
def packFields (mask size n : ℕ) : List ℕ → (i : ℕ) → (packed : ℕ) → ℕ
  | [], _, packed => packed
  | code :: codes, i, packed =>
    if n ≤ i then packed
    else packFields mask size n codes (i + 1) (packed ||| (code &&& mask) <<< (size * i))

/-- `PackEventCodes_v1`. Codes past the fourth are ignored. -/
def packEventCodesV1 (eventCodes : List ℕ) : ℕ :=
  packFields kV1EventCodeMask kV1EventCodeSize kV1NumEventCodes eventCodes 0
    (1 <<< kVersionHeaderOffset)

/-- `PackEventCodes`. The first of the five codes that does not fit into ten bits makes the
function start over with version 1. -/
def packEventCodes (eventCodes : List ℕ) : ℕ :=
  if (eventCodes.take kV0NumEventCodes).any (kV0MaxEventCodeSize ≤ ·) then
    packEventCodesV1 eventCodes
  else packFields kEventCodeMask kV0EventCodeSize kV0NumEventCodes eventCodes 0 0

/-- `ReadVersion`. -/
def readVersion (packedEventCodes : ℕ) : ℕ :=
  (packedEventCodes &&& 0b1111 <<< kVersionHeaderOffset) >>> kVersionHeaderOffset

/-- The loop of `UnpackEventCodes`; each field is stored into a `uint32_t`. -/
def unpackFields (mask size n packedEventCodes : ℕ) : List ℕ :=
  (List.range n).map fun i =>
    U32.ofNat ((packedEventCodes &&& mask <<< (size * i)) >>> (size * i))

/-- `UnpackEventCodes`. An unknown version is read as five zeros. -/
def unpackEventCodes (packedEventCodes : ℕ) : List ℕ :=
  match readVersion packedEventCodes with
  | 0 => unpackFields kEventCodeMask kV0EventCodeSize kV0NumEventCodes packedEventCodes
  | 1 => unpackFields kV1EventCodeMask kV1EventCodeSize kV1NumEventCodes packedEventCodes
  | _ => [0, 0, 0, 0, 0]

/-! ### Fields of a number -/

/-- Masking and shifting reads one digit of the number in base `2 ^ b`. -/
private theorem and_mask_shiftRight (x b i : ℕ) :
    (x &&& (2 ^ b - 1) <<< (b * i)) >>> (b * i) = x / 2 ^ (b * i) % 2 ^ b := by
  rw [Nat.shiftRight_and_distrib, Nat.shiftLeft_shiftRight, Nat.and_two_pow_sub_one_eq_mod,
    Nat.shiftRight_eq_div_pow]

private theorem unpackFields_eq_map {size : ℕ} (hsize : 2 ^ size ≤ U32.size) (n x : ℕ) :
    unpackFields (2 ^ size - 1) size n x =
      (List.range n).map fun i => x / 2 ^ (size * i) % 2 ^ size := by
  refine List.map_congr_left fun i _ => ?_
  have hlt : x / 2 ^ (size * i) % 2 ^ size < U32.size :=
    (Nat.mod_lt _ (Nat.two_pow_pos _)).trans_le hsize
  rw [and_mask_shiftRight, U32.ofNat_of_lt hlt]

private theorem readVersion_of_lt {x : ℕ} (h : x < 2 ^ 50) : readVersion x = 0 := by
  rw [readVersion, Nat.shiftRight_and_distrib, Nat.shiftLeft_shiftRight,
    Nat.shiftRight_eq_div_pow, Nat.div_eq_of_lt (h.trans (by decide)), Nat.zero_and]

/-- Adding the next digit to the digits below it. -/
private theorem lor_digit (x i : ℕ) :
    x % 2 ^ (10 * i) ||| (x / 2 ^ (10 * i) % 2 ^ 10 &&& kEventCodeMask) <<< (10 * i) =
      x % 2 ^ (10 * (i + 1)) := by
  have hmask : kEventCodeMask = 2 ^ 10 - 1 := by decide
  have hlow : x % 2 ^ (10 * i) < 2 ^ (10 * i) := Nat.mod_lt _ (Nat.two_pow_pos _)
  rw [hmask, Nat.and_two_pow_sub_one_eq_mod, Nat.mod_mod, Nat.or_comm,
    ← Nat.shiftLeft_add_eq_or_of_lt hlow, Nat.shiftLeft_eq, Nat.mul_succ, Nat.pow_add,
    Nat.mod_mul, Nat.add_comm, Nat.mul_comm (x / _ % _)]

/-- Packing the digits of `x` from the field `i` on, over the digits below it. -/
private theorem packFields_digits (x : ℕ) {m i : ℕ} (h : i + m ≤ kV0NumEventCodes) :
    packFields kEventCodeMask 10 kV0NumEventCodes
        ((List.range' i m).map fun j => x / 2 ^ (10 * j) % 2 ^ 10) i (x % 2 ^ (10 * i)) =
      x % 2 ^ (10 * (i + m)) := by
  induction m generalizing i with
  | zero => rfl
  | succ m ih =>
    rw [List.range'_succ, List.map_cons, packFields, if_neg (by omega), lor_digit, ih (by omega),
      Nat.add_assoc, Nat.add_comm 1]

/-- Below `2 ^ 50` a number is what its five unpacked codes are packed into. -/
theorem packEventCodes_unpackEventCodes {x : ℕ} (h : x < 2 ^ 50) :
    packEventCodes (unpackEventCodes x) = x := by
  have hunpack : unpackEventCodes x = (List.range 5).map fun i => x / 2 ^ (10 * i) % 2 ^ 10 := by
    have hsize : 2 ^ 10 ≤ U32.size := by decide
    rw [unpackEventCodes, readVersion_of_lt h]
    exact unpackFields_eq_map hsize 5 x
  have hfit : ¬ (((List.range 5).map fun i => x / 2 ^ (10 * i) % 2 ^ 10).take
      kV0NumEventCodes).any (kV0MaxEventCodeSize ≤ ·) = true := by
    simp only [List.any_eq_true, decide_eq_true_eq, not_exists, not_and, not_le]
    intro c hc
    obtain ⟨i, _, rfl⟩ := List.mem_map.mp (List.mem_of_mem_take hc)
    exact Nat.mod_lt _ (by decide)
  have hdigits := packFields_digits x (m := 5) (i := 0) le_rfl
  rw [Nat.mul_zero, Nat.pow_zero, Nat.mod_one, ← List.range_eq_range'] at hdigits
  rw [packEventCodes, hunpack, if_neg hfit, kV0EventCodeSize, hdigits]
  exact Nat.mod_eq_of_lt h

/-! ### Unpacking what was packed -/

/-- A digit of a number that is given by its digits. -/
private theorem ofDigits_div_mod {b : ℕ} {digits : List ℕ} (h : ∀ d ∈ digits, d < b) (i : ℕ) :
    Nat.ofDigits b digits / b ^ i % b = digits.getD i 0 := by
  induction digits generalizing i with
  | nil => simp
  | cons d digits ih =>
    have hd : d < b := h d List.mem_cons_self
    rw [Nat.ofDigits_cons]
    cases i with
    | zero => simp [Nat.mod_eq_of_lt hd]
    | succ i =>
      rw [pow_succ', ← Nat.div_div_eq_div_mul, Nat.add_mul_div_left _ _ (Nat.zero_lt_of_lt hd),
        Nat.div_eq_of_lt hd, Nat.zero_add, ih (fun d hd => h d (List.mem_cons_of_mem _ hd)),
        List.getD_cons_succ]

/-- What is below the fields stays apart. -/
private theorem packFields_lor (mask size n : ℕ) (codes : List ℕ) (i a b : ℕ) :
    packFields mask size n codes i (a ||| b) = a ||| packFields mask size n codes i b := by
  induction codes generalizing i b with
  | nil => rfl
  | cons code codes ih =>
    rw [packFields, packFields]
    split_ifs
    · rfl
    · rw [Nat.or_assoc, ih]

/-- Packing codes that fit makes them the digits of a number. -/
private theorem packFields_eq_ofDigits {size n : ℕ} {codes : List ℕ}
    (hcodes : ∀ code ∈ codes, code < 2 ^ size) {i packed : ℕ} (hpacked : packed < 2 ^ (size * i))
    (hlength : i + codes.length ≤ n) :
    packFields (2 ^ size - 1) size n codes i packed =
      packed + 2 ^ (size * i) * Nat.ofDigits (2 ^ size) codes := by
  induction codes generalizing i packed with
  | nil => simp [packFields]
  | cons code codes ih =>
    rw [List.length_cons] at hlength
    have hcode : code < 2 ^ size := hcodes code List.mem_cons_self
    have hstep : packed ||| (code &&& (2 ^ size - 1)) <<< (size * i) =
        packed + 2 ^ (size * i) * code := by
      rw [Nat.and_two_pow_sub_one_eq_mod, Nat.mod_eq_of_lt hcode, Nat.or_comm,
        ← Nat.shiftLeft_add_eq_or_of_lt hpacked, Nat.shiftLeft_eq, Nat.add_comm, Nat.mul_comm code]
    have hnext : packed + 2 ^ (size * i) * code < 2 ^ (size * (i + 1)) := by
      rw [Nat.mul_succ, Nat.pow_add]
      calc packed + 2 ^ (size * i) * code < 2 ^ (size * i) * 1 + 2 ^ (size * i) * code := by omega
        _ = 2 ^ (size * i) * (code + 1) := by ring
        _ ≤ 2 ^ (size * i) * 2 ^ size := Nat.mul_le_mul_left _ hcode
    rw [packFields, if_neg (by omega), hstep,
      ih (fun c hc => hcodes c (List.mem_cons_of_mem _ hc)) hnext (by omega), Nat.ofDigits_cons,
      Nat.mul_succ, Nat.pow_add]
    ring

/-- Unpacking digits, of which the last one is the header. -/
private theorem unpackFields_ofDigits {size : ℕ} (hsize : 2 ^ size ≤ U32.size) {digits : List ℕ}
    (hdigits : ∀ d ∈ digits, d < 2 ^ size) {header : ℕ} (hheader : header < 2 ^ size) :
    unpackFields (2 ^ size - 1) size digits.length
      (Nat.ofDigits (2 ^ size) (digits ++ [header])) = digits := by
  have hall : ∀ d ∈ digits ++ [header], d < 2 ^ size := by
    simpa [or_imp, forall_and] using ⟨hdigits, hheader⟩
  rw [unpackFields_eq_map hsize]
  refine List.ext_getElem (by simp) fun i hi hi' => ?_
  rw [List.getElem_map, List.getElem_range, Nat.pow_mul, ofDigits_div_mod hall,
    List.getD_eq_getElem?_getD, List.getElem?_append_left hi', List.getElem?_eq_getElem hi',
    Option.getD_some]

/-- The codes, filled up with zeros. -/
def padded (n : ℕ) (eventCodes : List ℕ) : List ℕ :=
  eventCodes ++ List.replicate (n - eventCodes.length) 0

private theorem length_padded {n : ℕ} {eventCodes : List ℕ} (h : eventCodes.length ≤ n) :
    (padded n eventCodes).length = n := by
  rw [padded, List.length_append, List.length_replicate]
  omega

private theorem ofDigits_padded (b n : ℕ) (eventCodes : List ℕ) :
    Nat.ofDigits b (padded n eventCodes) = Nat.ofDigits b eventCodes := by
  have hzeros (k : ℕ) : Nat.ofDigits b (List.replicate k 0) = 0 := by
    induction k with
    | zero => rfl
    | succ k ih => rw [List.replicate_succ, Nat.ofDigits_cons, ih, Nat.mul_zero]
  rw [padded, Nat.ofDigits_append, hzeros, Nat.mul_zero, Nat.add_zero]

private theorem lt_of_mem_padded {b n : ℕ} {eventCodes : List ℕ} (hb : 0 < b)
    (h : ∀ code ∈ eventCodes, code < b) : ∀ d ∈ padded n eventCodes, d < b := by
  intro d hd
  rcases List.mem_append.mp hd with hd | hd
  · exact h d hd
  · exact (List.eq_of_mem_replicate hd).trans_lt hb

/-- Version 0. Up to five codes below `1024` can be unpacked. -/
theorem unpackEventCodes_packEventCodes_v0 {eventCodes : List ℕ} (hlength : eventCodes.length ≤ 5)
    (h : ∀ code ∈ eventCodes, code < 1024) :
    unpackEventCodes (packEventCodes eventCodes) = padded 5 eventCodes := by
  have hsize : 2 ^ 10 ≤ U32.size := by decide
  have hpad : ∀ d ∈ padded 5 eventCodes, d < 2 ^ 10 := lt_of_mem_padded (by decide) h
  have hfits : ¬ (eventCodes.take kV0NumEventCodes).any (kV0MaxEventCodeSize ≤ ·) = true := by
    simp only [List.any_eq_true, decide_eq_true_eq, not_exists, not_and, not_le]
    exact fun code hcode => h code (List.mem_of_mem_take hcode)
  have hpack : packEventCodes eventCodes = Nat.ofDigits (2 ^ 10) (padded 5 eventCodes) := by
    have hcodes : ∀ code ∈ eventCodes, code < 2 ^ 10 := h
    have hfields : packFields (2 ^ 10 - 1) 10 5 eventCodes 0 0 =
        0 + 2 ^ (10 * 0) * Nat.ofDigits (2 ^ 10) eventCodes :=
      packFields_eq_ofDigits hcodes (Nat.two_pow_pos _) (by omega)
    rw [Nat.mul_zero, pow_zero, Nat.one_mul, Nat.zero_add] at hfields
    rw [packEventCodes, if_neg hfits, ofDigits_padded]
    exact hfields
  have hlt : Nat.ofDigits (2 ^ 10) (padded 5 eventCodes) < 2 ^ 50 := by
    have hbound := Nat.ofDigits_lt_base_pow_length (by decide) hpad
    rwa [length_padded hlength] at hbound
  have hdigits := unpackFields_ofDigits hsize hpad (Nat.two_pow_pos 10)
  rw [length_padded hlength, Nat.ofDigits_append, Nat.ofDigits_singleton, Nat.mul_zero,
    Nat.add_zero] at hdigits
  rw [hpack, unpackEventCodes, readVersion_of_lt hlt]
  exact hdigits

/-- Version 1. Up to four codes below `32768`, of which one does not fit into version 0, can be
unpacked. -/
theorem unpackEventCodes_packEventCodes_v1 {eventCodes : List ℕ} (hlength : eventCodes.length ≤ 4)
    (h : ∀ code ∈ eventCodes, code < 32768) (hlarge : ∃ code ∈ eventCodes, 1024 ≤ code) :
    unpackEventCodes (packEventCodes eventCodes) = padded 4 eventCodes := by
  have hsize : 2 ^ 15 ≤ U32.size := by decide
  have hpad : ∀ d ∈ padded 4 eventCodes, d < 2 ^ 15 := lt_of_mem_padded (by decide) h
  have hany : (eventCodes.take kV0NumEventCodes).any (kV0MaxEventCodeSize ≤ ·) = true := by
    obtain ⟨code, hcode, hle⟩ := hlarge
    refine List.any_eq_true.mpr ⟨code, ?_, decide_eq_true hle⟩
    rwa [List.take_of_length_le (hlength.trans (by decide))]
  have hlt : Nat.ofDigits (2 ^ 15) (padded 4 eventCodes) < 2 ^ 60 := by
    have hbound := Nat.ofDigits_lt_base_pow_length (by decide) hpad
    rwa [length_padded hlength] at hbound
  have hpack : packEventCodes eventCodes = Nat.ofDigits (2 ^ 15) (padded 4 eventCodes ++ [1]) := by
    have hcodes : ∀ code ∈ eventCodes, code < 2 ^ 15 := h
    have hfields : packFields (2 ^ 15 - 1) 15 4 eventCodes 0 0 =
        0 + 2 ^ (15 * 0) * Nat.ofDigits (2 ^ 15) eventCodes :=
      packFields_eq_ofDigits hcodes (Nat.two_pow_pos _) (by omega)
    rw [Nat.mul_zero, pow_zero, Nat.one_mul, Nat.zero_add] at hfields
    have hheader : packEventCodesV1 eventCodes =
        1 <<< 60 ||| packFields (2 ^ 15 - 1) 15 4 eventCodes 0 0 :=
      packFields_lor _ _ _ eventCodes 0 (1 <<< 60) 0
    rw [ofDigits_padded] at hlt
    rw [packEventCodes, if_pos hany, hheader, hfields, ← Nat.shiftLeft_add_eq_or_of_lt hlt,
      Nat.ofDigits_append, Nat.ofDigits_singleton, length_padded hlength, ofDigits_padded,
      Nat.shiftLeft_eq, Nat.one_mul, Nat.mul_one, ← Nat.pow_mul, Nat.add_comm]
  have hversion : readVersion (Nat.ofDigits (2 ^ 15) (padded 4 eventCodes ++ [1])) = 1 := by
    rw [Nat.ofDigits_append, Nat.ofDigits_singleton, length_padded hlength, ← Nat.pow_mul,
      Nat.mul_one, readVersion, Nat.shiftRight_and_distrib, Nat.shiftLeft_shiftRight,
      Nat.shiftRight_eq_div_pow]
    have hone : (Nat.ofDigits (2 ^ 15) (padded 4 eventCodes) + 2 ^ (15 * 4)) /
        2 ^ kVersionHeaderOffset = 1 := by
      rw [kVersionHeaderOffset, Nat.div_eq_iff (Nat.two_pow_pos _)]
      omega
    rw [hone]
    rfl
  have hdigits := unpackFields_ofDigits hsize hpad (by decide : 1 < 2 ^ 15)
  rw [length_padded hlength] at hdigits
  rw [hpack, unpackEventCodes, hversion]
  exact hdigits

/-! ### Codes up to trailing zeros -/

/-- The codes without the zeros at the end. -/
def trimmed (eventCodes : List ℕ) : List ℕ := eventCodes.rdropWhile (· = 0)

/-- What the two layouts can hold: up to five codes of ten bits, or four of fifteen. -/
def Packable (eventCodes : List ℕ) : Prop :=
  ((trimmed eventCodes).length ≤ 5 ∧ ∀ code ∈ trimmed eventCodes, code < 1024) ∨
    ((trimmed eventCodes).length ≤ 4 ∧ ∀ code ∈ trimmed eventCodes, code < 32768)

theorem trimmed_append_zeros (eventCodes : List ℕ) (k : ℕ) :
    trimmed (eventCodes ++ List.replicate k 0) = trimmed eventCodes := by
  induction k with
  | zero => rw [List.replicate_zero, List.append_nil]
  | succ k ih =>
    rw [List.replicate_succ', ← List.append_assoc, trimmed,
      List.rdropWhile_concat_pos _ _ _ (by decide)]
    exact ih

theorem exists_eq_trimmed_append (eventCodes : List ℕ) :
    ∃ k, eventCodes = trimmed eventCodes ++ List.replicate k 0 := by
  induction eventCodes using List.reverseRecOn with
  | nil => exact ⟨0, rfl⟩
  | append_singleton codes code ih =>
    obtain ⟨k, hk⟩ := ih
    by_cases hcode : code = 0
    · refine ⟨k + 1, ?_⟩
      have htrim : trimmed (codes ++ [code]) = trimmed codes :=
        List.rdropWhile_concat_pos _ _ _ (by simpa using hcode)
      rw [htrim, List.replicate_succ', ← List.append_assoc, ← hk, hcode]
    · refine ⟨0, ?_⟩
      rw [List.replicate_zero, List.append_nil]
      exact (List.rdropWhile_concat_neg _ _ _ (by simpa using hcode)).symm

@[simp] theorem trimmed_trimmed (eventCodes : List ℕ) :
    trimmed (trimmed eventCodes) = trimmed eventCodes :=
  List.rdropWhile_idempotent _ _

@[simp] theorem trimmed_padded (n : ℕ) (eventCodes : List ℕ) :
    trimmed (padded n eventCodes) = trimmed eventCodes :=
  trimmed_append_zeros eventCodes _

private theorem packFields_zeros (mask size n k i packed : ℕ) :
    packFields mask size n (List.replicate k 0) i packed = packed := by
  induction k generalizing i with
  | zero => rfl
  | succ k ih =>
    rw [List.replicate_succ, packFields, Nat.zero_and, Nat.zero_shiftLeft, Nat.or_zero, ih,
      ite_self]

private theorem packFields_append_zeros (mask size n k : ℕ) (codes : List ℕ) (i packed : ℕ) :
    packFields mask size n (codes ++ List.replicate k 0) i packed =
      packFields mask size n codes i packed := by
  induction codes generalizing i packed with
  | nil => exact packFields_zeros mask size n k i packed
  | cons code codes ih => rw [List.cons_append, packFields, packFields, ih]

private theorem any_take_append_zeros (eventCodes : List ℕ) (k : ℕ) :
    ((eventCodes ++ List.replicate k 0).take kV0NumEventCodes).any (kV0MaxEventCodeSize ≤ ·) =
      (eventCodes.take kV0NumEventCodes).any (kV0MaxEventCodeSize ≤ ·) := by
  have hzeros (m : ℕ) : (List.replicate m 0).any (kV0MaxEventCodeSize ≤ ·) = false := by
    rw [List.any_eq_false]
    intro code hcode
    rw [List.eq_of_mem_replicate hcode]
    decide
  rw [List.take_append, List.any_append, List.take_replicate, hzeros, Bool.or_false]

/-- Zeros at the end do not change what is packed. -/
theorem packEventCodes_append_zeros (eventCodes : List ℕ) (k : ℕ) :
    packEventCodes (eventCodes ++ List.replicate k 0) = packEventCodes eventCodes := by
  rw [packEventCodes, packEventCodes, any_take_append_zeros, packEventCodesV1, packEventCodesV1,
    packFields_append_zeros, packFields_append_zeros]

theorem packEventCodes_trimmed (eventCodes : List ℕ) :
    packEventCodes (trimmed eventCodes) = packEventCodes eventCodes := by
  obtain ⟨k, hk⟩ := exists_eq_trimmed_append eventCodes
  conv_rhs => rw [hk]
  exact (packEventCodes_append_zeros _ k).symm

theorem packEventCodes_congr {l m : List ℕ} (h : trimmed l = trimmed m) :
    packEventCodes l = packEventCodes m := by
  rw [← packEventCodes_trimmed l, h, packEventCodes_trimmed]

/-- Round trip of the codes that one of the layouts can hold. -/
theorem trimmed_unpackEventCodes_packEventCodes {eventCodes : List ℕ} (h : Packable eventCodes) :
    trimmed (unpackEventCodes (packEventCodes eventCodes)) = trimmed eventCodes := by
  rw [← packEventCodes_trimmed]
  by_cases hsmall : ∀ code ∈ trimmed eventCodes, code < 1024
  · have hlength : (trimmed eventCodes).length ≤ 5 :=
      h.elim And.left fun h4 => h4.1.trans (by decide)
    rw [unpackEventCodes_packEventCodes_v0 hlength hsmall, trimmed_padded, trimmed_trimmed]
  · obtain ⟨hlength, hfit⟩ := h.resolve_left fun h5 => hsmall h5.2
    push Not at hsmall
    rw [unpackEventCodes_packEventCodes_v1 hlength hfit hsmall, trimmed_padded, trimmed_trimmed]

private theorem packable_of_fields {size n : ℕ} (hsize : 2 ^ size ≤ U32.size) (x : ℕ)
    (hfits : (size = 10 ∧ n = 5) ∨ size = 15 ∧ n = 4) :
    Packable (unpackFields (2 ^ size - 1) size n x) := by
  have hprefix : trimmed (unpackFields (2 ^ size - 1) size n x) <+:
      unpackFields (2 ^ size - 1) size n x :=
    List.rdropWhile_prefix _ _
  have hlength : (trimmed (unpackFields (2 ^ size - 1) size n x)).length ≤ n := by
    refine hprefix.length_le.trans_eq ?_
    rw [unpackFields, List.length_map, List.length_range]
  have hcodes : ∀ code ∈ trimmed (unpackFields (2 ^ size - 1) size n x), code < 2 ^ size := by
    intro code hcode
    have hmem := hprefix.subset hcode
    rw [unpackFields_eq_map hsize] at hmem
    obtain ⟨i, -, rfl⟩ := List.mem_map.mp hmem
    exact Nat.mod_lt _ (Nat.two_pow_pos _)
  obtain ⟨rfl, rfl⟩ | ⟨rfl, rfl⟩ := hfits
  · exact .inl ⟨hlength, hcodes⟩
  · exact .inr ⟨hlength, hcodes⟩

/-- Whatever is unpacked, one of the layouts can hold. -/
theorem packable_unpackEventCodes (x : ℕ) : Packable (unpackEventCodes x) := by
  rw [unpackEventCodes]
  split
  · exact @packable_of_fields 10 5 (by decide) x (.inl ⟨rfl, rfl⟩)
  · exact @packable_of_fields 15 4 (by decide) x (.inr ⟨rfl, rfl⟩)
  · exact .inl ⟨by decide, by decide⟩

/-! ### The layout -/

/-- The fields stay below their number of bits, whatever the codes are. -/
private theorem packFields_lt (size n : ℕ) (codes : List ℕ) (i : ℕ) {packed : ℕ}
    (hpacked : packed < 2 ^ (size * n)) :
    packFields (2 ^ size - 1) size n codes i packed < 2 ^ (size * n) := by
  induction codes generalizing i packed with
  | nil => exact hpacked
  | cons code codes ih =>
    rw [packFields]
    split_ifs with hn
    · exact hpacked
    · refine ih _ (Nat.or_lt_two_pow hpacked ?_)
      rw [Nat.and_two_pow_sub_one_eq_mod, Nat.shiftLeft_eq]
      calc code % 2 ^ size * 2 ^ (size * i) < 2 ^ size * 2 ^ (size * i) :=
            Nat.mul_lt_mul_of_pos_right (Nat.mod_lt _ (Nat.two_pow_pos _)) (Nat.two_pow_pos _)
        _ = 2 ^ (size * (i + 1)) := by rw [← Nat.pow_add, Nat.mul_succ, Nat.add_comm]
        _ ≤ 2 ^ (size * n) := Nat.pow_le_pow_right (by decide) (Nat.mul_le_mul_left _ (by omega))

/-- The layout of a list as it is passed. It is version 0 if and only if the first five codes
are below `1024`, and version 1 otherwise. -/
theorem readVersion_packEventCodes (eventCodes : List ℕ) :
    readVersion (packEventCodes eventCodes) =
      if ∀ code ∈ eventCodes.take 5, code < 1024 then 0 else 1 := by
  have hany : (eventCodes.take kV0NumEventCodes).any (kV0MaxEventCodeSize ≤ ·) = true ↔
      ¬ ∀ code ∈ eventCodes.take 5, code < 1024 := by
    simp only [List.any_eq_true, decide_eq_true_eq, not_forall, not_lt, exists_prop]
    rfl
  rw [packEventCodes]
  split_ifs with hlarge hsmall hsmall
  · exact absurd hsmall (hany.mp hlarge)
  · have hlt : packFields (2 ^ 15 - 1) 15 4 eventCodes 0 0 < 2 ^ (15 * 4) :=
      packFields_lt 15 4 eventCodes 0 (Nat.two_pow_pos _)
    have hheader : packEventCodesV1 eventCodes =
        1 <<< 60 ||| packFields (2 ^ 15 - 1) 15 4 eventCodes 0 0 :=
      packFields_lor _ _ _ eventCodes 0 (1 <<< 60) 0
    rw [hheader, ← Nat.shiftLeft_add_eq_or_of_lt hlt, readVersion, Nat.shiftRight_and_distrib,
      Nat.shiftLeft_shiftRight, Nat.shiftRight_eq_div_pow]
    have hone : (1 <<< 60 + packFields (2 ^ 15 - 1) 15 4 eventCodes 0 0) /
        2 ^ kVersionHeaderOffset = 1 := by
      rw [kVersionHeaderOffset, Nat.div_eq_iff (Nat.two_pow_pos _), Nat.shiftLeft_eq]
      omega
    rw [hone]
    rfl
  · have hlt : packFields (2 ^ 10 - 1) 10 5 eventCodes 0 0 < 2 ^ (10 * 5) :=
      packFields_lt 10 5 eventCodes 0 (Nat.two_pow_pos _)
    exact readVersion_of_lt hlt
  · exact absurd (hany.mpr hsmall) hlarge

/-- **Event codes can be unpacked if and only if one of the layouts can hold them.** On those codes
packing is injective up to zeros at the end, and what they are packed into is packed again from what
is unpacked. The layout depends on the first five codes of the list as it is passed. -/
theorem packEventCodes_spec :
    (∀ l, trimmed (unpackEventCodes (packEventCodes l)) = trimmed l ↔ Packable l) ∧
      (∀ l, readVersion (packEventCodes l) =
        if ∀ code ∈ l.take 5, code < 1024 then 0 else 1) ∧
      (∀ l m, Packable l → Packable m →
        (packEventCodes l = packEventCodes m ↔ trimmed l = trimmed m)) ∧
      ∀ x, (∃ l, Packable l ∧ packEventCodes l = x) → packEventCodes (unpackEventCodes x) = x := by
  refine ⟨fun l => ⟨fun h => ?_, trimmed_unpackEventCodes_packEventCodes⟩,
    readVersion_packEventCodes, fun l m hl hm => ⟨fun h => ?_, packEventCodes_congr⟩, ?_⟩
  · have hpackable := packable_unpackEventCodes (packEventCodes l)
    rwa [Packable, h] at hpackable
  · rw [← trimmed_unpackEventCodes_packEventCodes hl, h,
      trimmed_unpackEventCodes_packEventCodes hm]
  · rintro _ ⟨l, hl, rfl⟩
    exact packEventCodes_congr (trimmed_unpackEventCodes_packEventCodes hl)

end Cobalt.Config
