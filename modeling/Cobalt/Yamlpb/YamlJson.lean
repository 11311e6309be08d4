import Mathlib.Algebra.Order.Ring.Int
import Mathlib.Data.List.Nodup
import Mathlib.Data.List.Perm.Basic

/-!
# From YAML values to JSON values

The YAML files of the registry are unmarshaled to Go values, which are made compatible with JSON
before they are marshaled again. A map with keys of any types becomes a map with strings as keys:
a key that is an `int` is written in decimal, and a key that is neither a string nor an `int` is an
error.

The entries of a map are listed in the order in which an iteration visits them, so that a statement
about every value is one about every order. A value that is neither a map nor a list is a scalar.

Two keys of a map that have the same string form are not noticed: the later one in the iteration
replaces the earlier one.

## Main definitions

* `YamlValue`, `JsonValue`: the values.
* `toJsonCompatibleValue`, `toStrMap`: the conversion.
* `SameShape`: a converted value has everything that the original has.
* `LosesNothing`: what the conversion is to do.

## Main results

* `toJsonCompatibleValue_error_iff`: the conversion fails exactly for a key of a wrong type.
* `sameShape_of_not_hasCollision`: without two keys of the same string form nothing is lost.
* `losesNothing_iff`: for which values the conversion does what it is to do.
-/

namespace Cobalt.Yamlpb

/-! ### The values -/

/-- A key of a map. A key of another type is given by its text. -/
inductive YamlKey
  | string (s : String)
  | int (n : Int64)
  | other (text : String)
  deriving DecidableEq, Repr

/-- A YAML value. A scalar is any value that is returned as it is, such as a list of bytes. -/
inductive YamlValue (α : Type)
  | scalar (a : α)
  | list (l : List (YamlValue α))
  | map (m : List (YamlKey × YamlValue α))

/-- A JSON value. The keys of a map are distinct. -/
inductive JsonValue (α : Type)
  | scalar (a : α)
  | list (l : List (JsonValue α))
  | map (m : List (String × JsonValue α))

variable {α : Type}

/-- The string form of a key, if it has one. -/
def YamlKey.toStr? : YamlKey → Option String
  | .string s => some s
  | .int n => some (toString n.toInt)
  | .other _ => none

/-- The string form of a key, or the error of a key of a wrong type. -/
def YamlKey.toStr : YamlKey → Except String String
  | .string s => .ok s
  | .int n => .ok (toString n.toInt)
  | .other text => .error ("'" ++ text ++
      "' is not a string or integer. Only string and integer keys are supported.")

/-- `o[s] = v`. -/
def setEntry (o : List (String × JsonValue α)) (s : String) (v : JsonValue α) :
    List (String × JsonValue α) :=
  if s ∈ o.map Prod.fst then o.map fun entry => if entry.1 = s then (s, v) else entry
  else o ++ [(s, v)]

mutual

/-- `toJsonCompatibleValue`. -/
def toJsonCompatibleValue : YamlValue α → Except String (JsonValue α)
  | .scalar a => .ok (.scalar a)
  | .list l => do
    let arr ← toArr l []
    return .list arr
  | .map m => do
    let o ← toStrMap m []
    return .map o

/-- The loop of `toJsonCompatibleValue` over a list. -/
def toArr : List (YamlValue α) → List (JsonValue α) → Except String (List (JsonValue α))
  | [], arr => .ok arr
  | v :: l, arr => do
    let j ← toJsonCompatibleValue v
    toArr l (arr ++ [j])

/-- The loop of `toStrMap`. -/
def toStrMap : List (YamlKey × YamlValue α) → List (String × JsonValue α) →
    Except String (List (String × JsonValue α))
  | [], o => .ok o
  | (k, v) :: m, o => do
    let s ← k.toStr
    let j ← toJsonCompatibleValue v
    toStrMap m (setEntry o s j)

end

/-! ### What the conversion is to do -/

mutual

/-- A converted value has the shape of the original: a list has the converted elements in their
order, and a map has an entry for each entry, with the string form of its key and its converted
value. -/
def SameShape : YamlValue α → JsonValue α → Prop
  | .scalar a, j => j = .scalar a
  | .list l, j => ∃ arr, j = .list arr ∧ SameShapes l arr
  | .map m, j => ∃ entries o, j = .map o ∧ o.Perm entries ∧ SameShapeEntries m entries

/-- The elements of a list, one by one. -/
def SameShapes : List (YamlValue α) → List (JsonValue α) → Prop
  | [], arr => arr = []
  | v :: l, arr => ∃ j rest, arr = j :: rest ∧ SameShape v j ∧ SameShapes l rest

/-- The entries of a map, one by one. -/
def SameShapeEntries : List (YamlKey × YamlValue α) → List (String × JsonValue α) → Prop
  | [], entries => entries = []
  | (k, v) :: m, entries => ∃ s j rest, entries = (s, j) :: rest ∧ k.toStr? = some s ∧
      SameShape v j ∧ SameShapeEntries m rest

end

/-- A map can be reached from a value through maps and lists. -/
inductive MapIn (m : List (YamlKey × YamlValue α)) : YamlValue α → Prop
  | here : MapIn m (.map m)
  | element {l : List (YamlValue α)} {v : YamlValue α} (hv : v ∈ l) (h : MapIn m v) :
      MapIn m (.list l)
  | value {m' : List (YamlKey × YamlValue α)} {k : YamlKey} {v : YamlValue α} (hv : (k, v) ∈ m')
      (h : MapIn m v) : MapIn m (.map m')

/-- Some map that can be reached has a property. -/
def SomeMap (P : List (YamlKey × YamlValue α) → Prop) (v : YamlValue α) : Prop :=
  ∃ m, MapIn m v ∧ P m

/-- Some map has a key that is neither a string nor an `int`. -/
def HasBadKey : YamlValue α → Prop :=
  SomeMap fun m => ∃ entry ∈ m, entry.1.toStr? = none

/-- Some map has two keys with the same string form. -/
def HasCollision : YamlValue α → Prop :=
  SomeMap fun m => ¬ (m.filterMap fun entry => entry.1.toStr?).Nodup

/-- The conversion loses nothing: a result has the shape of the value, and the conversion fails
exactly if a key is neither a string nor an `int`, or two keys have the same string form. -/
def LosesNothing (v : YamlValue α) : Prop :=
  (∀ j, toJsonCompatibleValue v = .ok j → SameShape v j) ∧
    ((∃ e, toJsonCompatibleValue v = .error e) ↔ HasBadKey v ∨ HasCollision v)

/-! ### Maps that can be reached -/

section SomeMap

variable {P : List (YamlKey × YamlValue α) → Prop}

theorem not_someMap_scalar (a : α) : ¬ SomeMap P (.scalar a) := by
  rintro ⟨m, ⟨⟩, -⟩

theorem someMap_list {l : List (YamlValue α)} : SomeMap P (.list l) ↔ ∃ v ∈ l, SomeMap P v := by
  constructor
  · rintro ⟨m, h, hm⟩
    cases h with
    | element hv h => exact ⟨_, hv, m, h, hm⟩
  · rintro ⟨v, hv, m, h, hm⟩
    exact ⟨m, .element hv h, hm⟩

theorem someMap_map {m : List (YamlKey × YamlValue α)} :
    SomeMap P (.map m) ↔ P m ∨ ∃ entry ∈ m, SomeMap P entry.2 := by
  constructor
  · rintro ⟨m', h, hm⟩
    cases h with
    | here => exact .inl hm
    | value hv h => exact .inr ⟨_, hv, m', h, hm⟩
  · rintro (hm | ⟨entry, hentry, m', h, hm⟩)
    · exact ⟨m, .here, hm⟩
    · exact ⟨m', .value hentry h, hm⟩

end SomeMap

/-! ### When the conversion fails -/

/-- A computation in two steps fails if one of the steps does. -/
theorem bind_error_iff {ε β γ : Type} {x : Except ε β} {f : β → Except ε γ} :
    (∃ e, (x >>= f) = .error e) ↔
      (∃ e, x = .error e) ∨ ∃ b, x = .ok b ∧ ∃ e, f b = .error e := by
  cases x with
  | error e => exact ⟨fun _ => .inl ⟨e, rfl⟩, fun _ => ⟨e, rfl⟩⟩
  | ok b =>
    constructor
    · intro h
      exact .inr ⟨b, rfl, h⟩
    · rintro (⟨e, ⟨⟩⟩ | ⟨b', ⟨⟩, h⟩)
      exact h

theorem pure_error_iff {ε β : Type} {b : β} :
    (∃ e, (pure b : Except ε β) = .error e) ↔ False := by
  refine ⟨?_, False.elim⟩
  rintro ⟨e, ⟨⟩⟩

/-- The second step may be considered alone if it fails for all results of the first one. -/
theorem bind_error_iff_of_forall {ε β γ : Type} {x : Except ε β} {f : β → Except ε γ} {p q : Prop}
    (hx : (∃ e, x = .error e) ↔ p) (hf : ∀ b, (∃ e, f b = .error e) ↔ q) :
    (∃ e, (x >>= f) = .error e) ↔ p ∨ q := by
  rw [bind_error_iff, hx]
  constructor
  · rintro (hp | ⟨b, -, hq⟩)
    · exact .inl hp
    · exact .inr ((hf b).mp hq)
  · rintro (hp | hq)
    · exact .inl hp
    · cases hb : x with
      | error e => exact .inl (hx.mp ⟨e, hb⟩)
      | ok b => exact .inr ⟨b, rfl, (hf b).mpr hq⟩

theorem toStr_error_iff (k : YamlKey) : (∃ e, k.toStr = .error e) ↔ k.toStr? = none := by
  cases k <;> simp [YamlKey.toStr, YamlKey.toStr?]

mutual

/-- The conversion fails exactly if some map has a key of a wrong type. -/
theorem toJsonCompatibleValue_error_iff :
    ∀ v : YamlValue α, (∃ e, toJsonCompatibleValue v = .error e) ↔ HasBadKey v
  | .scalar a => by
    refine ⟨?_, fun h => absurd h (not_someMap_scalar a)⟩
    rintro ⟨e, ⟨⟩⟩
  | .list l => by
    rw [toJsonCompatibleValue, HasBadKey, someMap_list, ← or_false (∃ v ∈ l, _)]
    exact bind_error_iff_of_forall (toArr_error_iff l []) fun _ => pure_error_iff
  | .map m => by
    have hentries : (∃ entry ∈ m, entry.1.toStr? = none ∨ HasBadKey entry.2) ↔
        (∃ entry ∈ m, entry.1.toStr? = none) ∨ ∃ entry ∈ m, HasBadKey entry.2 := by
      simp only [and_or_left, exists_or]
    rw [toJsonCompatibleValue, HasBadKey, someMap_map, ← HasBadKey, ← hentries,
      ← or_false (∃ entry ∈ m, _)]
    exact bind_error_iff_of_forall (toStrMap_error_iff m []) fun _ => pure_error_iff

theorem toArr_error_iff : ∀ (l : List (YamlValue α)) (arr : List (JsonValue α)),
    (∃ e, toArr l arr = .error e) ↔ ∃ v ∈ l, HasBadKey v
  | [], arr => by simp [toArr]
  | v :: l, arr => by
    rw [toArr, List.exists_mem_cons_iff]
    exact bind_error_iff_of_forall (toJsonCompatibleValue_error_iff v) fun j =>
      toArr_error_iff l (arr ++ [j])

theorem toStrMap_error_iff :
    ∀ (m : List (YamlKey × YamlValue α)) (o : List (String × JsonValue α)),
      (∃ e, toStrMap m o = .error e) ↔
        ∃ entry ∈ m, entry.1.toStr? = none ∨ HasBadKey entry.2
  | [], o => by simp [toStrMap]
  | (k, v) :: m, o => by
    rw [toStrMap, List.exists_mem_cons_iff, or_assoc]
    refine bind_error_iff_of_forall (toStr_error_iff k) fun s => ?_
    exact bind_error_iff_of_forall (toJsonCompatibleValue_error_iff v) fun j =>
      toStrMap_error_iff m (setEntry o s j)

end

/-! ### The shape of the result -/

theorem bind_ok_iff {ε β γ : Type} {x : Except ε β} {f : β → Except ε γ} {c : γ} :
    (x >>= f) = .ok c ↔ ∃ b, x = .ok b ∧ f b = .ok c := by
  cases x with
  | error e =>
    refine ⟨fun h => ?_, ?_⟩
    · cases h
    · rintro ⟨b, ⟨⟩, -⟩
  | ok b =>
    refine ⟨fun h => ⟨b, rfl, h⟩, ?_⟩
    rintro ⟨b', ⟨⟩, h⟩
    exact h

theorem toStr_ok_iff (k : YamlKey) (s : String) : k.toStr = .ok s ↔ k.toStr? = some s := by
  cases k <;> simp [YamlKey.toStr, YamlKey.toStr?]

mutual

/-- A converted value has the shape of the original, if no map has two keys of one string
form. -/
theorem sameShape_of_not_hasCollision : ∀ (v : YamlValue α) (j : JsonValue α),
    toJsonCompatibleValue v = .ok j → ¬ HasCollision v → SameShape v j
  | .scalar a, j => by
    intro h _
    cases h
    rfl
  | .list l, j => by
    intro h hcollision
    obtain ⟨arr, harr, h⟩ := bind_ok_iff.mp h
    cases h
    have hl : ∀ v ∈ l, ¬ HasCollision v := fun v hv hv' =>
      hcollision (someMap_list.mpr ⟨v, hv, hv'⟩)
    obtain ⟨_, rfl, hrest⟩ := sameShapes_of_not_hasCollision l [] arr harr hl
    exact ⟨_, rfl, hrest⟩
  | .map m, j => by
    intro h hcollision
    obtain ⟨o, ho, h⟩ := bind_ok_iff.mp h
    cases h
    have hm : ∀ entry ∈ m, ¬ HasCollision entry.2 := fun entry hentry hentry' =>
      hcollision (someMap_map.mpr (.inr ⟨entry, hentry, hentry'⟩))
    have hnodup : (m.filterMap fun entry => entry.1.toStr?).Nodup :=
      not_not.mp fun hnot => hcollision (someMap_map.mpr (.inl hnot))
    obtain ⟨_, rfl, hentries⟩ := sameShapeEntries_of_not_hasCollision m [] o ho hnodup hm
    exact ⟨_, _, rfl, .refl _, hentries⟩

theorem sameShapes_of_not_hasCollision : ∀ (l : List (YamlValue α)) (arr arr' : List (JsonValue α)),
    toArr l arr = .ok arr' → (∀ v ∈ l, ¬ HasCollision v) →
      ∃ rest, arr' = arr ++ rest ∧ SameShapes l rest
  | [], arr, arr' => by
    intro h _
    cases h
    exact ⟨[], (List.append_nil arr).symm, rfl⟩
  | v :: l, arr, arr' => by
    intro h hcollision
    obtain ⟨j, hj, h⟩ := bind_ok_iff.mp h
    obtain ⟨hv, hl⟩ := List.forall_mem_cons.mp hcollision
    obtain ⟨rest, rfl, hrest⟩ := sameShapes_of_not_hasCollision l (arr ++ [j]) arr' h hl
    refine ⟨j :: rest, by rw [List.append_assoc, List.singleton_append], j, rest, rfl, ?_, hrest⟩
    exact sameShape_of_not_hasCollision v j hj hv

theorem sameShapeEntries_of_not_hasCollision : ∀ (m : List (YamlKey × YamlValue α))
    (o o' : List (String × JsonValue α)), toStrMap m o = .ok o' →
      (o.map Prod.fst ++ m.filterMap fun entry => entry.1.toStr?).Nodup →
      (∀ entry ∈ m, ¬ HasCollision entry.2) →
      ∃ entries, o' = o ++ entries ∧ SameShapeEntries m entries
  | [], o, o' => by
    intro h _ _
    cases h
    exact ⟨[], (List.append_nil o).symm, rfl⟩
  | (k, v) :: m, o, o' => by
    intro h hnodup hcollision
    obtain ⟨s, hs, h⟩ := bind_ok_iff.mp h
    obtain ⟨j, hj, h⟩ := bind_ok_iff.mp h
    rw [toStr_ok_iff] at hs
    obtain ⟨hv, hm⟩ := List.forall_mem_cons.mp hcollision
    rw [List.filterMap_cons] at hnodup
    simp only [hs] at hnodup
    -- The key is a new one, so that its entry is appended.
    have hnew : s ∉ o.map Prod.fst := fun hmem =>
      (List.disjoint_of_nodup_append hnodup) hmem List.mem_cons_self
    rw [setEntry, if_neg hnew] at h
    have hnodup' : ((o ++ [(s, j)]).map Prod.fst ++
        m.filterMap fun entry => entry.1.toStr?).Nodup := by
      rw [List.map_append, List.append_assoc]
      exact hnodup
    obtain ⟨entries, rfl, hentries⟩ :=
      sameShapeEntries_of_not_hasCollision m (o ++ [(s, j)]) o' h hnodup' hm
    refine ⟨(s, j) :: entries, by rw [List.append_assoc, List.singleton_append], s, j, entries, rfl,
      hs, ?_, hentries⟩
    exact sameShape_of_not_hasCollision v j hj hv

end

/-! ### For which values nothing is lost -/

/-- **For which values the conversion loses nothing**: those with a key of a wrong type, which it
rejects, and those without two keys of one string form in a map. -/
theorem losesNothing_iff (v : YamlValue α) :
    LosesNothing v ↔ HasBadKey v ∨ ¬ HasCollision v := by
  rw [LosesNothing, toJsonCompatibleValue_error_iff]
  constructor
  · rintro ⟨-, hfails⟩
    by_cases hbad : HasBadKey v
    · exact .inl hbad
    · exact .inr fun hcollision => hbad (hfails.mpr (.inr hcollision))
  · rintro (hbad | hcollision)
    · refine ⟨fun j hj => ?_, fun _ => .inl hbad, fun _ => hbad⟩
      obtain ⟨e, he⟩ := (toJsonCompatibleValue_error_iff v).mpr hbad
      rw [he] at hj
      cases hj
    · exact ⟨fun j hj => sameShape_of_not_hasCollision v j hj hcollision, .inl,
        fun h => h.resolve_right hcollision⟩

/-- The event codes 1 and "1" of a metric become one entry, in either order of the iteration. -/
theorem not_losesNothing_one :
    toJsonCompatibleValue (.map [(.int 1, .scalar "a"), (.string "1", .scalar "b")]) =
        .ok (.map [("1", .scalar "b")]) ∧
      toJsonCompatibleValue (.map [(.string "1", .scalar "b"), (.int 1, .scalar "a")]) =
        .ok (.map [("1", .scalar "a")]) ∧
      ¬ LosesNothing (.map [(.int 1, .scalar "a"), (.string "1", .scalar "b")]) := by
  refine ⟨rfl, rfl, fun h => ?_⟩
  have hcollision : HasCollision (.map [(.int 1, .scalar "a"), (.string "1", .scalar "b")]) :=
    ⟨_, .here, by decide⟩
  obtain ⟨e, he⟩ := h.2.mpr (.inr hcollision)
  cases he

end Cobalt.Yamlpb
