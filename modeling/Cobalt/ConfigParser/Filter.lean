import Cobalt.Lib.UpdatePass
import Mathlib.Data.List.Infix

/-!
# Hiding fields from the clients

The registry that is given to the clients is filtered before: the fields with the option
`hide_on_client` are set to their zero values. The filter walks through the values of the registry
by reflection. At a message it goes through the fields of the descriptor of the message, and finds
the field of the struct by the text of its tag; a oneof has no such field, and what is in it is
reached by a walk of its own.

The values that the reflection sees are the ones of trees, in which no two pointers are equal: what
the source changes in place is here returned.

## Main definitions

* `GoValue`, `StructType`: the values, and the types of the structs with their tags.
* `filterReflectedValue`, `filterPointer`, `filterMessageField`, `findFieldWithinStruct`,
  `filterWithCobaltOptions`, `filterHideOnClient`.
-/

namespace Cobalt.ConfigParser

open UpdatePass

/-! ### The values that the reflection sees -/

/-- The kinds of values that no protobuf message has. -/
inductive OtherKind
  | uintptr
  | complex64
  | complex128
  | chan
  | func
  | unsafePointer
  deriving Repr, DecidableEq

/-- `reflect.Kind.String`. -/
def OtherKind.toString : OtherKind → String
  | .uintptr => "uintptr"
  | .complex64 => "complex64"
  | .complex128 => "complex128"
  | .chan => "chan"
  | .func => "func"
  | .unsafePointer => "unsafe.Pointer"

/-- `reflect.Value`: a value with the name of its type, if it is a struct. The numbers, strings and
Booleans are `S`, the names of the struct types are `T`. -/
inductive GoValue (S T : Type)
  | scalar (value : S)
  | ptr (elem : Option (GoValue S T))
  | struct (type : T) (fields : List (GoValue S T))
  | slice (elems : List (GoValue S T))
  | map (entries : List (S × GoValue S T))
  | interface (value : Option (GoValue S T))
  | invalid
  | other (kind : OtherKind)

/-- `config.CobaltOptions`. -/
structure CobaltOptions where
  hideOnClient : Bool
  deriving Repr, DecidableEq

/-- `descriptor_pb.FieldDescriptorProto`, with the extension `config.E_CobaltOptions` of its
options. -/
structure FieldDescriptorProto where
  name : String
  cobaltOptions : Option CobaltOptions
  deriving Repr, DecidableEq

/-- `reflect.StructField`: the parts `protobuf` and `protobuf_oneof` of the tag, which are empty if
the tag does not have them, and the zero value of the type. -/
structure StructField (S T : Type) where
  protobuf : String
  protobufOneof : String
  zero : GoValue S T

/-- The type of a struct. A `descriptor.Message` has a descriptor, with the fields of the
message. -/
structure StructType (S T : Type) where
  fields : List (StructField S T)
  descriptor : Option (List FieldDescriptorProto)

/-! ### The filter -/

/-- How the filter can end without a result. -/
inductive FilterError
  | exitf (message : String)
  | panic
  | outOfFuel
  deriving Repr, DecidableEq

variable {S T : Type}

/-- `filterWithCobaltOptions`: what the field is set to. -/
def filterWithCobaltOptions (options : CobaltOptions) (field : StructField S T)
    (value : GoValue S T) : GoValue S T :=
  if options.hideOnClient then field.zero else value

/-- `strings.Contains`. -/
def contains (s substr : String) : Bool :=
  substr.toList <:+: s.toList

/-- `findFieldWithinStruct`: the first field whose tag has the name. -/
def findFieldWithinStruct (name : String) (struct : StructType S T) : Option ℕ :=
  let nameTag := "name=" ++ name ++ ","
  struct.fields.findIdx? fun field => contains field.protobuf nameTag

/-- The end of `filterMessageField`: the option, and the recursion for the sub message. -/
def filterFoundField (filter : GoValue S T → Except FilterError (GoValue S T))
    (struct : StructType S T) (field : FieldDescriptorProto) (foundField : ℕ)
    (value : GoValue S T) : Except FilterError (GoValue S T) :=
  match field.cobaltOptions, struct.fields[foundField]? with
  | some options, some structField => filter (filterWithCobaltOptions options structField value)
  | _, _ => filter value

/-- `filterMessageField`. -/
def filterMessageField (filter : GoValue S T → Except FilterError (GoValue S T))
    (struct : StructType S T) (msgValue : List (GoValue S T)) (field : FieldDescriptorProto) :
    Except FilterError (List (GoValue S T)) :=
  match findFieldWithinStruct field.name struct with
  | none => .ok msgValue
  | some foundField =>
    updateAt .panic foundField (filterFoundField filter struct field foundField) msgValue

/-- The value in an interface is filtered; the `reflect.Value` of `nil` is invalid. -/
def filterInterface (filter : GoValue S T → Except FilterError (GoValue S T)) :
    GoValue S T → Except FilterError (GoValue S T)
  | .interface none => (filter .invalid).map fun _ => .interface none
  | .interface (some value) => (filter value).map fun value => .interface (some value)
  | value => filter value

/-- The body of the loop of `filterPointer` over the fields of the struct. -/
def filterOneof (filter : GoValue S T → Except FilterError (GoValue S T))
    (msgValue : List (GoValue S T)) (field : StructField S T × ℕ) :
    Except FilterError (List (GoValue S T)) :=
  if field.1.protobufOneof ≠ "" then updateAt .panic field.2 (filterInterface filter) msgValue
  else .ok msgValue

/-- `filterPointer`. -/
def filterPointer (types : T → StructType S T)
    (filter : GoValue S T → Except FilterError (GoValue S T)) :
    Option (GoValue S T) → Except FilterError (Option (GoValue S T))
  | none => .ok none
  | some (.struct type msgValue) =>
    match (types type).descriptor with
    | none => (filter (.struct type msgValue)).map some
    | some descriptor => do
      let msgValue ← (types type).fields.zipIdx.foldlM (filterOneof filter) msgValue
      let msgValue ← descriptor.foldlM (filterMessageField filter (types type)) msgValue
      return some (.struct type msgValue)
  | some value => (filter value).map some

/-- The call of `glog.Exitf`. -/
def unexpectedType (kind : String) : FilterError :=
  .exitf ("Unexpected type found in protobuf: " ++ kind ++
    ". If this is expected, add another value to the case in filter.go")

/-- `filterReflectedValue`. The fuel bounds the depth of the recursion. -/
def filterReflectedValue (types : T → StructType S T) :
    ℕ → GoValue S T → Except FilterError (GoValue S T)
  | 0, _ => .error .outOfFuel
  | fuel + 1, .ptr elem =>
    (filterPointer types (filterReflectedValue types fuel) elem).map .ptr
  | fuel + 1, .struct type fields =>
    (fields.mapM (filterReflectedValue types fuel)).map (.struct type)
  | fuel + 1, .slice elems => (elems.mapM (filterReflectedValue types fuel)).map .slice
  | fuel + 1, .map entries =>
    (entries.mapM fun entry =>
      (filterReflectedValue types fuel entry.2).map (Prod.mk entry.1)).map .map
  | _ + 1, .scalar value => .ok (.scalar value)
  | _ + 1, .invalid => .ok .invalid
  | _ + 1, .interface _ => .error (unexpectedType "interface")
  | _ + 1, .other kind => .error (unexpectedType kind.toString)

/-- The loop over the fields of a struct is a pass, in which the oneofs have places. -/
theorem foldlM_filterOneof_eq_updateEach (filter : GoValue S T → Except FilterError (GoValue S T))
    (fields : List (StructField S T × ℕ)) (values : List (GoValue S T)) :
    fields.foldlM (filterOneof filter) values =
      updateEach .panic (fun field => if field.1.protobufOneof ≠ "" then some field.2 else none)
        (fun _ _ => filterInterface filter) fields values := by
  rw [updateEach]
  congr 1
  funext values field
  rw [filterOneof]
  split_ifs <;> rfl

/-- The loop over the fields of a descriptor is a pass, in which the fields that are found have
places. -/
theorem foldlM_filterMessageField_eq_updateEach
    (filter : GoValue S T → Except FilterError (GoValue S T)) (struct : StructType S T)
    (descriptor : List FieldDescriptorProto) (values : List (GoValue S T)) :
    descriptor.foldlM (filterMessageField filter struct) values =
      updateEach .panic (fun field => findFieldWithinStruct field.name struct)
        (filterFoundField filter struct) descriptor values := rfl

/-- A pointer to a message: the two loops. -/
theorem filterPointer_message {types : T → StructType S T}
    {filter : GoValue S T → Except FilterError (GoValue S T)} {type : T}
    {descriptor : List FieldDescriptorProto} {values values₁ values₂ : List (GoValue S T)}
    (hdescriptor : (types type).descriptor = some descriptor)
    (honeofs : (types type).fields.zipIdx.foldlM (filterOneof filter) values = .ok values₁)
    (hfields : descriptor.foldlM (filterMessageField filter (types type)) values₁ = .ok values₂) :
    filterPointer types filter (some (.struct type values)) =
      .ok (some (.struct type values₂)) := by
  simp only [filterPointer, hdescriptor, honeofs, bind, Except.bind, hfields]
  rfl

/-- A pointer to a wrapper: its one field. -/
theorem filterReflectedValue_wrapper {types : T → StructType S T} {type : T} {fuel : ℕ}
    {value value' : GoValue S T} (hdescriptor : (types type).descriptor = none)
    (h : filterReflectedValue types fuel value = .ok value') :
    filterReflectedValue types (fuel + 2) (.ptr (some (.struct type [value]))) =
      .ok (.ptr (some (.struct type [value']))) := by
  simp only [filterReflectedValue, filterPointer, hdescriptor, List.mapM_cons, List.mapM_nil, h,
    bind, Except.bind, pure, Except.pure, Except.map]

/-- `FilterHideOnClient`. -/
def filterHideOnClient (types : T → StructType S T) (fuel : ℕ) (c : GoValue S T) :
    Except FilterError (GoValue S T) :=
  filterReflectedValue types fuel c

end Cobalt.ConfigParser
