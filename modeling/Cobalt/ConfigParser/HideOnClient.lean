import Cobalt.ConfigParser.Filter
import Cobalt.Lib.Separated
import Mathlib.Data.List.Sigma
import Mathlib.Order.Filter.AtTopBot.Basic

/-!
# What is hidden from the clients

The messages of a schema, as the generated code has them: a message is a pointer to a struct, in
which every ordinary field has a tag with the name of the field; a oneof is one field of the struct,
an interface that is `nil` or has a pointer to a wrapper of the variant that is set; and the struct
may have fields that are not of the message.

If the option `hide_on_client` is only set on ordinary fields, the filter unsets the fields with the
option at every depth and leaves everything else as it is.

## Main definitions

* `ProtobufTag`, `FieldDef`, `MemberDef`, `MessageDef`: a schema.
* `structType`: the types of the structs that are generated from it.
* `HasType`: the trees over a schema.
* `Filtered`: the second tree is the first one without the fields that have the option.

## Main results

* `contains_text_iff`: the search in a tag finds the name of the field and nothing else.
* `findFieldWithinStruct_eq_some_iff`: which field of the struct is found.
* `filterHideOnClient_filtered`: what the filter does, and that doing it twice changes nothing.
-/

namespace Cobalt.ConfigParser

open UpdatePass

/-! ### Schemas -/

/-- The names and numbers in a tag. -/
def IsPlain (s : String) : Prop :=
  ',' ∉ s.toList ∧ '=' ∉ s.toList

/-- The part `protobuf` of the tag of a field: the wire type, the number, the label and, for some
fields, the word `packed`; the names of the field in the schema and in JSON, if it is another one;
and the name of the type, if that is an enumeration. -/
structure ProtobufTag where
  kind : List String
  name : String
  json : Option String
  oneof : Bool
  enum : Option String
  kind_plain : ∀ s ∈ kind, IsPlain s
  name_plain : IsPlain name
  json_plain : ∀ s ∈ json, IsPlain s
  enum_plain : ∀ s ∈ enum, IsPlain s

/-- What the commas of the tag separate. -/
def ProtobufTag.items (tag : ProtobufTag) : List String :=
  tag.kind ++ ("name=" ++ tag.name) :: (tag.json.toList.map ("json=" ++ ·) ++ "proto3" ::
    ((if tag.oneof then ["oneof"] else []) ++ tag.enum.toList.map ("enum=" ++ ·)))

/-- The text of the tag. -/
def ProtobufTag.text (tag : ProtobufTag) : String :=
  ",".intercalate tag.items

variable {S M : Type}

/-- The type of a field, with the zero value of a scalar type. -/
inductive FieldType (S M : Type)
  | scalar (zero : S)
  | message (name : M)
  | repeated (elem : FieldType S M)
  | map (value : FieldType S M)

/-- The structs that are generated: one for each message, and one for each variant of a oneof. -/
inductive GoType (M : Type)
  | message (name : M)
  | wrapper (message : M) (variant : String)

/-- The zero value of a type. -/
def FieldType.zero : FieldType S M → GoValue S (GoType M)
  | .scalar zero => .scalar zero
  | .message _ => .ptr none
  | .repeated _ => .slice []
  | .map _ => .map []

/-- A field of a message. -/
structure FieldDef (S M : Type) where
  tag : ProtobufTag
  type : FieldType S M
  cobaltOptions : Option CobaltOptions

/-- The name of a field is in its tag. -/
def FieldDef.name (field : FieldDef S M) : String :=
  field.tag.name

/-- Whether the field has the option `hide_on_client`. -/
def FieldDef.hideOnClient (field : FieldDef S M) : Bool :=
  field.cobaltOptions.any CobaltOptions.hideOnClient

/-- What the struct of a message has fields for. The ones whose name starts with `XXX_` are
internal. -/
inductive MemberDef (S M : Type)
  | field (field : FieldDef S M)
  | oneof (name : String) (variants : List (FieldDef S M))
  | internal (zero : GoValue S (GoType M))

/-- The fields of the message that the member is for. -/
def MemberDef.fields : MemberDef S M → List (FieldDef S M)
  | .field f => [f]
  | .oneof _ variants => variants
  | .internal _ => []

/-- A message, whose fields have different names. -/
structure MessageDef (S M : Type) where
  members : List (MemberDef S M)
  nodup : ((members.flatMap MemberDef.fields).map FieldDef.name).Nodup
  oneof_ne_empty : ∀ name variants, .oneof name variants ∈ members → name ≠ ""

/-- The fields of a message, with those that are variants of a oneof. -/
def MessageDef.fields (message : MessageDef S M) : List (FieldDef S M) :=
  message.members.flatMap MemberDef.fields

/-- The field of the struct that is generated for a member. -/
def MemberDef.structField : MemberDef S M → StructField S (GoType M)
  | .field f => ⟨f.tag.text, "", f.type.zero⟩
  | .oneof name _ => ⟨"", name, .interface none⟩
  | .internal zero => ⟨"", "", zero⟩

/-- The entry of a field in the descriptor of its message. -/
def FieldDef.descriptor (field : FieldDef S M) : FieldDescriptorProto :=
  ⟨field.name, field.cobaltOptions⟩

/-- The structs that are generated from a schema. A wrapper has one field and no descriptor. -/
def structType (schema : M → MessageDef S M) : GoType M → StructType S (GoType M)
  | .message name =>
    { fields := (schema name).members.map MemberDef.structField
      descriptor := some ((schema name).fields.map FieldDef.descriptor) }
  | .wrapper message variant =>
    { fields := ((schema message).fields.filter (·.name = variant)).map fun field =>
        (MemberDef.field field).structField
      descriptor := none }

/-- The option `hide_on_client` is not set on a variant of a oneof. -/
def OnlyOrdinaryHidden (schema : M → MessageDef S M) : Prop :=
  ∀ message name variants, .oneof name variants ∈ (schema message).members →
    ∀ field ∈ variants, field.hideOnClient = false

/-! ### Trees -/

/-- What a value can be: the value of a type, or of a member of a message. -/
inductive Slot (S M : Type)
  | type (type : FieldType S M)
  | member (message : M) (member : MemberDef S M)

/-- The value of a oneof one of whose variants is set. -/
def wrapped (message : M) (variant : String) (value : GoValue S (GoType M)) :
    GoValue S (GoType M) :=
  .interface (some (.ptr (some (.struct (.wrapper message variant) [value]))))

/-- The trees over a schema. -/
inductive HasType (schema : M → MessageDef S M) : Slot S M → GoValue S (GoType M) → Prop
  | scalar {zero value : S} : HasType schema (.type (.scalar zero)) (.scalar value)
  | nil {name : M} : HasType schema (.type (.message name)) (.ptr none)
  | message {name : M} {values : List (GoValue S (GoType M))}
      (hlength : values.length = (schema name).members.length)
      (hmember : ∀ (i : ℕ) member value, (schema name).members[i]? = some member →
        values[i]? = some value → HasType schema (.member name member) value) :
      HasType schema (.type (.message name)) (.ptr (some (.struct (.message name) values)))
  | repeated {elem : FieldType S M} {values : List (GoValue S (GoType M))}
      (helem : ∀ value ∈ values, HasType schema (.type elem) value) :
      HasType schema (.type (.repeated elem)) (.slice values)
  | map {type : FieldType S M} {entries : List (S × GoValue S (GoType M))}
      (hvalue : ∀ entry ∈ entries, HasType schema (.type type) entry.2) :
      HasType schema (.type (.map type)) (.map entries)
  | field {message : M} {field : FieldDef S M} {value : GoValue S (GoType M)}
      (hvalue : HasType schema (.type field.type) value) :
      HasType schema (.member message (.field field)) value
  | unset {message : M} {name : String} {variants : List (FieldDef S M)} :
      HasType schema (.member message (.oneof name variants)) (.interface none)
  | variant {message : M} {name : String} {variants : List (FieldDef S M)} {field : FieldDef S M}
      {value : GoValue S (GoType M)} (hfield : field ∈ variants)
      (hvalue : HasType schema (.type field.type) value) :
      HasType schema (.member message (.oneof name variants)) (wrapped message field.name value)
  | internal {message : M} {zero value : GoValue S (GoType M)} :
      HasType schema (.member message (.internal zero)) value

/-- The second tree is the first one without the fields that have the option. A field with the
option has the zero value of its type, and a oneof is unset if the variant that was set has the
option. Everything else is as it was, or, if it is a message, a list or a map, filtered in turn. -/
inductive Filtered (schema : M → MessageDef S M) :
    Slot S M → GoValue S (GoType M) → GoValue S (GoType M) → Prop
  | scalar {zero value : S} :
      Filtered schema (.type (.scalar zero)) (.scalar value) (.scalar value)
  | nil {name : M} : Filtered schema (.type (.message name)) (.ptr none) (.ptr none)
  | message {name : M} {values values' : List (GoValue S (GoType M))}
      (hlength : values'.length = values.length)
      (hmember : ∀ (i : ℕ) member value value', (schema name).members[i]? = some member →
        values[i]? = some value → values'[i]? = some value' →
        Filtered schema (.member name member) value value') :
      Filtered schema (.type (.message name)) (.ptr (some (.struct (.message name) values)))
        (.ptr (some (.struct (.message name) values')))
  | repeated {elem : FieldType S M} {values values' : List (GoValue S (GoType M))}
      (hlength : values'.length = values.length)
      (helem : ∀ (i : ℕ) value value', values[i]? = some value → values'[i]? = some value' →
        Filtered schema (.type elem) value value') :
      Filtered schema (.type (.repeated elem)) (.slice values) (.slice values')
  | map {type : FieldType S M} {entries entries' : List (S × GoValue S (GoType M))}
      (hlength : entries'.length = entries.length)
      (hkey : ∀ (i : ℕ) entry entry', entries[i]? = some entry → entries'[i]? = some entry' →
        entry'.1 = entry.1)
      (hvalue : ∀ (i : ℕ) entry entry', entries[i]? = some entry → entries'[i]? = some entry' →
        Filtered schema (.type type) entry.2 entry'.2) :
      Filtered schema (.type (.map type)) (.map entries) (.map entries')
  | hidden {message : M} {field : FieldDef S M} {value : GoValue S (GoType M)}
      (hoption : field.hideOnClient = true) :
      Filtered schema (.member message (.field field)) value field.type.zero
  | field {message : M} {field : FieldDef S M} {value value' : GoValue S (GoType M)}
      (hoption : field.hideOnClient = false)
      (hvalue : Filtered schema (.type field.type) value value') :
      Filtered schema (.member message (.field field)) value value'
  | unset {message : M} {name : String} {variants : List (FieldDef S M)} :
      Filtered schema (.member message (.oneof name variants)) (.interface none) (.interface none)
  | hiddenVariant {message : M} {name : String} {variants : List (FieldDef S M)}
      {field : FieldDef S M} {value : GoValue S (GoType M)} (hfield : field ∈ variants)
      (hoption : field.hideOnClient = true) :
      Filtered schema (.member message (.oneof name variants)) (wrapped message field.name value)
        (.interface none)
  | variant {message : M} {name : String} {variants : List (FieldDef S M)} {field : FieldDef S M}
      {value value' : GoValue S (GoType M)} (hfield : field ∈ variants)
      (hoption : field.hideOnClient = false)
      (hvalue : Filtered schema (.type field.type) value value') :
      Filtered schema (.member message (.oneof name variants)) (wrapped message field.name value)
        (wrapped message field.name value')
  | internal {message : M} {zero value : GoValue S (GoType M)} :
      Filtered schema (.member message (.internal zero)) value value

/-! ### The fields that are found -/

theorem mem_items_iff {tag : ProtobufTag} {item : String} :
    item ∈ tag.items ↔ item ∈ tag.kind ∨ item = "name=" ++ tag.name ∨
      (∃ json ∈ tag.json, item = "json=" ++ json) ∨ item = "proto3" ∨
      (tag.oneof = true ∧ item = "oneof") ∨ ∃ enum ∈ tag.enum, item = "enum=" ++ enum := by
  simp only [ProtobufTag.items, List.mem_append, List.mem_cons, List.mem_map, Option.mem_toList,
    Option.mem_def, List.mem_ite_nil_right, List.not_mem_nil, or_false, eq_comm (b := item)]

/-- The items of a tag have no comma. -/
theorem comma_notMem_of_mem_items {tag : ProtobufTag} {item : String} (h : item ∈ tag.items) :
    ',' ∉ item.toList := by
  rcases mem_items_iff.mp h with h | rfl | ⟨json, hjson, rfl⟩ | rfl | ⟨-, rfl⟩ | ⟨enum, henum, rfl⟩
  · exact (tag.kind_plain item h).1
  · simpa using tag.name_plain.1
  · simpa using (tag.json_plain json hjson).1
  · decide
  · decide
  · simpa using (tag.enum_plain enum henum).1

/-- Where a text ends in a key and a value, these are the last ones. -/
theorem suffix_key_value {key key' value value' : List Char} (hvalue : '=' ∉ value)
    (hvalue' : '=' ∉ value') (h : key ++ '=' :: value <:+ key' ++ '=' :: value') :
    key <:+ key' ∧ value = value' := by
  obtain ⟨t, ht⟩ := h
  rw [← List.append_assoc] at ht
  obtain ⟨hkey, heq⟩ := Separated.append_inj_of_last hvalue hvalue' ht
  exact ⟨⟨t, hkey⟩, heq⟩

/-- Only one item of a tag ends in a key `name` and its value. -/
theorem eq_name_of_suffix {tag : ProtobufTag} {name item : String} (hname : IsPlain name)
    (hitem : item ∈ tag.items) (h : ("name=" ++ name).toList <:+ item.toList) :
    tag.name = name := by
  have hequals : '=' ∈ item.toList := h.mem (by simp)
  have hkey (key value : String) (hvalue : IsPlain value) (hitem : item = key ++ "=" ++ value) :
      "name".toList <:+ key.toList ∧ name.toList = value.toList :=
    suffix_key_value hname.2 hvalue.2 (by simpa [hitem] using h)
  rcases mem_items_iff.mp hitem with hkind | rfl | ⟨json, hjson, rfl⟩ | rfl | ⟨-, rfl⟩ |
    ⟨enum, henum, rfl⟩
  · exact absurd hequals (tag.kind_plain item hkind).2
  · exact (String.toList_inj.mp (hkey "name" tag.name tag.name_plain rfl).2).symm
  · exact absurd (hkey "json" json (tag.json_plain json hjson) rfl).1 (by decide)
  · exact absurd hequals (by decide)
  · exact absurd hequals (by decide)
  · exact absurd (hkey "enum" enum (tag.enum_plain enum henum) rfl).1 (by decide)

/-- The search in a tag finds the name of the field and nothing else. -/
theorem contains_text_iff {tag : ProtobufTag} {name : String} (hname : IsPlain name) :
    contains tag.text ("name=" ++ name ++ ",") = true ↔ tag.name = name := by
  have hcomma : ",".toList = [','] := rfl
  rw [contains, decide_eq_true_iff, ProtobufTag.text, String.toList_intercalate,
    String.toList_append, hcomma]
  constructor
  · intro h
    obtain ⟨item, hitem, hsuffix⟩ := Separated.exists_suffix_of_infix
      (by simpa using hname.1)
      (fun item hitem => by
        obtain ⟨text, htext, rfl⟩ := List.mem_map.mp hitem
        exact comma_notMem_of_mem_items htext) h
    obtain ⟨text, htext, rfl⟩ := List.mem_map.mp hitem
    exact eq_name_of_suffix hname htext hsuffix
  · rintro rfl
    have hrest : tag.json.toList.map ("json=" ++ ·) ++ "proto3" ::
        ((if tag.oneof then ["oneof"] else []) ++ tag.enum.toList.map ("enum=" ++ ·)) ≠ [] := by
      simp
    obtain ⟨next, after, hafter⟩ := List.exists_cons_of_ne_nil hrest
    rw [ProtobufTag.items, hafter, List.map_append, List.map_cons, List.map_cons]
    exact Separated.infix_intercalate _ _ _ _

/-- The tag of a oneof, or of an internal field, has no name. -/
theorem contains_structField_iff {member : MemberDef S M} {name : String} (hname : IsPlain name) :
    contains member.structField.protobuf ("name=" ++ name ++ ",") = true ↔
      ∃ f, member = .field f ∧ f.name = name := by
  have hempty : contains "" ("name=" ++ name ++ ",") = false := by simp [contains]
  cases member with
  | field f => simp [MemberDef.structField, contains_text_iff hname, FieldDef.name]
  | oneof => simp [MemberDef.structField, hempty]
  | internal => simp [MemberDef.structField, hempty]

/-- A name is at one place of a message. -/
theorem MessageDef.place_unique {message : MessageDef S M} {i j : ℕ}
    {member member' : MemberDef S M} {f f' : FieldDef S M} (hi : message.members[i]? = some member)
    (hj : message.members[j]? = some member') (hf : f ∈ member.fields) (hf' : f' ∈ member'.fields)
    (hname : f.name = f'.name) : i = j := by
  have hnodup := message.nodup
  rw [List.map_flatMap, List.nodup_flatMap] at hnodup
  obtain ⟨hlt, rfl⟩ := List.getElem?_eq_some_iff.mp hi
  obtain ⟨hlt', rfl⟩ := List.getElem?_eq_some_iff.mp hj
  have hmem := List.mem_map_of_mem (f := FieldDef.name) hf
  have hmem' := List.mem_map_of_mem (f := FieldDef.name) hf'
  have hpairwise := List.pairwise_iff_getElem.mp hnodup.2
  rcases lt_trichotomy i j with h | h | h
  · exact absurd (hname ▸ hmem') (List.disjoint_left.mp (hpairwise i j hlt hlt' h) hmem)
  · exact h
  · exact absurd (hname ▸ hmem) (List.disjoint_left.mp (hpairwise j i hlt' hlt h) hmem')

/-- An ordinary member is a field of the message. -/
theorem MessageDef.mem_fields {message : MessageDef S M} {i : ℕ} {f : FieldDef S M}
    (hi : message.members[i]? = some (.field f)) : f ∈ message.fields :=
  List.mem_flatMap.mpr ⟨.field f, List.mem_of_getElem? hi, List.mem_singleton_self f⟩

variable {schema : M → MessageDef S M} {message : M}

/-- The field of the struct that is found: the one of the ordinary field with the name. A
variant of a oneof has none. -/
theorem findFieldWithinStruct_eq_some_iff {name : String} (hname : IsPlain name) {i : ℕ} :
    findFieldWithinStruct name (structType schema (.message message)) = some i ↔
      ∃ f, (schema message).members[i]? = some (.field f) ∧ f.name = name := by
  have hfound (j : ℕ) (h : findFieldWithinStruct name (structType schema (.message message)) =
      some j) : ∃ f, (schema message).members[j]? = some (.field f) ∧ f.name = name := by
    obtain ⟨hlt, hcontains, -⟩ := List.findIdx?_eq_some_iff_getElem.mp h
    simp only [structType, List.getElem_map] at hcontains
    obtain ⟨f, hmember, hf⟩ := (contains_structField_iff hname).mp hcontains
    exact ⟨f, hmember ▸ List.getElem?_eq_getElem _, hf⟩
  refine ⟨hfound i, ?_⟩
  rintro ⟨f, hmember, hf⟩
  cases h : findFieldWithinStruct name (structType schema (.message message)) with
  | none =>
    have hnone := List.findIdx?_eq_none_iff.mp h (MemberDef.field f).structField
      (List.mem_map_of_mem (List.mem_of_getElem? hmember))
    rw [(contains_structField_iff hname).mpr ⟨f, rfl, hf⟩] at hnone
    exact Bool.noConfusion hnone
  | some j =>
    obtain ⟨f', hmember', hf'⟩ := hfound j h
    rw [MessageDef.place_unique hmember' hmember (List.mem_singleton_self _)
      (List.mem_singleton_self _) (hf'.trans hf.symm)]

/-- The fields of the descriptor are at different places of the struct. -/
theorem nodup_places : ((schema message).fields.filterMap fun f =>
    findFieldWithinStruct f.name (structType schema (.message message))).Nodup := by
  refine List.Pairwise.filterMap _ ?_ (List.pairwise_map.mp (schema message).nodup)
  rintro f f' hne i hi j hj rfl
  obtain ⟨g, hg, hname⟩ := (findFieldWithinStruct_eq_some_iff f.tag.name_plain).mp hi
  obtain ⟨g', hg', hname'⟩ := (findFieldWithinStruct_eq_some_iff f'.tag.name_plain).mp hj
  obtain rfl : g = g' := by simpa [hg] using hg'
  exact hne (hname.symm.trans hname')

/-- A field of the descriptor that is found is the ordinary field at that place. -/
theorem eq_field_of_found {f : FieldDef S M} (hf : f ∈ (schema message).fields) {i : ℕ}
    (h : findFieldWithinStruct f.name (structType schema (.message message)) = some i) :
    (schema message).members[i]? = some (.field f) := by
  obtain ⟨g, hg, hname⟩ := (findFieldWithinStruct_eq_some_iff f.tag.name_plain).mp h
  rw [hg, List.inj_on_of_nodup_map (schema message).nodup (MessageDef.mem_fields hg) hf hname]

/-! ### The passes over a message -/

/-- What the filter does with a member of a message, or with a value of a type. -/
def filterSlot (schema : M → MessageDef S M) (fuel : ℕ) :
    Slot S M → GoValue S (GoType M) → Except FilterError (GoValue S (GoType M))
  | .type _, value => filterReflectedValue (structType schema) fuel value
  | .member _ (.field f), value =>
    filterReflectedValue (structType schema) fuel (if f.hideOnClient then f.type.zero else value)
  | .member _ (.oneof _ _), value =>
    filterInterface (filterReflectedValue (structType schema) fuel) value
  | .member _ (.internal _), value => .ok value

/-- Whether the member is filtered in the first pass. -/
def MemberDef.isOneof : MemberDef S M → Bool
  | .oneof _ _ => true
  | _ => false

/-- The values between the two passes: those of the oneofs are the new ones. -/
def afterOneofs (members : List (MemberDef S M)) (values values' : List (GoValue S (GoType M))) :
    List (GoValue S (GoType M)) :=
  (members.zip (values.zip values')).map fun p => if p.1.isOneof then p.2.2 else p.2.1

/-- Two lists of values of the members agree at a place if they do where a member is. -/
theorem getElem?_eq_of_member {members : List (MemberDef S M)}
    {values values' : List (GoValue S (GoType M))} (hlength : values.length = members.length)
    (hlength' : values'.length = members.length) {i : ℕ}
    (h : ∀ member, members[i]? = some member → values[i]? = values'[i]?) :
    values[i]? = values'[i]? := by
  cases hmember : members[i]? with
  | some member => exact h member hmember
  | none =>
    have hge := List.getElem?_eq_none_iff.mp hmember
    rw [List.getElem?_eq_none (by omega), List.getElem?_eq_none (by omega)]

section Passes

variable {fuel : ℕ} {values values' : List (GoValue S (GoType M))}
  (hlength : values.length = (schema message).members.length)
  (hlength' : values'.length = values.length)
  (h : ∀ (i : ℕ) member value value', (schema message).members[i]? = some member →
    values[i]? = some value → values'[i]? = some value' →
    filterSlot schema fuel (.member message member) value = .ok value')

include hlength hlength'

theorem length_afterOneofs :
    (afterOneofs (schema message).members values values').length = values.length := by
  simp [afterOneofs, hlength, hlength']

/-- A place of the struct has a member and two values. -/
theorem exists_at {i : ℕ} {member : MemberDef S M}
    (hi : (schema message).members[i]? = some member) :
    ∃ value value', values[i]? = some value ∧ values'[i]? = some value' ∧
      (afterOneofs (schema message).members values values')[i]? =
        some (if member.isOneof then value' else value) := by
  obtain ⟨hlt, -⟩ := List.getElem?_eq_some_iff.mp hi
  have hvalue : values[i]? = some values[i] := List.getElem?_eq_getElem _
  have hvalue' : values'[i]? = some values'[i] := List.getElem?_eq_getElem _
  refine ⟨_, _, hvalue, hvalue', ?_⟩
  have hzip : ((schema message).members.zip (values.zip values'))[i]? =
      some (member, values[i], values'[i]) :=
    List.getElem?_zip_eq_some.mpr ⟨hi, List.getElem?_zip_eq_some.mpr ⟨hvalue, hvalue'⟩⟩
  rw [afterOneofs, List.getElem?_map, hzip]
  rfl

include h

/-- The first pass filters the oneofs. -/
theorem foldlM_filterOneof :
    (structType schema (.message message)).fields.zipIdx.foldlM
        (filterOneof (filterReflectedValue (structType schema) fuel)) values =
      .ok (afterOneofs (schema message).members values values') := by
  have hfield {i : ℕ} {member : MemberDef S M}
      (hi : (schema message).members[i]? = some member) :
      (member.structField, i) ∈ (structType schema (.message message)).fields.zipIdx := by
    rw [List.mk_mem_zipIdx_iff_getElem?, structType, List.getElem?_map, hi]
    rfl
  have hlength'' := length_afterOneofs hlength hlength'
  rw [foldlM_filterOneof_eq_updateEach]
  refine updateEach_eq_ok ?_ hlength'' ?_ ?_
  · refine List.Pairwise.filterMap _ ?_ (List.pairwise_map.mp (List.nodup_zipIdx_map_snd _))
    intro field field' hne i hi j hj
    rw [Option.ite_none_right_eq_some] at hi hj
    rw [← Option.some.inj hi.2, ← Option.some.inj hj.2]
    exact hne
  · rintro ⟨field, j⟩ hmem i hplace
    obtain ⟨hname, rfl⟩ : field.protobufOneof ≠ "" ∧ j = i := by simpa using hplace
    rw [List.mk_mem_zipIdx_iff_getElem?, structType, List.getElem?_map,
      Option.map_eq_some_iff] at hmem
    obtain ⟨member, hmember, rfl⟩ := hmem
    obtain ⟨value, value', hvalue, hvalue', hafter⟩ := exists_at hlength hlength' hmember
    cases member with
    | field f => exact absurd rfl hname
    | internal zero => exact absurd rfl hname
    | oneof name variants =>
      exact ⟨value, value', hvalue, hafter, h j _ value value' hmember hvalue hvalue'⟩
  · intro i hi
    refine getElem?_eq_of_member (hlength''.trans hlength) hlength fun member hmember => ?_
    obtain ⟨value, value', hvalue, -, hafter⟩ := exists_at hlength hlength' hmember
    rw [hafter, hvalue]
    cases member with
    | field f => rfl
    | internal zero => rfl
    | oneof name variants =>
      have hname := (schema message).oneof_ne_empty name variants (List.mem_of_getElem? hmember)
      exact absurd (List.mem_filterMap.mpr ⟨_, hfield hmember, if_pos hname⟩) hi

omit hlength hlength' h in
theorem filterFoundField_descriptor {f : FieldDef S M} {i : ℕ} (value : GoValue S (GoType M))
    (hi : (schema message).members[i]? = some (.field f)) :
    filterFoundField (filterReflectedValue (structType schema) fuel)
        (structType schema (.message message)) f.descriptor i value =
      filterSlot schema fuel (.member message (.field f)) value := by
  have hfield : (structType schema (.message message)).fields[i]? =
      some (MemberDef.field f).structField := by
    rw [structType, List.getElem?_map, hi]
    rfl
  rw [filterFoundField, hfield, filterSlot, FieldDef.hideOnClient, FieldDef.descriptor]
  cases f.cobaltOptions with
  | none => rfl
  | some options => rfl

/-- The second pass filters the ordinary fields. -/
theorem foldlM_filterMessageField :
    ((schema message).fields.map FieldDef.descriptor).foldlM
        (filterMessageField (filterReflectedValue (structType schema) fuel)
          (structType schema (.message message)))
        (afterOneofs (schema message).members values values') = .ok values' := by
  have hlength'' := length_afterOneofs hlength hlength'
  rw [foldlM_filterMessageField_eq_updateEach]
  refine updateEach_eq_ok ?_ (hlength'.trans hlength''.symm) ?_ ?_
  · rw [List.filterMap_map]
    exact nodup_places
  · intro field hmem i hfound
    obtain ⟨f, hf, rfl⟩ := List.mem_map.mp hmem
    have hmember := eq_field_of_found hf hfound
    obtain ⟨value, value', hvalue, hvalue', hafter⟩ := exists_at hlength hlength' hmember
    exact ⟨value, value', hafter, hvalue', (filterFoundField_descriptor value hmember).trans
      (h i _ value value' hmember hvalue hvalue')⟩
  · intro i hi
    refine getElem?_eq_of_member (hlength'.trans hlength) (hlength''.trans hlength)
      fun member hmember => ?_
    obtain ⟨value, value', hvalue, hvalue', hafter⟩ := exists_at hlength hlength' hmember
    rw [hafter, hvalue']
    cases member with
    | oneof name variants => rfl
    | internal zero =>
      have hsame := h i _ value value' hmember hvalue hvalue'
      exact congrArg some (Except.ok.inj hsame).symm
    | field f =>
      have hfound : findFieldWithinStruct f.name (structType schema (.message message)) = some i :=
        (findFieldWithinStruct_eq_some_iff f.tag.name_plain).mpr ⟨f, hmember, rfl⟩
      have hf : f ∈ (schema message).fields := MessageDef.mem_fields hmember
      exact absurd (List.mem_filterMap.mpr ⟨_, List.mem_map_of_mem hf, hfound⟩) hi

/-- A message, if the filter is known for its members. -/
theorem filterReflectedValue_message :
    filterReflectedValue (structType schema) (fuel + 1)
        (.ptr (some (.struct (.message message) values))) =
      .ok (.ptr (some (.struct (.message message) values'))) := by
  rw [filterReflectedValue, filterPointer_message rfl (foldlM_filterOneof hlength hlength' h)
    (foldlM_filterMessageField hlength hlength' h)]
  rfl

end Passes

/-! ### Filtering a tree -/

theorem eventually_of_succ {P : ℕ → Prop} (h : ∀ᶠ fuel in Filter.atTop, P (fuel + 1)) :
    ∀ᶠ fuel in Filter.atTop, P fuel := by
  rw [← Filter.map_add_atTop_eq_nat 1]
  exact h

/-- The zero value of a type has nothing in it. -/
theorem filterReflectedValue_zero {types : GoType M → StructType S (GoType M)} (fuel : ℕ)
    (type : FieldType S M) :
    filterReflectedValue types (fuel + 1) type.zero = .ok type.zero := by
  cases type with
  | scalar => rfl
  | message => rfl
  | repeated => rfl
  | map => rfl

/-- The filter makes the second value of the first one, as it should, and nothing else of the second
one. -/
structure FiltersTo (schema : M → MessageDef S M) (slot : Slot S M)
    (value value' : GoValue S (GoType M)) : Prop where
  filtered : Filtered schema slot value value'
  eventually : ∀ᶠ fuel in Filter.atTop, filterSlot schema fuel slot value = .ok value' ∧
    filterSlot schema fuel slot value' = .ok value'

/-- A message is filtered if its members are. -/
theorem exists_filtersTo_message {values : List (GoValue S (GoType M))}
    (hlength : values.length = (schema message).members.length)
    (h : ∀ (i : ℕ) member value, (schema message).members[i]? = some member →
      values[i]? = some value → ∃ value', FiltersTo schema (.member message member) value value') :
    ∃ value', FiltersTo schema (.type (.message message))
      (.ptr (some (.struct (.message message) values))) value' := by
  have hvalues (i : ℕ) (value : GoValue S (GoType M)) (hvalue : values[i]? = some value) :
      ∃ value', (∀ member, (schema message).members[i]? = some member →
          Filtered schema (.member message member) value value') ∧
        ∀ᶠ fuel in Filter.atTop, ∀ member, (schema message).members[i]? = some member →
          filterSlot schema fuel (.member message member) value = .ok value' ∧
            filterSlot schema fuel (.member message member) value' = .ok value' := by
    obtain ⟨hlt, -⟩ := List.getElem?_eq_some_iff.mp hvalue
    have hi : (schema message).members[i]? = some (schema message).members[i] :=
      List.getElem?_eq_getElem _
    obtain ⟨value', hfiltered, hfuel⟩ := h i _ value hi hvalue
    simp only [hi, Option.some.injEq, forall_eq']
    exact ⟨value', hfiltered, hfuel⟩
  obtain ⟨values', hlength', hfiltered, hfuel⟩ := exists_list_of_eventually hvalues
  refine ⟨.ptr (some (.struct (.message message) values')), ?_, eventually_of_succ ?_⟩
  · exact .message hlength' fun i member value value' hmember hvalue hvalue' =>
      hfiltered i value value' hvalue hvalue' member hmember
  · filter_upwards [hfuel] with fuel hfuel
    constructor
    · exact filterReflectedValue_message hlength hlength'
        fun i member value value' hmember hvalue hvalue' =>
          (hfuel i value value' hvalue hvalue' member hmember).1
    · refine filterReflectedValue_message (hlength'.trans hlength) rfl ?_
      intro i member value' value'' hmember hvalue' hvalue''
      obtain rfl : value' = value'' := Option.some.inj (hvalue'.symm.trans hvalue'')
      obtain ⟨value, -, hvalue, -⟩ := exists_at hlength hlength' hmember
      exact (hfuel i value value' hvalue hvalue' member hmember).2

/-- A list is filtered if its elements are. -/
theorem exists_filtersTo_repeated {elem : FieldType S M} {values : List (GoValue S (GoType M))}
    (h : ∀ value ∈ values, ∃ value', FiltersTo schema (.type elem) value value') :
    ∃ value', FiltersTo schema (.type (.repeated elem)) (.slice values) value' := by
  obtain ⟨values', hlength', hfiltered, hfuel⟩ := exists_mapM_of_eventually fun value hvalue =>
    (h value hvalue).imp fun value' h => ⟨h.filtered, h.eventually⟩
  refine ⟨.slice values', .repeated hlength' hfiltered, eventually_of_succ ?_⟩
  filter_upwards [hfuel] with fuel hfuel
  have hslice (values : List (GoValue S (GoType M)))
      (h : values.mapM (filterSlot schema fuel (.type elem)) = .ok values') :
      filterReflectedValue (structType schema) (fuel + 1) (.slice values) = .ok (.slice values') :=
    congrArg (Except.map GoValue.slice) h
  exact ⟨hslice values hfuel.1, hslice values' hfuel.2⟩

/-- A map is filtered if its values are. -/
theorem exists_filtersTo_map {type : FieldType S M} {entries : List (S × GoValue S (GoType M))}
    (h : ∀ entry ∈ entries, ∃ value', FiltersTo schema (.type type) entry.2 value') :
    ∃ value', FiltersTo schema (.type (.map type)) (.map entries) value' := by
  have hentries (entry : S × GoValue S (GoType M)) (hentry : entry ∈ entries) :
      ∃ entry' : S × GoValue S (GoType M),
        (entry'.1 = entry.1 ∧ Filtered schema (.type type) entry.2 entry'.2) ∧
        ∀ᶠ fuel in Filter.atTop,
          (filterSlot schema fuel (.type type) entry.2).map (Prod.mk entry.1) = .ok entry' ∧
            (filterSlot schema fuel (.type type) entry'.2).map (Prod.mk entry'.1) = .ok entry' := by
    obtain ⟨value', hfiltered, hfuel⟩ := h entry hentry
    refine ⟨(entry.1, value'), ⟨rfl, hfiltered⟩, ?_⟩
    filter_upwards [hfuel] with fuel hfuel
    rw [hfuel.1, hfuel.2]
    exact ⟨rfl, rfl⟩
  obtain ⟨entries', hlength', hfiltered, hfuel⟩ := exists_mapM_of_eventually hentries
  refine ⟨.map entries', .map hlength'
    (fun i entry entry' h h' => (hfiltered i entry entry' h h').1)
    (fun i entry entry' h h' => (hfiltered i entry entry' h h').2), eventually_of_succ ?_⟩
  filter_upwards [hfuel] with fuel hfuel
  exact ⟨congrArg (Except.map GoValue.map) hfuel.1, congrArg (Except.map GoValue.map) hfuel.2⟩

/-- An ordinary field is filtered if its value is. -/
theorem exists_filtersTo_field {f : FieldDef S M} {value : GoValue S (GoType M)}
    (h : ∃ value', FiltersTo schema (.type f.type) value value') :
    ∃ value', FiltersTo schema (.member message (.field f)) value value' := by
  cases hoption : f.hideOnClient with
  | true =>
    refine ⟨f.type.zero, .hidden hoption, eventually_of_succ (.of_forall fun fuel => ?_)⟩
    simp only [filterSlot, hoption, if_true, filterReflectedValue_zero, and_self]
  | false =>
    obtain ⟨value', hfiltered, hfuel⟩ := h
    refine ⟨value', .field hoption hfiltered, ?_⟩
    filter_upwards [hfuel] with fuel hfuel
    simpa only [filterSlot, hoption, Bool.false_eq_true, if_false] using hfuel

/-- A oneof is filtered if the value of the variant that is set is. -/
theorem exists_filtersTo_variant {name : String} {variants : List (FieldDef S M)}
    {f : FieldDef S M} {value : GoValue S (GoType M)} (hf : f ∈ variants)
    (hoption : f.hideOnClient = false)
    (h : ∃ value', FiltersTo schema (.type f.type) value value') :
    ∃ value', FiltersTo schema (.member message (.oneof name variants))
      (wrapped message f.name value) value' := by
  obtain ⟨value', hfiltered, hfuel⟩ := h
  refine ⟨wrapped message f.name value', .variant hf hoption hfiltered,
    eventually_of_succ (eventually_of_succ ?_)⟩
  filter_upwards [hfuel] with fuel hfuel
  have hwrapper (value : GoValue S (GoType M))
      (h : filterSlot schema fuel (.type f.type) value = .ok value') :
      filterSlot schema (fuel + 2) (.member message (.oneof name variants))
        (wrapped message f.name value) = .ok (wrapped message f.name value') := by
    rw [filterSlot, wrapped, filterInterface, filterReflectedValue_wrapper rfl h]
    rfl
  exact ⟨hwrapper value hfuel.1, hwrapper value' hfuel.2⟩

/-- Every tree is filtered. -/
theorem exists_filtersTo (hschema : OnlyOrdinaryHidden schema) {slot : Slot S M}
    {value : GoValue S (GoType M)} (htype : HasType schema slot value)
    (hslot : ∀ message member, slot = .member message member → member ∈ (schema message).members) :
    ∃ value', FiltersTo schema slot value value' := by
  induction htype with
  | scalar => exact ⟨_, .scalar, eventually_of_succ (.of_forall fun fuel => ⟨rfl, rfl⟩)⟩
  | nil => exact ⟨_, .nil, eventually_of_succ (.of_forall fun fuel => ⟨rfl, rfl⟩)⟩
  | unset => exact ⟨_, .unset, eventually_of_succ (.of_forall fun fuel => ⟨rfl, rfl⟩)⟩
  | internal => exact ⟨_, .internal, .of_forall fun fuel => ⟨rfl, rfl⟩⟩
  | message hlength _ ih =>
    refine exists_filtersTo_message hlength fun i member value hmember hvalue => ?_
    refine ih i member value hmember hvalue fun message member heq => ?_
    cases heq
    exact List.mem_of_getElem? hmember
  | repeated _ ih =>
    exact exists_filtersTo_repeated fun value hvalue => ih value hvalue fun _ _ heq => by cases heq
  | map _ ih =>
    exact exists_filtersTo_map fun entry hentry => ih entry hentry fun _ _ heq => by cases heq
  | field _ ih => exact exists_filtersTo_field (ih fun _ _ heq => by cases heq)
  | variant hf _ ih =>
    have hmember := hslot _ _ rfl
    exact exists_filtersTo_variant hf (hschema _ _ _ hmember _ hf) (ih fun _ _ heq => by cases heq)

/-- **The fields with the option `hide_on_client` are unset at every depth**, and nothing else is
changed, if the option is only set on ordinary fields. To filter the registry again changes
nothing. -/
theorem filterHideOnClient_filtered (schema : M → MessageDef S M)
    (hschema : OnlyOrdinaryHidden schema) (registry : M) (c : GoValue S (GoType M))
    (hc : HasType schema (.type (.message registry)) c) :
    ∃ c', (∀ᶠ fuel in Filter.atTop, filterHideOnClient (structType schema) fuel c = .ok c') ∧
      Filtered schema (.type (.message registry)) c c' ∧
      ∀ᶠ fuel in Filter.atTop, filterHideOnClient (structType schema) fuel c' = .ok c' := by
  obtain ⟨c', hfiltered, hfuel⟩ := exists_filtersTo hschema hc (fun _ _ heq => by cases heq)
  exact ⟨c', hfuel.mono fun fuel h => h.1, hfiltered, hfuel.mono fun fuel h => h.2⟩

instance (s : String) : Decidable (IsPlain s) :=
  inferInstanceAs (Decidable (',' ∉ s.toList ∧ '=' ∉ s.toList))

theorem isPlain_bytes_opt {number : String} (hnumber : IsPlain number) :
    ∀ s ∈ ["bytes", number, "opt"], IsPlain s := by
  have hbytes : IsPlain "bytes" := by decide
  have hopt : IsPlain "opt" := by decide
  simp [hbytes, hnumber, hopt]

/-- The tag of a string or of a message. -/
def bytesTag (number name : String) (hnumber : IsPlain number) (hname : IsPlain name) :
    ProtobufTag where
  kind := ["bytes", number, "opt"]
  name := name
  json := none
  oneof := false
  enum := none
  kind_plain := isPlain_bytes_opt hnumber
  name_plain := hname
  json_plain := fun _ h => absurd h (Option.not_mem_none _)
  enum_plain := fun _ h => absurd h (Option.not_mem_none _)

/-- Two messages of the registry. -/
inductive RegistryMessage
  | metricDefinition
  | metadata

/-- A field of type `string` that is hidden from the clients. -/
def hiddenString (number name : String) (hnumber : IsPlain number) (hname : IsPlain name) :
    FieldDef String RegistryMessage :=
  ⟨bytesTag number name hnumber hname, .scalar "", some ⟨true⟩⟩

theorem isPlain_numbers : IsPlain "1" ∧ IsPlain "11" ∧ IsPlain "14" := by decide

theorem isPlain_names :
    IsPlain "customer_name" ∧ IsPlain "meta_data" ∧ IsPlain "expiration_date" := by decide

/-- The members of the two messages. -/
def registryMembers : RegistryMessage → List (MemberDef String RegistryMessage)
  | .metricDefinition =>
    [.field (hiddenString "14" "customer_name" isPlain_numbers.2.2 isPlain_names.1),
      .field ⟨bytesTag "11" "meta_data" isPlain_numbers.2.1 isPlain_names.2.1,
        .message .metadata, none⟩]
  | .metadata =>
    [.field (hiddenString "1" "expiration_date" isPlain_numbers.1 isPlain_names.2.2),
      .internal (.scalar "")]

theorem nodup_registryMembers (message : RegistryMessage) :
    (((registryMembers message).flatMap MemberDef.fields).map FieldDef.name).Nodup := by
  cases message <;> decide

theorem oneof_notMem_registryMembers (message : RegistryMessage) (name : String)
    (variants : List (FieldDef String RegistryMessage)) :
    .oneof name variants ∉ registryMembers message := by
  cases message <;> simp [registryMembers]

/-- The two messages. -/
def registrySchema (message : RegistryMessage) : MessageDef String RegistryMessage where
  members := registryMembers message
  nodup := nodup_registryMembers message
  oneof_ne_empty := fun name variants h =>
    absurd h (oneof_notMem_registryMembers message name variants)

/-- A metric with its metadata. -/
def sampleMetric : GoValue String (GoType RegistryMessage) :=
  .ptr (some (.struct (.message .metricDefinition) [.scalar "fuchsia",
    .ptr (some (.struct (.message .metadata) [.scalar "2020/12/31", .scalar "size"]))]))

theorem hasType_sampleMetric :
    HasType registrySchema (.type (.message .metricDefinition)) sampleMetric := by
  refine .message rfl ?_
  rintro (_ | _ | i) member value hmember hvalue
  · obtain rfl := Option.some.inj hmember
    obtain rfl := Option.some.inj hvalue
    exact .field .scalar
  · obtain rfl := Option.some.inj hmember
    obtain rfl := Option.some.inj hvalue
    refine .field (.message rfl ?_)
    rintro (_ | _ | i) member value hmember hvalue
    · obtain rfl := Option.some.inj hmember
      obtain rfl := Option.some.inj hvalue
      exact .field .scalar
    · obtain rfl := Option.some.inj hmember
      exact .internal
    · exact absurd hvalue (by simp)
  · exact absurd hvalue (by simp)

theorem filterHideOnClient_filtered_metric :
    OnlyOrdinaryHidden registrySchema ∧
    ∃ c', (∀ᶠ fuel in Filter.atTop,
        filterHideOnClient (structType registrySchema) fuel sampleMetric = .ok c') ∧
      Filtered registrySchema (.type (.message .metricDefinition)) sampleMetric c' ∧
      ∀ᶠ fuel in Filter.atTop,
        filterHideOnClient (structType registrySchema) fuel c' = .ok c' := by
  have hschema : OnlyOrdinaryHidden registrySchema := fun message name variants h =>
    absurd h (oneof_notMem_registryMembers message name variants)
  exact ⟨hschema, filterHideOnClient_filtered registrySchema hschema .metricDefinition sampleMetric
    hasType_sampleMetric⟩

end Cobalt.ConfigParser
