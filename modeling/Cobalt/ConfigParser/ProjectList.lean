import Cobalt.Lib.Checks
import Cobalt.Lib.MachineInt
import Cobalt.Registry.CobaltRegistry

/-!
# The list of customers and projects

The registry has one `yaml` file that lists the customers and the projects of each. The config
parser decodes the file into values whose types are only known at run time, goes through them with
type assertions, and appends one `ProjectConfig` for each project.

The entry `projects` of a customer has to be a list. Where it is not, an error is made and dropped,
and the customer is taken to have no projects. The ids are integers of 64 bits, and are stored in 32
bits.

An error is kept as the format and the arguments that `fmt.Errorf` is called with.

## Main definitions

* `Value`: what `yaml.Unmarshal` makes.
* `parseCustomerList`, `populateProjectList`, `populateProjectConfig`, `toStrMap`.
* `Declares`, `Reads`: what a project and a customer of the list declare.

## Main results

* `parseCustomerList_eq_none`: when a call succeeds, and what it appends.
* `carried_iff`: when a list that is accepted is well formed and its projects are appended as
  declared.
-/

namespace Cobalt.ConfigParser

open Checks

/-! ### Values, errors and projects -/

/-- `int`, on a platform of 64 bits. -/
abbrev GoInt : Type := {n : ℤ // -2 ^ 63 ≤ n ∧ n < 2 ^ 63}

/-- A value of type `interface{}`. The dynamic types that no type assertion names are not told
apart; their values have the text that they are printed as. -/
inductive Value
  | nil
  | string (s : String)
  | int (n : GoInt)
  | list (items : List Value)
  | map (entries : List (Value × Value))
  | other (text : String)

/-- The type assertion `v.(string)`. -/
def Value.string? : Value → Option String
  | .string s => some s
  | _ => none

/-- The type assertion `v.(int)`. -/
def Value.int? : Value → Option GoInt
  | .int n => some n
  | _ => none

/-- The type assertion `v.([]interface{})`. -/
def Value.list? : Value → Option (List Value)
  | .list items => some items
  | _ => none

/-- The type assertion `v.(map[interface{}]interface{})`. -/
def Value.map? : Value → Option (List (Value × Value))
  | .map entries => some entries
  | _ => none

/-- An argument of `fmt.Errorf`. -/
inductive Arg
  | value (v : Value)
  | text (s : String)
  | number (n : ℤ)

/-- An error made by `fmt.Errorf`; for `wrapf` the last argument is another error. -/
inductive Error
  | errorf (format : String) (args : List Arg)
  | wrapf (format : String) (args : List Arg) (cause : Error)

/-- Puts an error into another one. -/
def wrapError {α : Type} (format : String) (args : List Arg) : Except Error α → Except Error α
  | .error cause => .error (.wrapf format args cause)
  | .ok a => .ok a

/-- `CobaltVersion`. -/
inductive CobaltVersion
  | CobaltVersion0
  | CobaltVersion1
  deriving DecidableEq, Repr

/-- `ProjectConfig`. Of the `ProjectConfigFile`, the metric definitions are its only field. -/
structure ProjectConfig where
  customerName : String := ""
  customerId : ℕ := 0
  projectName : String := ""
  projectId : ℕ := 0
  contact : String := ""
  cobaltVersion : CobaltVersion := .CobaltVersion0
  projectConfig : Option (List ConfigValidator.MetricDefinition) := none

/-- `validNameRegexp`. -/
def validNameRegexp : String := "^[a-zA-Z][_a-zA-Z0-9]\x7b1,81\x7d$"

/-- `validNameRegexp.MatchString`. -/
def isValidName (name : String) : Bool :=
  match name.toList with
  | [] => false
  | c :: cs => c.isAlpha && 1 ≤ cs.length && cs.length ≤ 81 &&
      cs.all fun c => c == '_' || c.isAlphanum

/-! ### One project -/

/-- `toStrMap`. -/
def toStrMap (i : List (Value × Value)) : Except Error (ProtoMap String Value) :=
  i.foldlM (fun o (k, v) => do
    let s ← get (.errorf "Expected a yaml map with string keys. '%v' is not a string." [.value k])
      k.string?
    return o.insert s v) ∅

/-- The part of `populateProjectConfig` that reads the version. -/
def populateCobaltVersion (p : ProtoMap String Value) (projectName : String) :
    Except Error CobaltVersion :=
  match p.lookup "cobalt_version" with
  | none => .ok .CobaltVersion1
  | some v => do
    let version ← get (.errorf "Cobalt version '%v' for project %v is not an integer."
      [.value v, .text projectName]) v.int?
    if version.1 = 0 then .ok .CobaltVersion0
    else if version.1 = 1 then .ok .CobaltVersion1
    else .error (.errorf "Version '%v' for project %v is not '1' or '0'."
      [.number version.1, .text projectName])

/-- The part of `populateProjectConfig` that reads the id. -/
def populateProjectId (p : ProtoMap String Value) (c : ProjectConfig) : Except Error ℕ :=
  if c.cobaltVersion = .CobaltVersion1 then do
    let v ← get (.errorf "Missing project_id for project %v." [.text c.projectName])
      (p.lookup "project_id")
    let projectId ← get (.errorf "ID '%v' for project %v is not an integer."
      [.value v, .text c.projectName]) v.int?
    require (.errorf "ID for project %v is not a positive integer." [.text c.projectName])
      (0 < projectId.1)
    return U32.ofInt projectId.1
  else .ok c.projectId

/-- `populateProjectConfig`. -/
def populateProjectConfig (p : ProtoMap String Value) (c : ProjectConfig) :
    Except Error ProjectConfig := do
  let v ← get (.errorf "Missing name in project list." []) (p.lookup "project_name")
  let projectName ← get (.errorf "Project name '%v' is not a string." [.value v]) v.string?
  require (.errorf ("Project name '%v' is invalid. Project names must match the regular " ++
    "expression '%v'") [.text projectName, .text validNameRegexp]) (isValidName projectName)
  let cobaltVersion ← populateCobaltVersion p projectName
  require (.errorf ("Project %v is declared to use config version 0.1, which is no longer " ++
    "supported.") [.text projectName]) (cobaltVersion ≠ .CobaltVersion0)
  let projectId ← populateProjectId p
    { c with projectName := projectName, cobaltVersion := cobaltVersion }
  let v ← get (.errorf "Missing contact for project %v." [.text projectName])
    (p.lookup "project_contact")
  let contact ← get (.errorf "Contact '%v' for project %v is not a string."
    [.value v, .text projectName]) v.string?
  return { c with
    projectName := projectName
    cobaltVersion := cobaltVersion
    projectId := projectId
    contact := contact }

/-- What the loop of `populateProjectList` does to one entry, up to the checks that it was not
repeated. -/
def populateProjectEntry (i : ℕ) (v : Value) : Except Error ProjectConfig := do
  let m ← get (.errorf "Entry %v in project list is not a yaml map." [.number i]) v.map?
  let p ← wrapError "Entry %v in project list is not valid: %v" [.number i] (toStrMap m)
  wrapError "Error in entry %v in project list: %v" [.number i] (populateProjectConfig p {})

/-- The loop of `populateProjectList`. -/
def projectListLoop : ℕ → List String → List ℕ → List Value → List ProjectConfig →
    Except Error (List ProjectConfig)
  | _, _, _, [], l => .ok l
  | i, projectNames, projectIds, v :: y, l => do
    let c ← populateProjectEntry i v
    require (.errorf "Project name '%v' repeated. Project names must be unique."
      [.text c.projectName]) (c.projectName ∉ projectNames)
    require (.errorf "Project id %v for project %v is repeated. Project ids must be unique."
      [.number c.projectId, .text c.projectName]) (c.projectId ∉ projectIds)
    projectListLoop (i + 1) (c.projectName :: projectNames) (c.projectId :: projectIds) y (l ++ [c])

/-- `populateProjectList`. The only caller drops the list where there is an error. -/
def populateProjectList (y : List Value) (l : List ProjectConfig) :
    Except Error (List ProjectConfig) :=
  projectListLoop 0 [] [] y l

/-! ### The customers -/

/-- `math.MaxInt32`. -/
def maxInt32 : ℤ := 2 ^ 31 - 1

/-- The part of the loop of `parseCustomerList` that reads the name of a customer. -/
def parseCustomerName (i : ℕ) (customerNames : List String) (customer : ProtoMap String Value) :
    Except Error String := do
  let v ← get
    (.errorf "customer_name field is missing in entry %v of the customer list." [.number i])
    (customer.lookup "customer_name")
  let customerName ← get (.errorf "Customer name '%v' is not a string." [.value v]) v.string?
  require (.errorf ("Customer name '%v' is invalid. Customer names must match the regular " ++
    "expression '%v'") [.text customerName, .text validNameRegexp]) (isValidName customerName)
  require (.errorf "Customer name '%v' repeated. Customer names must be unique."
    [.text customerName]) (customerName ∉ customerNames)
  return customerName

/-- The part of the loop of `parseCustomerList` that reads the id of a customer. An id of another
type is printed as the zero that the failed type assertion leaves. -/
def parseCustomerId (customerName : String) (customerIds : List ℤ)
    (customer : ProtoMap String Value) : Except Error ℤ := do
  let v ← get (.errorf "Missing customer id for '%v'." [.text customerName])
    (customer.lookup "customer_id")
  let customerId ← get (.errorf "Customer id '%v' for '%v' is not numeric."
    [.number 0, .text customerName]) v.int?
  require (.errorf "Customer id for '%v' is negative. Customer ids must be positive."
    [.text customerName]) (0 ≤ customerId.1)
  require (.errorf ("Customer '%v' tried to register id %d, which is reserved for the internal " ++
    "customer 'cobalt_internal'.") [.text customerName, .number maxInt32])
    (¬ (customerId.1 = maxInt32 ∧ customerName ≠ "cobalt_internal"))
  require (.errorf "Customer id %v for customer '%v' repeated. Customer names must be unique."
    [.number customerId.1, .text customerName]) (customerId.1 ∉ customerIds)
  return customerId.1

/-- The list that `projectsAsList` is after the type assertion: where it fails, the error that is
made is not returned, and the list is `nil`. -/
def projectsAsList (projectsAsI : Value) : List Value :=
  projectsAsI.list?.getD []

/-- The projects of a customer, none where the entry is absent. -/
def parseProjects (customerName : String) (customerId : ℤ) (customer : ProtoMap String Value) :
    Except Error (List ProjectConfig) :=
  match customer.lookup "projects" with
  | none => .ok []
  | some projectsAsI => do
    let c ← wrapError "Project list for customer %v is invalid: %v" [.text customerName]
      (populateProjectList (projectsAsList projectsAsI) [])
    return c.map fun config =>
      { config with customerId := U32.ofInt customerId, customerName := customerName }

/-- What the loop of `parseCustomerList` does to one customer: its name, its id and its projects. -/
def parseCustomer (i : ℕ) (customerNames : List String) (customerIds : List ℤ)
    (customer : ProtoMap String Value) : Except Error (String × ℤ × List ProjectConfig) := do
  let customerName ← parseCustomerName i customerNames customer
  let customerId ← parseCustomerId customerName customerIds customer
  let c ← parseProjects customerName customerId customer
  return (customerName, customerId, c)

/-- The loop of `parseCustomerList`. What was appended before an error stays. -/
def customerListLoop : ℕ → List String → List ℤ → List (ProtoMap String Value) →
    List ProjectConfig → Option Error × List ProjectConfig
  | _, _, _, [], l => (none, l)
  | i, customerNames, customerIds, customer :: y, l =>
    match parseCustomer i customerNames customerIds customer with
    | .error error => (some error, l)
    | .ok (customerName, customerId, c) =>
      customerListLoop (i + 1) (customerName :: customerNames) (customerId :: customerIds) y
        (l ++ c)

/-- `parseCustomerList`, where `unmarshal` is `yaml.Unmarshal` into a list of maps. -/
def parseCustomerList (unmarshal : String → Except String (List (ProtoMap String Value)))
    (content : String) (l : List ProjectConfig) : Option Error × List ProjectConfig :=
  match unmarshal content with
  | .error error => (some (.errorf
      "Error while parsing the yaml for a list of Cobalt customer definitions: %v"
      [.text error]), l)
  | .ok y => customerListLoop 0 [] [] y l

/-! ### What the list declares -/

/-- A project as it is declared. -/
structure ProjectEntry where
  name : String
  id : ℤ
  contact : String

/-- A customer as it is declared. -/
structure CustomerEntry where
  name : String
  id : ℤ
  projects : List ProjectEntry

/-- The fields of a project that is well formed. -/
structure DeclaresFields (p : ProtoMap String Value) (e : ProjectEntry) : Prop where
  name : p.lookup "project_name" = some (.string e.name)
  valid : isValidName e.name = true
  version : ∀ v, p.lookup "cobalt_version" = some v → ∃ n : GoInt, v = .int n ∧ n.1 = 1
  id : ∃ n : GoInt, p.lookup "project_id" = some (.int n) ∧ n.1 = e.id
  pos : 0 < e.id
  contact : p.lookup "project_contact" = some (.string e.contact)

/-- The value is a map with strings as keys, and the fields of a project that is well formed. -/
def Declares (v : Value) (e : ProjectEntry) : Prop :=
  ∃ fields : List (String × Value), v = .map (fields.map fun p => (.string p.1, p.2)) ∧
    DeclaresFields (ProtoMap.ofPairs fields) e

/-- The name and the id of a customer that is well formed, and the projects that the parser reads.
These are the declared ones if the entry is absent or a list. -/
structure Reads (customer : ProtoMap String Value) (e : CustomerEntry) : Prop where
  name : customer.lookup "customer_name" = some (.string e.name)
  valid : isValidName e.name = true
  id : ∃ n : GoInt, customer.lookup "customer_id" = some (.int n) ∧ n.1 = e.id
  nonneg : 0 ≤ e.id
  reserved : e.id = maxInt32 → e.name = "cobalt_internal"
  projects : List.Forall₂ Declares ((customer.lookup "projects").elim [] projectsAsList) e.projects

/-- The config of a project of a customer. -/
def toConfig (customer : CustomerEntry) (e : ProjectEntry) : ProjectConfig where
  customerName := customer.name
  customerId := U32.ofInt customer.id
  projectName := e.name
  projectId := U32.ofInt e.id
  contact := e.contact
  cobaltVersion := .CobaltVersion1

/-! ### What the parser accepts -/

@[simp] theorem wrapError_eq_ok {α : Type} {format : String} {args : List Arg} {x : Except Error α}
    {a : α} : wrapError format args x = .ok a ↔ x = .ok a := by
  cases x <;> simp [wrapError]

@[simp] theorem Value.string?_eq_some {v : Value} {s : String} :
    v.string? = some s ↔ v = .string s := by
  cases v <;> simp [Value.string?]

@[simp] theorem Value.int?_eq_some {v : Value} {n : GoInt} : v.int? = some n ↔ v = .int n := by
  cases v <;> simp [Value.int?]

@[simp] theorem Value.map?_eq_some {v : Value} {entries : List (Value × Value)} :
    v.map? = some entries ↔ v = .map entries := by
  cases v <;> simp [Value.map?]

/-- `toStrMap` succeeds on maps whose keys are strings. -/
theorem toStrMap_eq_ok {i : List (Value × Value)} {o : ProtoMap String Value} :
    toStrMap i = .ok o ↔ ∃ fields : List (String × Value),
      i = fields.map (fun p => (.string p.1, p.2)) ∧ o = ProtoMap.ofPairs fields := by
  rw [toStrMap]
  simp only [ProtoMap.ofPairs]
  generalize (∅ : ProtoMap String Value) = start
  induction i generalizing start with
  | nil =>
    simp only [List.foldlM_nil, pure_eq_ok, List.nil_eq, List.map_eq_nil_iff, exists_eq_left,
      List.foldl_nil]
    exact eq_comm
  | cons kv i ih =>
    simp only [List.foldlM_cons, bind_eq_ok, get_eq_ok, Value.string?_eq_some, pure_eq_ok, ih]
    constructor
    · rintro ⟨_, ⟨s, hkey, rfl⟩, fields, rfl, rfl⟩
      exact ⟨(s, kv.2) :: fields, by rw [List.map_cons, ← hkey], rfl⟩
    · rintro ⟨fields, heq, rfl⟩
      obtain ⟨p, fields, rfl, rfl, rfl⟩ := List.map_eq_cons_iff.mp heq.symm
      exact ⟨_, ⟨p.1, rfl, rfl⟩, fields, rfl, rfl⟩

theorem populateCobaltVersion_eq_ok {p : ProtoMap String Value} {projectName : String} :
    populateCobaltVersion p projectName = .ok .CobaltVersion1 ↔
      ∀ v, p.lookup "cobalt_version" = some v → ∃ n : GoInt, v = .int n ∧ n.1 = 1 := by
  rw [populateCobaltVersion]
  cases p.lookup "cobalt_version" with
  | none => simp
  | some v =>
    simp only [bind_eq_ok, get_eq_ok, Value.int?_eq_some, Option.some.injEq, forall_eq']
    refine exists_congr fun n => and_congr_right fun _ => ?_
    split_ifs with hzero hone
    · simp [hzero]
    · simp [hone]
    · simp [hone]

theorem populateProjectId_eq_ok {p : ProtoMap String Value} {c : ProjectConfig}
    (hversion : c.cobaltVersion = .CobaltVersion1) {projectId : ℕ} :
    populateProjectId p c = .ok projectId ↔ ∃ n : GoInt, p.lookup "project_id" = some (.int n) ∧
      0 < n.1 ∧ U32.ofInt n.1 = projectId := by
  rw [populateProjectId, if_pos hversion]
  simp only [bind_eq_ok, get_eq_ok, Value.int?_eq_some, require_eq_ok, pure_eq_ok, exists_const]
  constructor
  · rintro ⟨_, hlookup, n, rfl, hpos, heq⟩
    exact ⟨n, hlookup, hpos, heq⟩
  · rintro ⟨n, hlookup, hpos, heq⟩
    exact ⟨_, hlookup, n, rfl, hpos, heq⟩

/-- One project. The fields are read from a map that declares a project, and only from one. -/
theorem populateProjectConfig_eq_ok {p : ProtoMap String Value} {c c' : ProjectConfig} :
    populateProjectConfig p c = .ok c' ↔ ∃ e, DeclaresFields p e ∧
      c' = { c with
        projectName := e.name
        cobaltVersion := .CobaltVersion1
        projectId := U32.ofInt e.id
        contact := e.contact } := by
  simp only [populateProjectConfig, bind_eq_ok, get_eq_ok, Value.string?_eq_some, require_eq_ok,
    pure_eq_ok, exists_const]
  constructor
  · rintro ⟨_, hname, name, rfl, hvalid, version, hversion, hsupported, id, hid, _, hcontact,
      contact, rfl, rfl⟩
    obtain rfl : version = .CobaltVersion1 := by
      cases version with
      | CobaltVersion0 => exact absurd rfl hsupported
      | CobaltVersion1 => rfl
    obtain ⟨n, hlookup, hpos, rfl⟩ := (populateProjectId_eq_ok rfl).mp hid
    exact ⟨⟨name, n.1, contact⟩, ⟨hname, hvalid, populateCobaltVersion_eq_ok.mp hversion,
      ⟨n, hlookup, rfl⟩, hpos, hcontact⟩, rfl⟩
  · rintro ⟨⟨name, id, contact⟩, ⟨hname, hvalid, hversion, ⟨n, hlookup, hn⟩, hpos, hcontact⟩, rfl⟩
    obtain rfl : n.1 = id := hn
    exact ⟨_, hname, name, rfl, hvalid, _, populateCobaltVersion_eq_ok.mpr hversion, by simp, _,
      (populateProjectId_eq_ok rfl).mpr ⟨n, hlookup, hpos, rfl⟩, _, hcontact, contact, rfl, rfl⟩

/-- The config of a project, before the customer is filled in. -/
def ProjectEntry.config (e : ProjectEntry) : ProjectConfig where
  projectName := e.name
  projectId := U32.ofInt e.id
  contact := e.contact
  cobaltVersion := .CobaltVersion1

theorem populateProjectEntry_eq_ok {i : ℕ} {v : Value} {c : ProjectConfig} :
    populateProjectEntry i v = .ok c ↔ ∃ e, Declares v e ∧ c = e.config := by
  simp only [populateProjectEntry, bind_eq_ok, get_eq_ok, Value.map?_eq_some, wrapError_eq_ok,
    toStrMap_eq_ok, populateProjectConfig_eq_ok]
  constructor
  · rintro ⟨_, rfl, _, ⟨fields, rfl, rfl⟩, e, hfields, rfl⟩
    exact ⟨e, ⟨fields, rfl, hfields⟩, rfl⟩
  · rintro ⟨e, ⟨fields, rfl, hfields⟩, rfl⟩
    exact ⟨_, rfl, _, ⟨fields, rfl, rfl⟩, e, hfields, rfl⟩

/-- The projects of a customer. The list is read if and only if its entries declare projects, no
name is repeated and no id is, after its conversion. -/
theorem projectListLoop_eq_ok {i : ℕ} {names : List String} {ids : List ℕ} {y : List Value}
    {l l' : List ProjectConfig} :
    projectListLoop i names ids y l = .ok l' ↔ ∃ entries : List ProjectEntry,
      List.Forall₂ Declares y entries ∧ l' = l ++ entries.map ProjectEntry.config ∧
      Fresh names (entries.map ProjectEntry.name) ∧
      Fresh ids (entries.map fun e => U32.ofInt e.id) := by
  induction y generalizing i names ids l with
  | nil =>
    simp only [projectListLoop, Except.ok.injEq, List.forall₂_nil_left_iff, exists_eq_left,
      List.map_nil, List.append_nil, fresh_nil, and_true]
    exact eq_comm
  | cons v y ih =>
    simp only [projectListLoop, bind_eq_ok, populateProjectEntry_eq_ok, require_eq_ok,
      exists_const, ih]
    constructor
    · rintro ⟨_, ⟨e, hv, rfl⟩, hname, hid, entries, hy, rfl, hnames, hids⟩
      refine ⟨e :: entries, .cons hv hy, ?_, fresh_cons.mpr ⟨hname, hnames⟩,
        fresh_cons.mpr ⟨hid, hids⟩⟩
      rw [List.map_cons, List.append_assoc, List.singleton_append]
    · rintro ⟨_, hall, rfl, hnames, hids⟩
      obtain ⟨e, entries, hv, hy, rfl⟩ := List.forall₂_cons_left_iff.mp hall
      obtain ⟨hname, hnames⟩ := fresh_cons.mp hnames
      obtain ⟨hid, hids⟩ := fresh_cons.mp hids
      refine ⟨_, ⟨e, hv, rfl⟩, hname, hid, entries, hy, ?_, hnames, hids⟩
      rw [List.map_cons, List.append_assoc, List.singleton_append]

theorem populateProjectList_eq_ok {y : List Value} {c : List ProjectConfig} :
    populateProjectList y [] = .ok c ↔ ∃ entries : List ProjectEntry,
      List.Forall₂ Declares y entries ∧ c = entries.map ProjectEntry.config ∧
      (entries.map ProjectEntry.name).Nodup ∧ (entries.map fun e => U32.ofInt e.id).Nodup := by
  simp only [populateProjectList, projectListLoop_eq_ok, List.nil_append, Fresh, List.not_mem_nil,
    not_false_eq_true, implies_true, and_true]

/-- The projects of a customer have distinct names and, as they are stored, distinct ids. -/
structure CustomerEntry.Distinct (e : CustomerEntry) : Prop where
  names : (e.projects.map ProjectEntry.name).Nodup
  ids : (e.projects.map fun p => U32.ofInt p.id).Nodup

theorem parseCustomerName_eq_ok {i : ℕ} {names : List String} {customer : ProtoMap String Value}
    {customerName : String} :
    parseCustomerName i names customer = .ok customerName ↔
      customer.lookup "customer_name" = some (.string customerName) ∧
        isValidName customerName = true ∧ customerName ∉ names := by
  simp only [parseCustomerName, bind_eq_ok, get_eq_ok, Value.string?_eq_some, require_eq_ok,
    pure_eq_ok, exists_const]
  constructor
  · rintro ⟨_, hlookup, name, rfl, hvalid, hnotMem, rfl⟩
    exact ⟨hlookup, hvalid, hnotMem⟩
  · rintro ⟨hlookup, hvalid, hnotMem⟩
    exact ⟨_, hlookup, _, rfl, hvalid, hnotMem, rfl⟩

theorem parseCustomerId_eq_ok {customerName : String} {ids : List ℤ}
    {customer : ProtoMap String Value} {customerId : ℤ} :
    parseCustomerId customerName ids customer = .ok customerId ↔
      (∃ n : GoInt, customer.lookup "customer_id" = some (.int n) ∧ n.1 = customerId) ∧
        0 ≤ customerId ∧ (customerId = maxInt32 → customerName = "cobalt_internal") ∧
        customerId ∉ ids := by
  simp only [parseCustomerId, bind_eq_ok, get_eq_ok, Value.int?_eq_some, require_eq_ok, pure_eq_ok,
    exists_const, not_and, not_not]
  constructor
  · rintro ⟨_, hlookup, n, rfl, hnonneg, hreserved, hnotMem, rfl⟩
    exact ⟨⟨n, hlookup, rfl⟩, hnonneg, hreserved, hnotMem⟩
  · rintro ⟨⟨n, hlookup, rfl⟩, hnonneg, hreserved, hnotMem⟩
    exact ⟨_, hlookup, n, rfl, hnonneg, hreserved, hnotMem, rfl⟩

theorem parseProjects_eq_ok {customerName : String} {customerId : ℤ}
    {customer : ProtoMap String Value} {c : List ProjectConfig} :
    parseProjects customerName customerId customer = .ok c ↔ ∃ projects : List ProjectEntry,
      List.Forall₂ Declares ((customer.lookup "projects").elim [] projectsAsList) projects ∧
      c = projects.map (toConfig ⟨customerName, customerId, projects⟩) ∧
      (⟨customerName, customerId, projects⟩ : CustomerEntry).Distinct := by
  rw [parseProjects]
  cases customer.lookup "projects" with
  | none =>
    simp only [Except.ok.injEq, Option.elim_none, List.forall₂_nil_left_iff, exists_eq_left,
      List.map_nil]
    exact ⟨fun h => ⟨h.symm, List.nodup_nil, List.nodup_nil⟩, fun h => h.1.symm⟩
  | some projectsAsI =>
    simp only [bind_eq_ok, wrapError_eq_ok, populateProjectList_eq_ok, pure_eq_ok, Option.elim_some]
    constructor
    · rintro ⟨_, ⟨projects, hall, rfl, hnames, hids⟩, rfl⟩
      exact ⟨projects, hall, by rw [List.map_map]; rfl, hnames, hids⟩
    · rintro ⟨projects, hall, rfl, hnames, hids⟩
      exact ⟨_, ⟨projects, hall, rfl, hnames, hids⟩, by rw [List.map_map]; rfl⟩

/-- One customer. -/
theorem parseCustomer_eq_ok {i : ℕ} {names : List String} {ids : List ℤ}
    {customer : ProtoMap String Value} {result : String × ℤ × List ProjectConfig} :
    parseCustomer i names ids customer = .ok result ↔ ∃ e, Reads customer e ∧ e.Distinct ∧
      e.name ∉ names ∧ e.id ∉ ids ∧ (e.name, e.id, e.projects.map (toConfig e)) = result := by
  simp only [parseCustomer, bind_eq_ok, pure_eq_ok, parseCustomerName_eq_ok, parseCustomerId_eq_ok,
    parseProjects_eq_ok]
  constructor
  · rintro ⟨name, ⟨hname, hvalid, hnewName⟩, id, ⟨hid, hnonneg, hreserved, hnewId⟩, _,
      ⟨projects, hprojects, rfl, hdistinct⟩, rfl⟩
    exact ⟨⟨name, id, projects⟩, ⟨hname, hvalid, hid, hnonneg, hreserved, hprojects⟩, hdistinct,
      hnewName, hnewId, rfl⟩
  · rintro ⟨⟨name, id, projects⟩, ⟨hname, hvalid, hid, hnonneg, hreserved, hprojects⟩, hdistinct,
      hnewName, hnewId, rfl⟩
    exact ⟨name, ⟨hname, hvalid, hnewName⟩, id, ⟨hid, hnonneg, hreserved, hnewId⟩, _,
      ⟨projects, hprojects, rfl, hdistinct⟩, rfl⟩

/-- The configs of all projects, in the order of the list. -/
def toConfigs (entries : List CustomerEntry) : List ProjectConfig :=
  entries.flatMap fun e => e.projects.map (toConfig e)

/-- The customers. The loop succeeds if and only if every customer can be read and no name or id
is repeated, and it then has appended the configs of the projects in order. -/
theorem customerListLoop_eq_none {i : ℕ} {names : List String} {ids : List ℤ}
    {y : List (ProtoMap String Value)} {l l' : List ProjectConfig} :
    customerListLoop i names ids y l = (none, l') ↔ ∃ entries : List CustomerEntry,
      List.Forall₂ Reads y entries ∧ (∀ e ∈ entries, e.Distinct) ∧ l' = l ++ toConfigs entries ∧
      Fresh names (entries.map CustomerEntry.name) ∧ Fresh ids (entries.map CustomerEntry.id) := by
  induction y generalizing i names ids l with
  | nil =>
    simp only [customerListLoop, Prod.mk.injEq, true_and, List.forall₂_nil_left_iff, exists_eq_left,
      toConfigs, List.flatMap_nil, List.map_nil, List.append_nil, fresh_nil, and_true,
      List.not_mem_nil, false_implies, implies_true]
    exact eq_comm
  | cons customer y ih =>
    rw [customerListLoop]
    constructor
    · intro h
      split at h
      · exact absurd h (by simp)
      · rename_i customerName customerId c hparsed
        obtain ⟨e, hreads, hdistinct, hname, hid, heq⟩ := parseCustomer_eq_ok.mp hparsed
        obtain ⟨rfl, rfl, rfl⟩ : e.name = customerName ∧ e.id = customerId ∧
          e.projects.map (toConfig e) = c := by simpa using heq
        obtain ⟨entries, hall, hdistinct', rfl, hnames, hids⟩ := ih.mp h
        refine ⟨e :: entries, .cons hreads hall, List.forall_mem_cons.mpr ⟨hdistinct, hdistinct'⟩,
          ?_, fresh_cons.mpr ⟨hname, hnames⟩, fresh_cons.mpr ⟨hid, hids⟩⟩
        rw [toConfigs, toConfigs, List.flatMap_cons, List.append_assoc]
    · rintro ⟨_, hall, hdistinct, rfl, hnames, hids⟩
      obtain ⟨e, entries, hreads, hreads', rfl⟩ := List.forall₂_cons_left_iff.mp hall
      obtain ⟨hdistinct, hdistinct'⟩ := List.forall_mem_cons.mp hdistinct
      obtain ⟨hname, hnames⟩ := fresh_cons.mp hnames
      obtain ⟨hid, hids⟩ := fresh_cons.mp hids
      rw [parseCustomer_eq_ok.mpr ⟨e, hreads, hdistinct, hname, hid, rfl⟩]
      refine ih.mpr ⟨entries, hreads', hdistinct', ?_, hnames, hids⟩
      rw [toConfigs, toConfigs, List.flatMap_cons, List.append_assoc]

/-- What a list of customers declares, where the parser accepts it. -/
structure Accepts (y : List (ProtoMap String Value)) (entries : List CustomerEntry) : Prop where
  reads : List.Forall₂ Reads y entries
  distinct : ∀ e ∈ entries, e.Distinct
  names : (entries.map CustomerEntry.name).Nodup
  ids : (entries.map CustomerEntry.id).Nodup

/-- The parser. A call succeeds if and only if the list is accepted, and then it appends the
configs of the projects. -/
theorem parseCustomerList_eq_none
    {unmarshal : String → Except String (List (ProtoMap String Value))} {content : String}
    {y : List (ProtoMap String Value)} (hy : unmarshal content = .ok y)
    {l l' : List ProjectConfig} :
    parseCustomerList unmarshal content l = (none, l') ↔
      ∃ entries, Accepts y entries ∧ l' = l ++ toConfigs entries := by
  simp only [parseCustomerList, hy, customerListLoop_eq_none, Fresh, List.not_mem_nil,
    not_false_eq_true, implies_true, and_true]
  constructor
  · rintro ⟨entries, hreads, hdistinct, hl, hnames, hids⟩
    exact ⟨entries, ⟨hreads, hdistinct, hnames, hids⟩, hl⟩
  · rintro ⟨entries, ⟨hreads, hdistinct, hnames, hids⟩, hl⟩
    exact ⟨entries, hreads, hdistinct, hl, hnames, hids⟩

/-! ### What is declared is determined -/

theorem DeclaresFields.unique {p : ProtoMap String Value} {e e' : ProjectEntry}
    (h : DeclaresFields p e) (h' : DeclaresFields p e') : e = e' := by
  obtain ⟨n, hn, hid⟩ := h.id
  obtain ⟨n', hn', hid'⟩ := h'.id
  obtain ⟨name, id, contact⟩ := e
  obtain ⟨name', id', contact'⟩ := e'
  have hname := h.name.symm.trans h'.name
  have hcontact := h.contact.symm.trans h'.contact
  have hint := hn.symm.trans hn'
  simp only [Option.some.injEq, Value.string.injEq, Value.int.injEq] at hname hcontact hint
  simp only at hid hid'
  rw [← hid, ← hid', hname, hcontact, hint]

theorem rightUnique_declares : Relator.RightUnique Declares := by
  rintro _ e e' ⟨fields, rfl, h⟩ ⟨fields', heq, h'⟩
  have hinj : Function.Injective
      fun p : String × Value => ((.string p.1, p.2) : Value × Value) := by
    rintro ⟨k, v⟩ ⟨k', v'⟩ hp
    simpa using hp
  obtain rfl := List.map_injective_iff.mpr hinj (Value.map.inj heq)
  exact h.unique h'

theorem rightUnique_reads : Relator.RightUnique Reads := by
  rintro customer ⟨name, id, projects⟩ ⟨name', id', projects'⟩ h h'
  obtain ⟨n, hn, hid⟩ := h.id
  obtain ⟨n', hn', hid'⟩ := h'.id
  have hname := h.name.symm.trans h'.name
  have hint := hn.symm.trans hn'
  have hprojects : projects = projects' :=
    List.right_unique_forall₂' rightUnique_declares h.projects h'.projects
  simp only [Option.some.injEq, Value.string.injEq, Value.int.injEq] at hname hint
  simp only at hid hid'
  rw [← hid, ← hid', hname, hint, hprojects]

/-! ### Lists that are accepted although they are malformed -/

/-- The projects of all customers, in the order of the list. -/
def declaredProjects (entries : List CustomerEntry) : List (CustomerEntry × ProjectEntry) :=
  entries.flatMap fun e => e.projects.map fun p => (e, p)

theorem toConfigs_eq_map (entries : List CustomerEntry) :
    toConfigs entries = (declaredProjects entries).map fun p => toConfig p.1 p.2 := by
  simp only [toConfigs, declaredProjects, List.map_flatMap, List.map_map]
  rfl

theorem mem_declaredProjects {entries : List CustomerEntry} {p : CustomerEntry × ProjectEntry} :
    p ∈ declaredProjects entries ↔ p.1 ∈ entries ∧ p.2 ∈ p.1.projects := by
  simp only [declaredProjects, List.mem_flatMap, List.mem_map]
  constructor
  · rintro ⟨e, he, q, hq, rfl⟩
    exact ⟨he, hq⟩
  · exact fun h => ⟨p.1, h.1, p.2, h.2, rfl⟩

/-- The entry `projects` is absent, or a list of projects that are well formed. -/
def ProjectsWellFormed (customer : ProtoMap String Value) : Prop :=
  ∀ v, customer.lookup "projects" = some v →
    ∃ items, v = .list items ∧ ∀ item ∈ items, ∃ e, Declares item e

/-- The config has the name, the id and the contact of the project, and the name of its customer. -/
structure Carries (config : ProjectConfig) (p : CustomerEntry × ProjectEntry) : Prop where
  projectName : config.projectName = p.2.name
  projectId : (config.projectId : ℤ) = p.2.id
  contact : config.contact = p.2.contact
  customerName : config.customerName = p.1.name

/-- No project list was malformed, and the configs that were appended to `l` are those of the
projects in the order of the list. -/
structure Carried (y : List (ProtoMap String Value)) (l l' : List ProjectConfig) : Prop where
  wellFormed : ∀ customer ∈ y, ProjectsWellFormed customer
  carried : ∃ new entries, l' = l ++ new ∧ List.Forall₂ Reads y entries ∧
    List.Forall₂ Carries new (declaredProjects entries)

theorem Declares.pos {v : Value} {e : ProjectEntry} (h : Declares v e) : 0 < e.id := by
  obtain ⟨fields, -, hfields⟩ := h
  exact hfields.pos

theorem carries_toConfig_iff {p : CustomerEntry × ProjectEntry} (hpos : 0 < p.2.id) :
    Carries (toConfig p.1 p.2) p ↔ p.2.id < 2 ^ 32 :=
  ⟨fun h => (U32.ofInt_eq_iff hpos.le).mp h.projectId,
    fun h => ⟨rfl, (U32.ofInt_eq_iff hpos.le).mpr h, rfl, rfl⟩⟩

/-- Where the entry is a list, all of its items are projects of the customer. -/
theorem Reads.items {customer : ProtoMap String Value} {e : CustomerEntry} (h : Reads customer e)
    {items : List Value} (hitems : customer.lookup "projects" = some (.list items)) :
    List.Forall₂ Declares items e.projects := by
  have hprojects := h.projects
  rwa [hitems] at hprojects

/-- **Nothing malformed and nothing lost.** A call that succeeds has appended the projects as they
are declared, with no malformed list among them, if and only if the entry `projects` of each
customer is absent or a list, and no project has an id of `2 ^ 32` or more. -/
theorem carried_iff {unmarshal : String → Except String (List (ProtoMap String Value))}
    {content : String} {y : List (ProtoMap String Value)} (hy : unmarshal content = .ok y)
    {l l' : List ProjectConfig} (h : parseCustomerList unmarshal content l = (none, l')) :
    Carried y l l' ↔ ∀ customer ∈ y, ∀ v, customer.lookup "projects" = some v →
      ∃ items, v = .list items ∧ ∀ item ∈ items, ∀ e, Declares item e → e.id < 2 ^ 32 := by
  obtain ⟨entries, haccepts, rfl⟩ := (parseCustomerList_eq_none hy).mp h
  have hforall : List.Forall₂ Carries (toConfigs entries) (declaredProjects entries) ↔
      ∀ p ∈ declaredProjects entries, Carries (toConfig p.1 p.2) p := by
    rw [toConfigs_eq_map, List.forall₂_map_left_iff, List.forall₂_same]
  constructor
  · rintro ⟨hwellFormed, new, entries', hnew, hreads, hcarries⟩ customer hcustomer v hv
    obtain rfl := List.append_cancel_left hnew
    obtain rfl := List.right_unique_forall₂' rightUnique_reads haccepts.reads hreads
    obtain ⟨items, rfl, -⟩ := hwellFormed customer hcustomer v hv
    refine ⟨items, rfl, fun item hitem e he => ?_⟩
    obtain ⟨c, hc, hcustomer⟩ := exists_mem_right hreads hcustomer
    obtain ⟨e', he', hdeclares⟩ := exists_mem_right (hcustomer.items hv) hitem
    obtain rfl := rightUnique_declares he hdeclares
    exact (carries_toConfig_iff he.pos).mp
      (hforall.mp hcarries (c, e) (mem_declaredProjects.mpr ⟨hc, he'⟩))
  · intro hlists
    refine ⟨fun customer hcustomer v hv => ?_, _, entries, rfl, haccepts.reads,
      hforall.mpr fun p hp => ?_⟩
    · obtain ⟨items, rfl, -⟩ := hlists customer hcustomer v hv
      refine ⟨items, rfl, fun item hitem => ?_⟩
      obtain ⟨c, -, hcustomer⟩ := exists_mem_right haccepts.reads hcustomer
      obtain ⟨e, -, he⟩ := exists_mem_right (hcustomer.items hv) hitem
      exact ⟨e, he⟩
    · obtain ⟨hc, he⟩ := mem_declaredProjects.mp hp
      obtain ⟨customer, hcustomer, hreads⟩ := exists_mem_left haccepts.reads hc
      obtain ⟨item, hitem, hdeclares⟩ := exists_mem_left hreads.projects he
      refine (carries_toConfig_iff hdeclares.pos).mpr ?_
      cases hv : customer.lookup "projects" with
      | none =>
        rw [hv] at hitem
        exact absurd hitem List.not_mem_nil
      | some v =>
        rw [hv] at hitem
        obtain ⟨items, rfl, hids⟩ := hlists customer hcustomer v hv
        exact hids item hitem p.2 hdeclares

/-- A customer with an entry `projects`. -/
def customerYaml (customerName : String) (customerId : GoInt) (projects : Value) :
    ProtoMap String Value :=
  ProtoMap.ofPairs [("customer_name", .string customerName), ("customer_id", .int customerId),
    ("projects", projects)]

/-- The project `ledger`. -/
def ledgerYaml (projectId : GoInt) : Value :=
  .map [(.string "project_name", .string "ledger"), (.string "project_id", .int projectId),
    (.string "project_contact", .string "ben")]

theorem declares_ledgerYaml {projectId : GoInt} (hpos : 0 < projectId.1) :
    Declares (ledgerYaml projectId) ⟨"ledger", projectId.1, "ben"⟩ := by
  refine ⟨[("project_name", .string "ledger"), ("project_id", .int projectId),
    ("project_contact", .string "ben")], rfl, rfl, ?_, fun v hv => ?_, ⟨projectId, rfl, rfl⟩, hpos,
    rfl⟩
  · show isValidName "ledger" = true
    decide
  · cases hv

/-- A list with one customer and one project. -/
theorem carried_iff_ledger :
    Carried [customerYaml "fuchsia" ⟨20, by decide⟩ (.list [ledgerYaml ⟨10, by decide⟩])] []
      [toConfig ⟨"fuchsia", 20, []⟩ ⟨"ledger", 10, "ben"⟩] := by
  let y := [customerYaml "fuchsia" ⟨20, by decide⟩ (.list [ledgerYaml ⟨10, by decide⟩])]
  have hparsed : parseCustomerList (fun _ => .ok y) "" [] =
      (none, [toConfig ⟨"fuchsia", 20, []⟩ ⟨"ledger", 10, "ben"⟩]) := rfl
  refine (carried_iff rfl hparsed).mpr fun customer hcustomer v hv => ?_
  obtain rfl := List.mem_singleton.mp hcustomer
  obtain rfl := Option.some.inj hv
  refine ⟨_, rfl, fun item hitem e he => ?_⟩
  obtain rfl := List.mem_singleton.mp hitem
  obtain rfl := rightUnique_declares he (declares_ledgerYaml (by decide))
  decide

/-- A project that disappears. The dash is missing before the only project, so the entry is a
map and not a list. The call succeeds, and nothing is appended. -/
theorem not_carried_missingDash :
    parseCustomerList
        (fun _ => .ok [customerYaml "fuchsia" ⟨20, by decide⟩ (ledgerYaml ⟨10, by decide⟩)]) "" [] =
      (none, []) ∧
    ¬ Carried [customerYaml "fuchsia" ⟨20, by decide⟩ (ledgerYaml ⟨10, by decide⟩)] [] [] := by
  refine ⟨rfl, fun h => ?_⟩
  obtain ⟨items, hitems, -⟩ := h.wellFormed _ List.mem_cons_self _ rfl
  cases hitems

end Cobalt.ConfigParser
