import Cobalt.ConfigParser.MergeConfigs
import Cobalt.Registry.BucketsConfig
import Cobalt.SourceGenerator.Ident

/-!
# The source generator

For a registry with a single project the generator writes the ids of its metrics and reports as
constants, and an enum for each dimension of a metric, in one of four languages. Dimensions with
the same event codes and aliases share one enum.

What is written is a list of lines. A `range` over a map visits its entries in an order that differs
from one execution of the statement to another; `RangeOrders` has an order for each of them.

## Main definitions

* `Language`: the languages, with the lines that each of them writes.
* `RangeOrders`: the orders of the iterations.
* `writeIdConstants`, `writeEnum`, `writeV1Constants`: the generator.
* `generatedText`: the text that `writeV1Constants` produces.
-/

namespace Cobalt.SourceGenerator

open ConfigParser (sliceStable)

/-! ### The registry, as the generator reads it -/

/-- `MetricDimension`. A map without aliases may be `nil`, or be present and empty. -/
structure MetricDimension extends ConfigValidator.MetricDimension where
  emptyAliases : Bool := false

/-- The map of the aliases; `none` is `nil`. -/
def MetricDimension.aliases (md : MetricDimension) : Option (ProtoMap String String) :=
  if md.eventCodeAliases.entries = [] ∧ md.emptyAliases = false then none
  else some md.eventCodeAliases

/-- `ReportDefinition`. -/
structure ReportDefinition where
  reportName : String
  id : ℕ
  intBuckets : Config.IntegerBuckets := .bucketsNotSet

/-- `MetricDefinition`. -/
structure MetricDefinition where
  metricName : String
  id : ℕ
  intBuckets : Config.IntegerBuckets := .bucketsNotSet
  metricDimensions : List MetricDimension := []
  reports : List ReportDefinition := []

/-- `ProjectConfig`. -/
structure ProjectConfig where
  projectName : String
  projectId : ℕ
  metrics : List MetricDefinition := []

/-- `CustomerConfig`. -/
structure CustomerConfig where
  customerName : String
  customerId : ℕ
  projects : List ProjectConfig := []

/-- `CobaltRegistry`. -/
structure CobaltRegistry where
  customers : List CustomerConfig := []

/-! ### Languages -/

/-- The implementations of `outputLanguage`. -/
inductive Language
  | CPP
  | Dart
  | Go
  | Rust
  deriving DecidableEq, Repr

namespace Language

def getCommentPrefix : Language → String
  | CPP | Dart | Go | Rust => "//"

def supportsTypeAlias : Language → Bool
  | CPP | Go | Rust => true
  | Dart => false

end Language

/-- `writeComment`. -/
def writeComment (language : Language) (comment : String) : List String :=
  (comment.toList.splitOn '\n').map fun commentLine =>
    language.getCommentPrefix ++ " " ++ String.ofList (commentLine.dropWhile (· == ' '))

section Unicode

variable (unicode : Unicode)

/-- `enumNamespace`. -/
def enumNamespace (name : List String) : String :=
  "__" ++ toSnakeCase unicode (name ++ ["internal scope do not use"]) ++ "__"

namespace Language

def writeEnumBegin (name : List String) : Language → List String
  | CPP => ["namespace " ++ enumNamespace unicode name ++ " \x7b", "enum Enum \x7b"]
  | Dart => ["class " ++ toPascalCase unicode name ++ " \x7b"]
  | Go => ["type " ++ toPascalCase unicode name ++ " uint32", "const (",
      "_ " ++ toPascalCase unicode name ++ " = iota"]
  | Rust => ["#[derive(Clone, Copy, PartialEq, PartialOrd, Eq, Ord, Debug, Hash)]",
      "pub enum " ++ toPascalCase unicode name ++ " \x7b"]

def writeEnumEntry (value : ℕ) (name : List String) : Language → List String
  | CPP => ["  " ++ toPascalCase unicode name ++ " = " ++ toString value ++ ","]
  | Dart => ["  static const int " ++ toPascalCase unicode name ++ " = " ++ toString value ++ ";"]
  | Go => ["  " ++ toPascalCase unicode name ++ " = " ++ toString value]
  | Rust => ["  " ++ toPascalCase unicode name ++ " = " ++ toString value ++ ","]

def writeEnumAliasesBegin (name : List String) : Language → List String
  | CPP | Dart | Go => []
  | Rust => ["\x7d", "impl " ++ toPascalCase unicode name ++ " \x7b"]

def writeEnumAlias (name fromName toName : List String) : Language → List String
  | CPP => ["  " ++ toPascalCase unicode toName ++ " = " ++ toPascalCase unicode fromName ++ ","]
  | Dart => ["  static const int " ++ toPascalCase unicode toName ++ " = " ++
      toPascalCase unicode fromName ++ ";"]
  | Go => []
  | Rust => ["  #[allow(non_upper_case_globals)]",
      "  pub const " ++ toPascalCase unicode toName ++ ": " ++ toPascalCase unicode name ++ " = " ++
        toPascalCase unicode name ++ "::" ++ toPascalCase unicode fromName ++ ";"]

def writeEnumEnd (name : List String) : Language → List String
  | CPP => ["\x7d;", "\x7d  // " ++ enumNamespace unicode name,
      "using " ++ toPascalCase unicode name ++ " = " ++ enumNamespace unicode name ++ "::Enum;"]
  | Dart => ["\x7d"]
  | Go => [")"]
  | Rust => ["\x7d", "",
      "impl cobalt_client::traits::AsEventCode for " ++ toPascalCase unicode name ++ " \x7b",
      "  fn as_event_code(&self) -> u32 \x7b", "    *self as u32", "  \x7d", "\x7d"]

def writeEnumExport (enumName name : List String) : Language → List String
  | CPP =>
    let enum := toPascalCase unicode enumName
    let variant := toPascalCase unicode name
    ["const " ++ enum ++ " " ++ enum ++ "_" ++ variant ++ " = " ++ enum ++ "::" ++ variant ++ ";"]
  | Dart =>
    let enum := toPascalCase unicode enumName
    let variant := toPascalCase unicode name
    ["const int " ++ enum ++ "_" ++ variant ++ " = " ++ enum ++ "::" ++ variant ++ ";"]
  | Go | Rust => []

def writeTypeAlias (fromName toName : List String) : Language → List String
  | CPP => ["using " ++ toPascalCase unicode toName ++ " = " ++ toPascalCase unicode fromName ++
      ";"]
  | Dart => []
  | Go => ["type " ++ toPascalCase unicode toName ++ " = " ++ toPascalCase unicode fromName]
  | Rust => ["pub use " ++ toPascalCase unicode fromName ++ " as " ++
      toPascalCase unicode toName ++ ";"]

/-- The name of a constant. -/
def constName (name : List String) : Language → String
  | CPP => toCamelCase unicode ("k" :: name)
  | Dart => toCamelCase unicode name
  | Go => toPascalCase unicode name
  | Rust => toUpperSnakeCase unicode name

def writeConstUint32 (value : ℕ) (name : List String) : Language → List String
  | CPP => ["const uint32_t " ++ constName unicode name CPP ++ " = " ++ toString value ++ ";"]
  | Dart => writeComment Dart "ignore: constant_identifier_names" ++
      ["const int " ++ constName unicode name Dart ++ " = " ++ toString value ++ ";"]
  | Go => ["const " ++ constName unicode name Go ++ " uint32 = " ++ toString value ++ ";"]
  | Rust => ["pub const " ++ constName unicode name Rust ++ ": u32 = " ++ toString value ++ ";"]

def writeConstInt64 (value : ℤ) (name : List String) : Language → List String
  | CPP => ["const int64_t " ++ constName unicode name CPP ++ " = " ++ toString value ++ ";"]
  | Dart => writeComment Dart "ignore: constant_identifier_names" ++
      ["const int " ++ constName unicode name Dart ++ " = " ++ toString value ++ ";"]
  | Go => ["const " ++ constName unicode name Go ++ " int64 = " ++ toString value ++ ";"]
  | Rust => ["pub const " ++ constName unicode name Rust ++ ": i64 = " ++ toString value ++ ";"]

def writeStringConstant (value : String) (name : List String) : Language → List String
  | CPP => ["const char " ++ constName unicode name CPP ++ "[] = \"" ++ value ++ "\";"]
  | Dart => ["const String " ++ constName unicode name Dart ++ " = '" ++ value ++ "';"]
  | Go => ["const " ++ constName unicode name Go ++ " string = \"" ++ value ++ "\";"]
  | Rust => ["pub const " ++ constName unicode name Rust ++ ": &str = \"" ++ value ++ "\";"]

end Language

end Unicode

/-! ### The orders of the iterations -/

/-- The orders in which the `range` statements visit the maps: of `writeIdConstants`, for a type of
constants; of `writeV1Constants`, for a dimension of a metric; and of `writeEnum`, for an enum, and
for one of its names. -/
structure RangeOrders where
  idConstants : String → MapOrder
  eventCodes : ℕ → ℕ → MapOrder
  enumKeys : ℕ → MapOrder
  enumAliases : ℕ → ℕ → MapOrder
  enumExports : ℕ → ℕ → MapOrder

/-! ### Constants -/

/-- The order of the ids, and of the names with the same id. -/
def idLess (entries : ProtoMap String ℕ) (a b : String) : Bool :=
  let idA := (entries.lookup a).getD 0
  let idB := (entries.lookup b).getD 0
  if idA ≠ idB then idA < idB else a < b

/-- The `keys` of `writeIdConstants`. -/
def idKeys (order : MapOrder) (entries : ProtoMap String ℕ) : List String :=
  sliceStable (idLess entries) ((order.range entries).map Sigma.fst)

/-- The `keys` of `writeEnum`. -/
def enumKeys (order : MapOrder) (events : ProtoMap ℕ String) : List ℕ :=
  sliceStable (fun i j => i < j) ((order.range events).map Sigma.fst)

section Outputter

variable (unicode : Unicode) (language : Language)

/-- `writeIdConstants`. -/
def writeIdConstants (order : MapOrder) (constType : String) (entries : ProtoMap String ℕ) :
    List String :=
  if entries.entries.length = 0 then []
  else
    writeComment language (constType ++ " ID Constants") ++
      ((idKeys order entries).flatMap fun name =>
        writeComment language name ++ language.writeConstUint32 unicode
          ((entries.lookup name).getD 0) [name, constType, "id"]) ++ [""]

/-- `writeIntBuckets`. -/
def writeIntBuckets (buckets : Config.IntegerBuckets) (name : List String) : List String :=
  match buckets with
  | .bucketsNotSet => []
  | .linear linear =>
    writeComment language ("Linear bucket constants for " ++ " ".intercalate name) ++
      language.writeConstInt64 unicode linear.floor.toInt (name ++ ["int buckets", "floor"]) ++
      language.writeConstUint32 unicode linear.numBuckets.toNat
        (name ++ ["int buckets", "num buckets"]) ++
      language.writeConstUint32 unicode linear.stepSize.toNat
        (name ++ ["int buckets", "step size"]) ++ [""]
  | .exponential exponential =>
    writeComment language ("Exponential bucket constants for " ++ " ".intercalate name) ++
      language.writeConstInt64 unicode exponential.floor.toInt (name ++ ["int buckets", "floor"]) ++
      language.writeConstUint32 unicode exponential.numBuckets.toNat
        (name ++ ["int buckets", "num buckets"]) ++
      language.writeConstUint32 unicode exponential.initialStep.toNat
        (name ++ ["int buckets", "initial step"]) ++
      language.writeConstUint32 unicode exponential.stepMultiplier.toNat
        (name ++ ["int buckets", "step multiplier"]) ++ [""]

/-- `writeNames`. -/
def writeNames (customer : CustomerConfig) (project : ProjectConfig) : List String :=
  language.writeStringConstant unicode customer.customerName ["Customer Name"] ++
    language.writeConstUint32 unicode customer.customerId ["Customer Id"] ++
    language.writeStringConstant unicode project.projectName ["Project Name"] ++
    language.writeConstUint32 unicode project.projectId ["Project Id"]

/-- The loop of `writeV1Constants` over the metrics, as far as it writes. -/
def writeAllIntBuckets (metrics : List MetricDefinition) : List String :=
  metrics.flatMap fun metric =>
    if metric.metricName ≠ "" then
      writeIntBuckets unicode language metric.intBuckets [metric.metricName] ++
        metric.reports.flatMap fun report =>
          if report.reportName ≠ "" then
            writeIntBuckets unicode language report.intBuckets
              [metric.metricName, report.reportName]
          else []
    else []

end Outputter

/-- The map `metrics` of `writeV1Constants`. -/
def metricIds (metrics : List MetricDefinition) : ProtoMap String ℕ :=
  .ofPairs ((metrics.filter fun metric => metric.metricName ≠ "").map fun metric =>
    (metric.metricName, metric.id))

/-- The map `reports` of `writeV1Constants`. -/
def reportIds (metrics : List MetricDefinition) : ProtoMap String ℕ :=
  .ofPairs ((metrics.filter fun metric => metric.metricName ≠ "").flatMap fun metric =>
    (metric.reports.filter fun report => report.reportName ≠ "").map fun report =>
      (metric.metricName ++ " " ++ report.reportName, report.id))

/-! ### Enums -/

/-- `EnumName`. -/
structure EnumName where
  namePrefix : String
  suffix : String
  deriving DecidableEq, Repr

/-- `EnumEntry`. -/
structure EnumEntry where
  events : ProtoMap ℕ String
  aliases : Option (ProtoMap String String)
  names : List EnumName

/-- `reflect.DeepEqual` of two maps that are not `nil`. -/
def mapDeepEqual {K : Type} [DecidableEq K] (a b : ProtoMap K String) : Bool :=
  a.entries.length = b.entries.length ∧ ∀ e ∈ a.entries, b.lookup e.1 = some e.2

/-- `reflect.DeepEqual` of the maps of aliases. -/
def aliasesDeepEqual : Option (ProtoMap String String) → Option (ProtoMap String String) → Bool
  | none, none => true
  | some a, some b => mapDeepEqual a b
  | _, _ => false

/-- `reflect.DeepEqual` of two entries. -/
def EnumEntry.deepEqual (a b : EnumEntry) : Bool :=
  mapDeepEqual a.events b.events && aliasesDeepEqual a.aliases b.aliases && a.names = b.names

/-- The search for an enum with the same event codes and aliases, and what is done if there is
none. -/
def addEnumName (events : ProtoMap ℕ String) (aliases : Option (ProtoMap String String))
    (name : EnumName) : List EnumEntry → List EnumEntry
  | [] => [{ events := events, aliases := aliases, names := [name] }]
  | e :: enums =>
    if mapDeepEqual e.events events && aliasesDeepEqual e.aliases aliases then
      { e with names := e.names ++ [name] } :: enums
    else e :: addEnumName events aliases name enums

/-- The `varname` of a dimension. -/
def dimensionName (i : ℕ) (md : MetricDimension) : String :=
  if md.dimension ≠ "" then "Metric Dimension " ++ md.dimension
  else "Metric Dimension " ++ toString i

/-- The body of the loop of `writeV1Constants` over the dimensions of a metric. -/
def addDimension (orders : RangeOrders) (metric : MetricDefinition × ℕ) (enums : List EnumEntry)
    (dimension : MetricDimension × ℕ) : List EnumEntry :=
  let events := (orders.eventCodes metric.2 dimension.2).range dimension.1.eventCodes
  addEnumName (.ofPairs (events.map fun e => (e.1, e.2))) dimension.1.aliases
    ⟨metric.1.metricName, dimensionName dimension.2 dimension.1⟩ enums

/-- The `enums` of `writeV1Constants`. -/
def enumEntries (orders : RangeOrders) (metrics : List MetricDefinition) : List EnumEntry :=
  metrics.zipIdx.foldl (fun enums metric =>
    metric.1.metricDimensions.zipIdx.foldl (addDimension orders metric) enums) []

section Outputter

variable (unicode : Unicode) (language : Language)

/-- The `hasGlobalName` of `writeEnum`. -/
def hasGlobalName (entry : EnumEntry) (firstSuffix : String) (allEnums : List EnumEntry) : Bool :=
  language.supportsTypeAlias && (entry.names.all fun name => name.suffix = firstSuffix) &&
    allEnums.all fun enum =>
      enum.deepEqual entry || enum.names.all fun name => name.suffix ≠ firstSuffix

/-- The enum itself, with the entries of its event codes and aliases. -/
def writeEnumType (order : MapOrder) (entry : EnumEntry) (keys : List ℕ) (name : List String) :
    List String :=
  let aliases := entry.aliases.getD ∅
  language.writeEnumBegin unicode name ++
    (keys.flatMap fun id =>
      language.writeEnumEntry unicode id [(entry.events.lookup id).getD ""]) ++
    (if 0 < aliases.entries.length then
      language.writeEnumAliasesBegin unicode name ++
        (order.range aliases).flatMap fun a =>
          language.writeEnumAlias unicode name [a.1] [a.2]
    else []) ++
    language.writeEnumEnd unicode name

/-- The constants that export the entries of an enum. -/
def writeEnumExports (order : MapOrder) (entry : EnumEntry) (keys : List ℕ) (name : List String) :
    List String :=
  let aliases := entry.aliases.getD ∅
  (keys.flatMap fun id =>
    language.writeEnumExport unicode name [(entry.events.lookup id).getD ""]) ++
    if 0 < aliases.entries.length then
      (order.range aliases).flatMap fun a => language.writeEnumExport unicode name [a.2]
    else []

/-- The body of the loop of `writeEnum` over the names. -/
def writeEnumName (aliasesOrder exportsOrder : MapOrder) (entry : EnumEntry) (keys : List ℕ)
    (projectName : String) (hasGlobalName : Bool) (first : EnumName) (name : EnumName × ℕ) :
    List String :=
  let suffix := name.1.suffix
  let aliasComment := writeComment language
    ("Alias for " ++ name.1.namePrefix ++ " (" ++ suffix ++ ") which has the same event codes")
  (if name.2 = 0 ∨ language.supportsTypeAlias = false then
    let namePrefix := if hasGlobalName then projectName else name.1.namePrefix
    writeComment language ("Enum for " ++ namePrefix ++ " (" ++ suffix ++ ")") ++
      writeEnumType unicode language aliasesOrder entry keys [namePrefix, suffix] ++
      if hasGlobalName then
        aliasComment ++ language.writeTypeAlias unicode [namePrefix, suffix]
          [name.1.namePrefix, suffix]
      else []
  else
    let firstPrefix := if hasGlobalName then projectName else first.namePrefix
    aliasComment ++ language.writeTypeAlias unicode [firstPrefix, first.suffix]
      [name.1.namePrefix, suffix]) ++
  writeEnumExports unicode language exportsOrder entry keys [name.1.namePrefix, suffix] ++ [""]

/-- `writeEnum`. The enum has a position, by which the orders of its iterations are chosen. -/
def writeEnum (orders : RangeOrders) (projectName : String) (allEnums : List EnumEntry)
    (entry : EnumEntry × ℕ) : List String :=
  if entry.1.events.entries.length = 0 then []
  else match entry.1.names with
  | [] => []
  | first :: _ =>
    let keys := enumKeys (orders.enumKeys entry.2) entry.1.events
    entry.1.names.zipIdx.flatMap fun name =>
      writeEnumName unicode language (orders.enumAliases entry.2 name.2)
        (orders.enumExports entry.2 name.2) entry.1 keys projectName
        (hasGlobalName language entry.1 first.suffix allEnums) first name

/-! ### The registry -/

/-- `writeV1Constants`. There is no result where the first customer or project is missing: the
generator reads it without a check. -/
def writeV1Constants (forTesting : Bool) (orders : RangeOrders) (c : CobaltRegistry) :
    Option (Except String (List String)) := do
  let singleProjectError :=
    .error "Cobalt v1.0 output can only be used with a single project config."
  if 1 < c.customers.length then return singleProjectError
  let customer ← c.customers.head?
  if 1 < customer.projects.length then return singleProjectError
  let project ← customer.projects.head?
  let enums := enumEntries orders project.metrics
  return .ok <|
    writeNames unicode language customer project ++ [""] ++
    writeAllIntBuckets unicode language project.metrics ++
    writeIdConstants unicode language (orders.idConstants "Metric") "Metric"
      (metricIds project.metrics) ++
    (if forTesting then
      writeIdConstants unicode language (orders.idConstants "Report") "Report"
        (reportIds project.metrics)
    else []) ++
    enums.zipIdx.flatMap fun entry =>
      writeEnum unicode language orders project.projectName enums entry

/-- What the buffer has in it after the lines. -/
def linesText (lines : List String) : String :=
  .join (lines.map fun line => line ++ "\n")

/-- The text that `writeV1Constants` produces. -/
def generatedText (forTesting : Bool) (orders : RangeOrders) (c : CobaltRegistry) :
    Option (Except String String) :=
  (writeV1Constants unicode language forTesting orders c).map fun lines => lines.map linesText

end Outputter

end Cobalt.SourceGenerator
