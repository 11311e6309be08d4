import Cobalt.Logger.EventLoggers

/-!
# The encoder

An `Encoder` makes an observation and its metadata. The metadata names the metric, the report and
the day, and carries the fields of the system profile that the report asks for, so that a report
that does not ask for a field learns nothing about it.

The fields are copied by a `switch` in a loop over the list of the report. The branch for the realm
copies the channel.

## Main definitions

* `SystemProfile`, `SystemProfileField`, `SystemProfile.value`.
* `Encoder.makeObservation`, and the functions that fill in an observation of a single event.
* `Encoder.MinimisesProfile`: the metadata depends on the requested fields only, and holds these.

## Main results

* `Encoder.minimisesProfile_iff`: for which reports it does.
-/

namespace Cobalt.Logger

/-! ### The system profile -/

/-- `SystemProfile.OS`. -/
inductive OS
  | UNKNOWN_OS
  | FUCHSIA
  | LINUX
  | unrecognized (n : ℤ)
  deriving DecidableEq, Repr

/-- `SystemProfile.ARCH`. -/
inductive ARCH
  | UNKNOWN_ARCH
  | X86_64
  | ARM_64
  | unrecognized (n : ℤ)
  deriving DecidableEq, Repr

/-- `Experiment`. -/
structure Experiment where
  experimentId : ℤ
  armId : ℤ
  deriving DecidableEq, Repr

/-- `SystemProfile`. A field that is not set has its default. -/
structure SystemProfile where
  os : OS := .UNKNOWN_OS
  arch : ARCH := .UNKNOWN_ARCH
  boardName : String := ""
  productName : String := ""
  systemVersion : String := ""
  channel : String := ""
  realm : String := ""
  experiments : List Experiment := []
  deriving DecidableEq, Repr

/-- `SystemProfileField`. A number that names no field can be parsed. -/
inductive SystemProfileField
  | OS
  | ARCH
  | BOARD_NAME
  | PRODUCT_NAME
  | SYSTEM_VERSION
  | CHANNEL
  | REALM
  | unrecognized (n : ℤ)
  deriving DecidableEq, Repr

/-- The value of a field of the system profile. -/
inductive FieldValue
  | os (value : OS)
  | arch (value : ARCH)
  | text (value : String)
  | noField
  deriving DecidableEq, Repr

/-- The field of a profile that a report names. -/
def SystemProfile.value (profile : SystemProfile) : SystemProfileField → FieldValue
  | .OS => .os profile.os
  | .ARCH => .arch profile.arch
  | .BOARD_NAME => .text profile.boardName
  | .PRODUCT_NAME => .text profile.productName
  | .SYSTEM_VERSION => .text profile.systemVersion
  | .CHANNEL => .text profile.channel
  | .REALM => .text profile.realm
  | .unrecognized _ => .noField

/-! ### Observations -/

/-- `ReportDefinition`, with the field that only the encoder reads. -/
structure EncodedReport extends ReportDefinition where
  systemProfileField : List SystemProfileField := []
  deriving DecidableEq, Repr

/-- `MetricRef`: the project and the metric. -/
structure MetricRef where
  project : Project
  metricId : ℕ
  deriving DecidableEq, Repr

/-- `ObservationMetadata`. -/
structure ObservationMetadata extends LocalAggregation.ObservationMetadata where
  systemProfile : Option SystemProfile := none
  deriving DecidableEq, Repr

/-- The `oneof` field of `Observation2`, with the observations that are made of a single event and
are not randomised. -/
inductive Observation2Type
  | observationTypeNotSet
  | numericEvent (eventCode : ℕ) (componentNameHash : List UInt8) (value : ℤ)
  | histogram (eventCode : ℕ) (componentNameHash : List UInt8) (buckets : List HistogramBucket)
  | custom (values : List (String × CustomDimensionValue))
  | reportParticipation
  deriving DecidableEq, Repr

/-- `Observation2`. -/
structure Observation2 where
  randomId : List UInt8
  observationType : Observation2Type := .observationTypeNotSet
  deriving DecidableEq, Repr

/-- `Encoder::Result`, as the functions of the encoder return it. -/
structure EncoderResult where
  status : Status
  observation : Observation2
  metadata : ObservationMetadata
  deriving DecidableEq, Repr

/-- What an `Encoder` reads: the profile of the system where it has one, and the hash function,
which can fail. -/
structure Encoder where
  systemProfile : Option SystemProfile
  hash : String → Option (List UInt8)

namespace Encoder

/-- One iteration of the loop over the requested fields. The first field that is set creates the
profile of the metadata. -/
def copyField (profile : SystemProfile) (copied : Option SystemProfile) :
    SystemProfileField → Option SystemProfile
  | .OS => some { copied.getD {} with os := profile.os }
  | .ARCH => some { copied.getD {} with arch := profile.arch }
  | .BOARD_NAME => some { copied.getD {} with boardName := profile.boardName }
  | .PRODUCT_NAME => some { copied.getD {} with productName := profile.productName }
  | .SYSTEM_VERSION => some { copied.getD {} with systemVersion := profile.systemVersion }
  | .CHANNEL => some { copied.getD {} with channel := profile.channel }
  | .REALM => some { copied.getD {} with realm := profile.channel }
  | .unrecognized _ => copied

/-- The loop over the requested fields. -/
def copyFields (profile : SystemProfile) (fields : List SystemProfileField) :
    Option SystemProfile :=
  fields.foldl (copyField profile) none

/-- `MakeObservation`, with the random id that it draws. -/
def makeObservation (encoder : Encoder) (randomId : List UInt8) (metric : MetricRef)
    (report : EncodedReport) (dayIndex : ℕ) : EncoderResult where
  status := .kOK
  observation := { randomId := randomId }
  metadata :=
    { customerId := metric.project.customerId
      projectId := metric.project.projectId
      metricId := metric.metricId
      reportId := report.id
      dayIndex := dayIndex
      systemProfile := encoder.systemProfile.bind fun profile =>
        copyFields profile report.systemProfileField }

/-- `HashComponentNameIfNotEmpty`; a hash that fails leaves 32 zeros. -/
def hashComponentNameIfNotEmpty (encoder : Encoder) (component : String) : Bool × List UInt8 :=
  if component = "" then (true, [])
  else match encoder.hash component with
  | some digest => (true, digest)
  | none => (false, List.replicate 32 0)

/-- The status of a function that hashes the component. -/
def hashStatus (encoder : Encoder) (component : String) (status : Status) : Status :=
  if (encoder.hashComponentNameIfNotEmpty component).1 then status else .kOther

/-- `EncodeIntegerEventObservation`. -/
def encodeIntegerEventObservation (encoder : Encoder) (randomId : List UInt8) (metric : MetricRef)
    (report : EncodedReport) (dayIndex : ℕ) (eventCodes : List ℕ) (component : String) (value : ℤ) :
    EncoderResult :=
  let result := encoder.makeObservation randomId metric report dayIndex
  { result with
    status := encoder.hashStatus component result.status
    observation :=
      { result.observation with
        observationType := .numericEvent (Config.packEventCodes eventCodes)
          (encoder.hashComponentNameIfNotEmpty component).2 value } }

/-- `EncodeHistogramObservation`. The buckets are swapped into the observation. -/
def encodeHistogramObservation (encoder : Encoder) (randomId : List UInt8) (metric : MetricRef)
    (report : EncodedReport) (dayIndex : ℕ) (eventCodes : List ℕ) (component : String)
    (histogram : List HistogramBucket) : EncoderResult :=
  let result := encoder.makeObservation randomId metric report dayIndex
  { result with
    status := encoder.hashStatus component result.status
    observation :=
      { result.observation with
        observationType := .histogram (Config.packEventCodes eventCodes)
          (encoder.hashComponentNameIfNotEmpty component).2 histogram } }

/-- `EncodeCustomObservation`. -/
def encodeCustomObservation (encoder : Encoder) (randomId : List UInt8) (metric : MetricRef)
    (report : EncodedReport) (dayIndex : ℕ) (eventValues : List (String × CustomDimensionValue)) :
    EncoderResult :=
  let result := encoder.makeObservation randomId metric report dayIndex
  { result with
    observation := { result.observation with observationType := .custom eventValues } }

/-- `EncodeReportParticipationObservation`. -/
def encodeReportParticipationObservation (encoder : Encoder) (randomId : List UInt8)
    (metric : MetricRef) (report : EncodedReport) (dayIndex : ℕ) : EncoderResult :=
  let result := encoder.makeObservation randomId metric report dayIndex
  { result with
    observation := { result.observation with observationType := .reportParticipation } }

/-! ### Minimisation -/

/-- The profile of the metadata; a field that is not set is read as its default. -/
def profileOf (result : EncoderResult) : SystemProfile := result.metadata.systemProfile.getD {}

/-- System-profile minimisation of the metadata of a report. Two profiles that agree on the
requested fields give the same metadata, a requested field is the one of the profile, and no other
field is set. -/
def MinimisesProfile (encoder : Encoder) (randomId : List UInt8) (metric : MetricRef)
    (report : EncodedReport) (dayIndex : ℕ) : Prop :=
  (∀ p q : SystemProfile, (∀ field ∈ report.systemProfileField, p.value field = q.value field) →
    ({ encoder with systemProfile := some p }.makeObservation randomId metric report
        dayIndex).metadata =
      ({ encoder with systemProfile := some q }.makeObservation randomId metric report
        dayIndex).metadata) ∧
  ∀ p : SystemProfile,
    let copied := profileOf ({ encoder with systemProfile := some p }.makeObservation randomId
      metric report dayIndex)
    (∀ field ∈ report.systemProfileField, copied.value field = p.value field) ∧
      (∀ field ∉ report.systemProfileField, copied.value field = ({} : SystemProfile).value field) ∧
      copied.experiments = []

variable {profile : SystemProfile} {copied : Option SystemProfile} {field : SystemProfileField}
  {fields : List SystemProfileField}

/-- What an iteration copies into a field that it names. -/
def copiedValue (profile : SystemProfile) : SystemProfileField → FieldValue
  | .REALM => .text profile.channel
  | field => profile.value field

theorem value_copyField (field' : SystemProfileField) :
    ((copyField profile copied field).getD {}).value field' =
      if field' = field then copiedValue profile field' else (copied.getD {}).value field' := by
  split_ifs with heq
  · subst heq
    cases field' <;> rfl
  · cases field <;> cases field' <;> first | rfl | exact absurd rfl heq

theorem experiments_copyField :
    ((copyField profile copied field).getD {}).experiments = (copied.getD {}).experiments := by
  cases field <;> rfl

/-- The loop copies the requested fields and leaves the others as they are. -/
theorem value_foldl_copyField (field : SystemProfileField) :
    ((fields.foldl (copyField profile) copied).getD {}).value field =
      if field ∈ fields then copiedValue profile field else (copied.getD {}).value field := by
  induction fields generalizing copied with
  | nil => simp
  | cons first fields ih =>
    rw [List.foldl_cons, ih, value_copyField]
    by_cases hmem : field ∈ fields
    · rw [if_pos hmem, if_pos (List.mem_cons_of_mem _ hmem)]
    · simp only [List.mem_cons, hmem, or_false, if_false]

theorem experiments_foldl_copyField :
    ((fields.foldl (copyField profile) copied).getD {}).experiments =
      (copied.getD {}).experiments := by
  induction fields generalizing copied with
  | nil => rfl
  | cons first fields ih => rw [List.foldl_cons, ih, experiments_copyField]

theorem copiedValue_of_ne (h : field ≠ .REALM) :
    copiedValue profile field = profile.value field := by
  cases field <;> first | rfl | exact absurd rfl h

/-- An iteration for a field other than the realm reads that field only. -/
theorem copyField_congr {p q : SystemProfile} (h : field ≠ .REALM)
    (hagree : p.value field = q.value field) :
    copyField p copied field = copyField q copied field := by
  cases field <;> simp_all [SystemProfile.value, copyField]

theorem copyFields_congr {p q : SystemProfile} (h : .REALM ∉ fields)
    (hagree : ∀ field ∈ fields, p.value field = q.value field) :
    copyFields p fields = copyFields q fields := by
  refine List.foldl_ext _ _ _ fun copied field hfield => copyField_congr ?_ (hagree field hfield)
  rintro rfl
  exact h hfield

/-- **The profile is minimised if and only if the report does not ask for the realm.** -/
theorem minimisesProfile_iff (encoder : Encoder) (randomId : List UInt8) (metric : MetricRef)
    (report : EncodedReport) (dayIndex : ℕ) :
    encoder.MinimisesProfile randomId metric report dayIndex ↔
      .REALM ∉ report.systemProfileField := by
  refine ⟨fun h hrealm => ?_, fun h => ⟨fun p q hagree => ?_, fun p => ⟨fun field hfield => ?_,
    fun field hfield => ?_, ?_⟩⟩⟩
  · have hvalue := (h.2 { channel := "beta" }).1 .REALM hrealm
    have hcopied := @value_foldl_copyField { channel := "beta" } none report.systemProfileField
      .REALM
    rw [if_pos hrealm] at hcopied
    exact absurd (hcopied.symm.trans hvalue) (by decide)
  · simp only [makeObservation, Option.bind_some, copyFields_congr h hagree]
  · refine (value_foldl_copyField field).trans ?_
    rw [if_pos hfield, copiedValue_of_ne]
    rintro rfl
    exact h hfield
  · refine (value_foldl_copyField field).trans ?_
    rw [if_neg hfield]
    rfl
  · exact experiments_foldl_copyField

/-- A report that asks for the realm alone is told the channel. -/
theorem not_minimisesProfile_of_realm :
    ¬ (⟨none, fun _ => none⟩ : Encoder).MinimisesProfile [] ⟨⟨1, 2⟩, 3⟩
      { id := 4, reportType := .CUSTOM_RAW_DUMP, systemProfileField := [.REALM] } 5 := by
  intro h
  have hsame := h.1 { channel := "beta", realm := "dogfood" }
    { channel := "stable", realm := "dogfood" } (by decide)
  exact absurd hsame (by decide)

end Encoder

end Cobalt.Logger
