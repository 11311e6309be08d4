import Cobalt.Algorithms.BasicRappor
import Cobalt.Algorithms.CountMin
import Cobalt.Algorithms.HistogramEncoder
import Cobalt.Algorithms.HistogramSums
import Cobalt.Algorithms.IntegerEncoder
import Cobalt.Algorithms.IntegerSum
import Cobalt.Algorithms.NoiseFreeRappor
import Cobalt.Algorithms.RandomBits
import Cobalt.Algorithms.RandomizedResponse
import Cobalt.Algorithms.RapporEstimates
import Cobalt.ConfigChangeValidator.CompareRegistries
import Cobalt.ConfigParser.ConfigReader
import Cobalt.ConfigParser.DeclaredProjects
import Cobalt.ConfigParser.Filter
import Cobalt.ConfigParser.HideOnClient
import Cobalt.ConfigParser.MergeConfigs
import Cobalt.ConfigParser.MergeOrder
import Cobalt.ConfigParser.ProjectList
import Cobalt.ConfigValidator.MetricDefinitions
import Cobalt.ConfigValidator.ReportDefinitions
import Cobalt.Lib.BreakLoop
import Cobalt.Lib.Checks
import Cobalt.Lib.Directory
import Cobalt.Lib.Disk
import Cobalt.Lib.FiniteLaw
import Cobalt.Lib.Fold1
import Cobalt.Lib.Gregorian
import Cobalt.Lib.Loop
import Cobalt.Lib.MachineInt
import Cobalt.Lib.MapIndex
import Cobalt.Lib.MapView
import Cobalt.Lib.Prog
import Cobalt.Lib.ProtoMap
import Cobalt.Lib.Run
import Cobalt.Lib.Separated
import Cobalt.Lib.UpdatePass
import Cobalt.Lib.Watermark
import Cobalt.LocalAggregation.AggregationWindows
import Cobalt.LocalAggregation.CollectUnobserved
import Cobalt.LocalAggregation.DeletionRace
import Cobalt.LocalAggregation.EventAggregator
import Cobalt.LocalAggregation.EventAggregatorManager
import Cobalt.LocalAggregation.EventCalls
import Cobalt.LocalAggregation.EventCodes
import Cobalt.LocalAggregation.GarbageCollect
import Cobalt.LocalAggregation.GenerateObservations
import Cobalt.LocalAggregation.GenerateSteps
import Cobalt.LocalAggregation.History
import Cobalt.LocalAggregation.Messages
import Cobalt.LocalAggregation.NumericAggregates
import Cobalt.LocalAggregation.NumericOnce
import Cobalt.LocalAggregation.Observations
import Cobalt.LocalAggregation.Participation
import Cobalt.LocalAggregation.RegisteredReports
import Cobalt.LocalAggregation.ScheduledTasks
import Cobalt.LocalAggregation.StoreMigration
import Cobalt.LocalAggregation.StoredCodes
import Cobalt.LocalAggregation.Sweeps
import Cobalt.LocalAggregation.UniqueActives
import Cobalt.LocalAggregation.UniqueActivesOnce
import Cobalt.LocalAggregation.Update
import Cobalt.LocalAggregation.WindowValues
import Cobalt.LocalAggregation11.DeclaredMetrics
import Cobalt.LocalAggregation11.LocalAggregateStorage
import Cobalt.Logger.AccurateClock
import Cobalt.Logger.Encoder
import Cobalt.Logger.EventLoggers
import Cobalt.Logger.Events
import Cobalt.Logger.MovedPayload
import Cobalt.Logger.RapporObservations
import Cobalt.Logger.UndatedEventManager
import Cobalt.Logger.UndatedQueue
import Cobalt.Logger.ValidatedReports
import Cobalt.ObservationStore.BatchAttribution
import Cobalt.ObservationStore.Capacity
import Cobalt.ObservationStore.CorruptFiles
import Cobalt.ObservationStore.DeleteData
import Cobalt.ObservationStore.FailedFinalization
import Cobalt.ObservationStore.FileConservation
import Cobalt.ObservationStore.FileObservationStore
import Cobalt.ObservationStore.FileRecords
import Cobalt.ObservationStore.FileStoreInvariant
import Cobalt.ObservationStore.FinalizedBytes
import Cobalt.ObservationStore.MemoryConservation
import Cobalt.ObservationStore.MemoryObservationStore
import Cobalt.ObservationStore.SettledFiles
import Cobalt.Public.CobaltService
import Cobalt.Public.CollectionPolicy
import Cobalt.Public.ServiceChecks
import Cobalt.Registry.BucketsConfig
import Cobalt.Registry.CobaltRegistry
import Cobalt.Registry.Definitions
import Cobalt.Registry.PackedEventCodes
import Cobalt.Registry.ProjectConfigs
import Cobalt.SourceGenerator.DistinctNames
import Cobalt.SourceGenerator.Ident
import Cobalt.SourceGenerator.Reproducible
import Cobalt.SourceGenerator.SourceOutputter
import Cobalt.SourceGenerator.Spelling
import Cobalt.Uploader.ClearcutUploader
import Cobalt.Uploader.ExpeditedSend
import Cobalt.Uploader.FilePass
import Cobalt.Uploader.Idle
import Cobalt.Uploader.MemoryPass
import Cobalt.Uploader.SendAllEnvelopes
import Cobalt.Uploader.SendCallbacks
import Cobalt.Uploader.SendEnvelope
import Cobalt.Uploader.ShippingManager
import Cobalt.Uploader.Steps
import Cobalt.Uploader.UploadAttempts
import Cobalt.Uploader.UploadRate
import Cobalt.Uploader.UploadScheduler
import Cobalt.Util.CalendarIndices
import Cobalt.Util.ConsistentProtoStore
import Cobalt.Util.DatetimeUtil
import Cobalt.Util.DayIndexRoundTrip
import Cobalt.Yamlpb.YamlJson
