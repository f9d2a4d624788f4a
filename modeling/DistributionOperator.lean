import DistributionOperator.Desired.Admission
import DistributionOperator.Json.Pointer
import DistributionOperator.Main
import DistributionOperator.Memory.Exposition
import DistributionOperator.Proofs.AdmittedTraffic
import DistributionOperator.Proofs.AgreeingChildren
import DistributionOperator.Proofs.AmendedValues
import DistributionOperator.Proofs.AppliedDigests
import DistributionOperator.Proofs.AtomicStore
import DistributionOperator.Proofs.CarriedStatuses
import DistributionOperator.Proofs.ChildPasses
import DistributionOperator.Proofs.Codecs
import DistributionOperator.Proofs.CoherentStatus
import DistributionOperator.Proofs.ConditionReports
import DistributionOperator.Proofs.Conditions
import DistributionOperator.Proofs.Containment
import DistributionOperator.Proofs.ContainmentOrder
import DistributionOperator.Proofs.CreationRaces
import DistributionOperator.Proofs.DifferenceNames
import DistributionOperator.Proofs.Evaluation
import DistributionOperator.Proofs.FaultlessReadings
import DistributionOperator.Proofs.ForeignChildren
import DistributionOperator.Proofs.ForgottenObjects
import DistributionOperator.Proofs.FreshStatuses
import DistributionOperator.Proofs.FreshVersions
import DistributionOperator.Proofs.HealthGating
import DistributionOperator.Proofs.Histories
import DistributionOperator.Proofs.ImmutableFields
import DistributionOperator.Proofs.JsonAcceptance
import DistributionOperator.Proofs.JsonDifferences
import DistributionOperator.Proofs.JsonGrammar
import DistributionOperator.Proofs.JsonPaths
import DistributionOperator.Proofs.JsonReadings
import DistributionOperator.Proofs.JsonShapes
import DistributionOperator.Proofs.JsonTexts
import DistributionOperator.Proofs.LabelSelectors
import DistributionOperator.Proofs.LastSpec
import DistributionOperator.Proofs.LegibleStatuses
import DistributionOperator.Proofs.LoadedFlags
import DistributionOperator.Proofs.LosslessEncodings
import DistributionOperator.Proofs.LostUpdates
import DistributionOperator.Proofs.MemoryEntries
import DistributionOperator.Proofs.MergePatches
import DistributionOperator.Proofs.MergedValues
import DistributionOperator.Proofs.PassCounts
import DistributionOperator.Proofs.PassDialogues
import DistributionOperator.Proofs.PassMemory
import DistributionOperator.Proofs.PassOutcomes
import DistributionOperator.Proofs.Passes
import DistributionOperator.Proofs.PersistedStatuses
import DistributionOperator.Proofs.PhaseGauge
import DistributionOperator.Proofs.PhaseTable
import DistributionOperator.Proofs.ProviderListings
import DistributionOperator.Proofs.RecordForms
import DistributionOperator.Proofs.RefusedCalls
import DistributionOperator.Proofs.RegionPasses
import DistributionOperator.Proofs.RegionSteps
import DistributionOperator.Proofs.Regions
import DistributionOperator.Proofs.RepairedDrift
import DistributionOperator.Proofs.Resynchronization
import DistributionOperator.Proofs.RetryDelays
import DistributionOperator.Proofs.Scene
import DistributionOperator.Proofs.SeparatePasses
import DistributionOperator.Proofs.SettledValues
import DistributionOperator.Proofs.SoundCodecs
import DistributionOperator.Proofs.SpecChanges
import DistributionOperator.Proofs.SpecRecords
import DistributionOperator.Proofs.StageCourses
import DistributionOperator.Proofs.Stages
import DistributionOperator.Proofs.StagesInTurn
import DistributionOperator.Proofs.StatusCourses
import DistributionOperator.Proofs.StatusRecords
import DistributionOperator.Proofs.StatusWrites
import DistributionOperator.Proofs.Timestamps
import DistributionOperator.Proofs.TransitionTimes
import DistributionOperator.Proofs.TwinEvaluations
import DistributionOperator.Proofs.UndisturbedRuns
import DistributionOperator.Proofs.Utf8Texts
import DistributionOperator.Proofs.VersionMetadata
import DistributionOperator.Proofs.WantedChildren
import DistributionOperator.Proofs.WatchedDeeds
import DistributionOperator.Rehearsal
import DistributionOperator.Session
import DistributionOperator.Startup
import DistributionOperator.Watch.Basic
import DistributionOperator.Watch.Listening
