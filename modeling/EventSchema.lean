import EventSchema.Main
import EventSchema.Schema.Equality
import EventSchema.Settings.FromJson
import EventSchema.Proofs.KeyOrder
import EventSchema.Proofs.Keyed
import EventSchema.Proofs.Preparation
import EventSchema.Proofs.Navigation
import EventSchema.Proofs.WellFormed
import EventSchema.Proofs.Merging
import EventSchema.Proofs.Degrading
import EventSchema.Proofs.Fields
import EventSchema.Proofs.Occurrences
import EventSchema.Proofs.Runs
import EventSchema.Proofs.Conflicts
import EventSchema.Proofs.SampleOrder
import EventSchema.Proofs.Provenance
import EventSchema.Proofs.Finishing
import EventSchema.Proofs.StoredTypes
import EventSchema.Proofs.Surveys
import EventSchema.Proofs.FinalType
import EventSchema.Proofs.Agreement
import EventSchema.Proofs.FieldSurvival
import EventSchema.Proofs.SampleValues
import EventSchema.Proofs.Demands
import EventSchema.Proofs.NamedPaths
import EventSchema.Proofs.Permanence
import EventSchema.Proofs.RequiredNames
import EventSchema.Proofs.DegradedTrees
import EventSchema.Proofs.Homogeneity
import EventSchema.Proofs.MixedArrays
import EventSchema.Proofs.Conformance
import EventSchema.Proofs.Representation
import EventSchema.Proofs.SoundStages
import EventSchema.Proofs.Alternatives
import EventSchema.Proofs.Blending
import EventSchema.Proofs.DeclaredNames
import EventSchema.Proofs.Gathering
import EventSchema.Proofs.SurvivingKeys
import EventSchema.Proofs.ObjectOrigins
import EventSchema.Proofs.ReachedValues
import EventSchema.Proofs.JustifiedNames
import EventSchema.Proofs.Documents
import EventSchema.Proofs.DocumentReading
import EventSchema.Proofs.RoundTrip
import EventSchema.Proofs.Leaves
import EventSchema.Proofs.Splitting
import EventSchema.Proofs.Pointers
import EventSchema.Proofs.Selections
import EventSchema.Proofs.StoredColumns
import EventSchema.Proofs.LastLeaves
import EventSchema.Proofs.LeafColumns
import EventSchema.Proofs.ColumnOrigins
import EventSchema.Proofs.Requests
import EventSchema.Proofs.RepeatedMerging
import EventSchema.Proofs.CompatibleTrees
import EventSchema.Proofs.EmptyArrays
import EventSchema.Proofs.TemporalData
import EventSchema.Proofs.FieldListing
import EventSchema.Proofs.FieldCounts
import EventSchema.Proofs.Classification
import EventSchema.Proofs.Annotating
import EventSchema.Proofs.Retyping
import EventSchema.Proofs.RollupEntries
import EventSchema.Proofs.Scanning
import EventSchema.Proofs.FormatMarks
import EventSchema.Proofs.UndatedDigits
import EventSchema.Proofs.SurroundingSpace
import EventSchema.Proofs.Digits
import EventSchema.Proofs.Patterns
import EventSchema.Proofs.Octets
import EventSchema.Proofs.Detection
import EventSchema.Proofs.CardNumbers
import EventSchema.Proofs.CheckDigits
import EventSchema.Proofs.EpochTexts
import EventSchema.Proofs.Skeletons
import EventSchema.Proofs.CommonShapes
