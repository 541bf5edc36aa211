import OnDemandCss.Compiler.Basic
import OnDemandCss.Compiler.Miniature
import OnDemandCss.Config.Basic
import OnDemandCss.Config.Document
import OnDemandCss.Config.Settings
import OnDemandCss.ContentHash
import OnDemandCss.ContentHash.Xxh3
import OnDemandCss.Engine.Activity
import OnDemandCss.Engine.Basic
import OnDemandCss.Engine.Build
import OnDemandCss.Engine.Description
import OnDemandCss.Engine.Error
import OnDemandCss.Engine.Initialization
import OnDemandCss.Engine.Intake
import OnDemandCss.Engine.Operation
import OnDemandCss.Engine.Output
import OnDemandCss.Engine.Scan
import OnDemandCss.Extraction.Basic
import OnDemandCss.Extraction.ClassName
import OnDemandCss.Extraction.TagName
import OnDemandCss.FileTree.Basic
import OnDemandCss.FileTree.Project
import OnDemandCss.Fingerprint
import OnDemandCss.HtmlTag
import OnDemandCss.Interchange
import OnDemandCss.KebabCase
import OnDemandCss.Layer
import OnDemandCss.LayerStore
import OnDemandCss.Registry.Basic
import OnDemandCss.Registry.Policy
import OnDemandCss.Rehearsal.Basic
import OnDemandCss.Rehearsal.Host
import OnDemandCss.Rehearsal.Script
import OnDemandCss.Source
import OnDemandCss.SourceKey
import OnDemandCss.Text.Blank
import OnDemandCss.Text.Case
import OnDemandCss.Text.CaseTable
import OnDemandCss.Text.HiddenTable
import OnDemandCss.Text.Quoted
import OnDemandCss.Text.Search
import OnDemandCss.TokenSet
import OnDemandCss.Toml.Datetime
import OnDemandCss.Toml.Document
import OnDemandCss.Toml.Number
import OnDemandCss.Toml.Table
import OnDemandCss.Toml.Text
import OnDemandCss.Toml.Value
import OnDemandCss.VariantGroup
import OnDemandCss.Proofs.Workload.Basic
import OnDemandCss.Proofs.Workload.Clearing
import OnDemandCss.Proofs.Workload.Conduct
import OnDemandCss.Proofs.Workload.Operations
import OnDemandCss.Proofs.Workload.Tracking
import OnDemandCss.Proofs.Workload.Passes
import OnDemandCss.Proofs.Workload.Obligations
import OnDemandCss.Proofs.Workload.Accounts
import OnDemandCss.Proofs.Workload.Diary
import OnDemandCss.Proofs.Workload.Performance
import OnDemandCss.Proofs.Initialization
import OnDemandCss.Proofs.LayerStore
import OnDemandCss.Proofs.Miniature
import OnDemandCss.Proofs.ClassTokens
import OnDemandCss.Proofs.CompiledCache
import OnDemandCss.Proofs.CompiledRules
import OnDemandCss.Proofs.CompleteOutput
import OnDemandCss.Proofs.RegistryLife
import OnDemandCss.Proofs.ClassBook
import OnDemandCss.Proofs.SoundCache
import OnDemandCss.Proofs.ClearedOutput
import OnDemandCss.Proofs.Forgetting
import OnDemandCss.Proofs.FencedResults
import OnDemandCss.Proofs.TokenProgress
import OnDemandCss.Proofs.NewTokens
import OnDemandCss.Proofs.Quiescence
import OnDemandCss.Proofs.CoherentTexts
import OnDemandCss.Proofs.NestedGroups
import OnDemandCss.Proofs.RepeatedExtraction
import OnDemandCss.Proofs.Sequential.Course
import OnDemandCss.Proofs.Sequential.Conduct
import OnDemandCss.Proofs.HistoryIndependence
import OnDemandCss.Proofs.Fingerprints
import OnDemandCss.Proofs.Reconfiguration
import OnDemandCss.Proofs.TagRequests
import OnDemandCss.Proofs.SubmittedText
import OnDemandCss.Proofs.LoneBuilds
import OnDemandCss.Proofs.Failures
import OnDemandCss.Proofs.Retries
import OnDemandCss.Proofs.ListedTokens
import OnDemandCss.Proofs.PreflightRules
import OnDemandCss.Proofs.SourceFeeding
import OnDemandCss.Proofs.SharedScan
import OnDemandCss.Proofs.FullClear
import OnDemandCss.Proofs.GroupPrefixes
import OnDemandCss.Proofs.PreflightBatches
import OnDemandCss.Proofs.SupersededSheets
import OnDemandCss.Proofs.SharedFlights
import OnDemandCss.Proofs.ClassGrammar
import OnDemandCss.Proofs.TagNames
import OnDemandCss.Proofs.Cuts
import OnDemandCss.Proofs.StyleSheets
import OnDemandCss.Proofs.SourceIds
import OnDemandCss.Proofs.Rebuilds
import OnDemandCss.Proofs.ExtractionReports
import OnDemandCss.Proofs.Workload.Meters
import OnDemandCss.Proofs.Workload.MeteredRuns
import OnDemandCss.Proofs.BoundedRetries
import OnDemandCss.Proofs.Termination
import OnDemandCss.Proofs.LetterCase
import OnDemandCss.Proofs.KebabCase
import OnDemandCss.Proofs.AliasTables
import OnDemandCss.Proofs.Spellings
import OnDemandCss.Proofs.Extensions
import OnDemandCss.Proofs.FilePaths
import OnDemandCss.Proofs.Discovery
import OnDemandCss.Proofs.ExpansionSteps
import OnDemandCss.Proofs.Selectors
