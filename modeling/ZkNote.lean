import ZkNote.KeyedTable
import ZkNote.Runs
import ZkNote.Protocol
import ZkNote.ServerStore
import ZkNote.ServerHistory
import ZkNote.Adapter
import ZkNote.ServerRoutes
import ZkNote.SyncLink
import ZkNote.LinkSteps
import ZkNote.LocalStorage
import ZkNote.NoteCodec
import ZkNote.PullChanges
import ZkNote.ServerPages
import ZkNote.PullRules
import ZkNote.PullComplete
import ZkNote.StateMachine
import ZkNote.StateMachineRuns
import ZkNote.DependencyGating
import ZkNote.MutationQueue
import ZkNote.Conflict
import ZkNote.PushChanges
import ZkNote.Orchestrator
import ZkNote.Notes
import ZkNote.PushSteps
import ZkNote.CycleSteps
import ZkNote.ScriptedServer
import ZkNote.MutationRetention
import ZkNote.NoteEdits
import ZkNote.CasCounters
import ZkNote.SilentOverwrite
import ZkNote.TransientFailures
import ZkNote.LocalReplica
import ZkNote.ReplicaPhases
import ZkNote.Convergence
import ZkNote.NewestEdit
import ZkNote.EnvelopeRoundTrip
import ZkNote.CrashSafePull
import ZkNote.StableSort
import ZkNote.IndexedDb
import ZkNote.StorageBackends
import ZkNote.BrowserSync
import ZkNote.BrowserSteps
import ZkNote.BrowserOrder
import ZkNote.Tabs
import ZkNote.TabAlone
import ZkNote.Migration
import ZkNote.CrashLog
import ZkNote.VaultFiles
import ZkNote.VaultRecovery
import ZkNote.VaultReplacement
import ZkNote.SshAuth
import ZkNote.SshSessions
import ZkNote.SshBooks
import ZkNote.SshSteps
import ZkNote.SshRevocation
import ZkNote.SshFinality
import ZkNote.EnginePair
import ZkNote.EngineServer
import ZkNote.EngineAgreement
import ZkNote.NoteErrors
import ZkNote.Rfc3339
import ZkNote.Instants
import ZkNote.TimestampGrammar
import ZkNote.PlaintextNotes
import ZkNote.LcsGrid
import ZkNote.EditBuffer
import ZkNote.Diff3
import ZkNote.NoteMerge
import ZkNote.NoteSets
import ZkNote.NoteCommands
import ZkNote.AttachmentFrame
import ZkNote.WebMerge
import ZkNote.MergeParity
import ZkNote.CanonicalText
import ZkNote.ConflictCandidates
import ZkNote.LastWrite
import ZkNote.WorkerStore
import ZkNote.RequestHash
import ZkNote.ServerParity
import ZkNote.AutoLock
import ZkNote.VaultIdentity
import ZkNote.WebauthnLogin
import ZkNote.WebauthnReplay
import ZkNote.SessionKeeping
import ZkNote.DeviceRevocation
import ZkNote.LocalEdits
import ZkNote.EditCharts
import ZkNote.EditAtomicity
import ZkNote.ConflictResolution
import ZkNote.MergeBases
import ZkNote.BaseVersions
import ZkNote.Fallible
import ZkNote.TableTotals
import ZkNote.WorkerBlobs
import ZkNote.BlobBooks
import ZkNote.BlobAccounting
import ZkNote.BlobRuns
import ZkNote.BlobRecords
import ZkNote.BlobLeaks
import ZkNote.VaultStore
import ZkNote.VaultLinking
import ZkNote.LinkRuns
import ZkNote.LinkSafety
import ZkNote.ConflictReports
import ZkNote.ResolutionAtomicity
import ZkNote.NewerEdits
import ZkNote.OpenConflicts
import ZkNote.GuardedPolicy
import ZkNote.ByteFields
import ZkNote.ChunkFormat
import ZkNote.AttachmentCrypto
import ZkNote.Attachments
import ZkNote.ServerBlobs
import ZkNote.AttachmentManager
import ZkNote.AttachmentReadback
import ZkNote.Alignments
import ZkNote.LineMatching
import ZkNote.SegmentMerge
import ZkNote.MergeLaws
import ZkNote.SeparatedEdits
import ZkNote.NoteMergeLaws
import ZkNote.Paging
import ZkNote.PullProgress
import ZkNote.RisingRecords
import ZkNote.PageChanges
import ZkNote.HandlerCalls
import ZkNote.SyncReports
import ZkNote.SessionIndex
import ZkNote.UnlockedPull
import ZkNote.AccountServer
import ZkNote.TableParts
import ZkNote.Tenants
import ZkNote.AccountRows
import ZkNote.AccountIsolation
import ZkNote.ByteOffsets
import ZkNote.TimestampCuts
import ZkNote.TimestampAcceptance
import ZkNote.Base64Text
import ZkNote.ChunkParsing
import ZkNote.RequestSeparation
import ZkNote.PullPages
import ZkNote.BlobQuota
import ZkNote.FaultyCalls
import ZkNote.VaultInstall
import ZkNote.InstallReturns
import ZkNote.InstallOutcome
import ZkNote.AttachmentStreams
import ZkNote.StreamRoundTrip
import ZkNote.StrictDownload
import ZkNote.ObjectEnvelopes
import ZkNote.JsonText
import ZkNote.NoteJson
import ZkNote.NoteRoundTrip
import ZkNote.FenceSearch
import ZkNote.SealedMetadata
import ZkNote.TrimmedText
import ZkNote.TagLine
import ZkNote.EditRoundTrip
import ZkNote.RecoveryExact
import ZkNote.SearchIndex
import ZkNote.SearchExact
import ZkNote.NoteListing
import ZkNote.ListedRows
import ZkNote.CommonSubsequences
import ZkNote.LongestMatching
import ZkNote.ClockCalendar
import ZkNote.ClockOrder
import ZkNote.SshMessage
import ZkNote.LowerCase
import ZkNote.SnippetMatches
import ZkNote.PurgedNotes
import ZkNote.ServerOrigin
import ZkNote.UnicodeLowercase
import ZkNote.StdText
