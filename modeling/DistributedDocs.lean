import DistributedDocs.GuardedRun
import DistributedDocs.Segmentation
import DistributedDocs.SlottedText
import DistributedDocs.CString
import DistributedDocs.SentenceText
import DistributedDocs.WriteSession
import DistributedDocs.SessionSlots
import DistributedDocs.SentenceLocks
import DistributedDocs.CommitOrder
import DistributedDocs.EtirwInterleaving
import DistributedDocs.Disk
import DistributedDocs.ProgramRules
import DistributedDocs.FileRecord
import DistributedDocs.StorageServer
import DistributedDocs.StorageEffects
import DistributedDocs.StorageSteps
import DistributedDocs.StorageUndisturbed
import DistributedDocs.StorageRecords
import DistributedDocs.StorageOutcomes
import DistributedDocs.StoragePaths
import DistributedDocs.StorageSessions
import DistributedDocs.StorageUndo
import DistributedDocs.StorageFaults
import DistributedDocs.StorageDirectory
import DistributedDocs.ChainedIndex
import DistributedDocs.LookupCache
import DistributedDocs.NameServer
import DistributedDocs.NameServerCommands
import DistributedDocs.NameServerLookup
import DistributedDocs.NameServerPlans
import DistributedDocs.NameServerEffects
import DistributedDocs.NameServerCoherence
import DistributedDocs.AccessRequests
import DistributedDocs.RequestMailbox
import DistributedDocs.RenamedStore
import DistributedDocs.NameServerMove
import DistributedDocs.PathTree
import DistributedDocs.NamespaceTree
import DistributedDocs.PathGrammar
import DistributedDocs.FolderTests
import DistributedDocs.RoundRobin
import DistributedDocs.Placement
import DistributedDocs.KeyedUpdates
import DistributedDocs.SubtreeDeletion
import DistributedDocs.MetadataDurability
import DistributedDocs.SavedPlaces
import DistributedDocs.LateUpdates
import DistributedDocs.ReferenceCounts
import DistributedDocs.EntryReferences
import DistributedDocs.ServerConnection
import DistributedDocs.ServerReplies
import DistributedDocs.ServerNotices
import DistributedDocs.ServerRegistry
import DistributedDocs.ClientSessions
import DistributedDocs.StateLock
import DistributedDocs.LockSections
import DistributedDocs.BoundedLines
import DistributedDocs.DelimitedText
import DistributedDocs.SpacedWords
import DistributedDocs.Numerals
import DistributedDocs.UserLists
import DistributedDocs.WireProtocol
import DistributedDocs.MessageCodec
import DistributedDocs.MessageFraming
import DistributedDocs.WordEdits
import DistributedDocs.AccessLists
import DistributedDocs.AccessRollback
import DistributedDocs.NameServerDatabase
import DistributedDocs.ServerLoads
import DistributedDocs.FileSync
import DistributedDocs.TextTransfer
import DistributedDocs.StreamedWords
import DistributedDocs.SentenceExtraction
import DistributedDocs.CopyReplacement
import DistributedDocs.Checkpoints
import DistributedDocs.FileStatistics
import DistributedDocs.LockOrder
import DistributedDocs.ServerThreads
import DistributedDocs.StorageControl
import DistributedDocs.StorageNames
import DistributedDocs.StorageOperations
import DistributedDocs.StorageUsers
import DistributedDocs.MetadataSidecar
import DistributedDocs.StorageStartup
import DistributedDocs.RestorableRecords
import DistributedDocs.StorageRestart
import DistributedDocs.FileServers
import DistributedDocs.FileAgreement
import DistributedDocs.RegistryAgreement
import DistributedDocs.Radix64
import DistributedDocs.Base64
import DistributedDocs.CacheRecency
import DistributedDocs.CacheCalls
import DistributedDocs.NameServerListings
import DistributedDocs.RegistryFields
import DistributedDocs.RegistryRestart
import DistributedDocs.ListedRequests
import DistributedDocs.LockstepRules
import DistributedDocs.RegistryTwins
import DistributedDocs.TwinCommands
import DistributedDocs.StorageRequests
import DistributedDocs.StorageLeftovers
import DistributedDocs.CommandOrder
import DistributedDocs.VersionedStore
import DistributedDocs.StoredDocuments
import DistributedDocs.DocumentCommands
import DistributedDocs.DocumentRuns
import DistributedDocs.FileAnnouncement
import DistributedDocs.Registration
import DistributedDocs.RegistrationRuns
import DistributedDocs.DocumentWriters
import DistributedDocs.OutcomeRules
import DistributedDocs.NameServerReplies
import DistributedDocs.ListingReplies
import DistributedDocs.StorageAnswers
import DistributedDocs.ClientReaders
import DistributedDocs.ClientCommands
import DistributedDocs.ClientRequests
import DistributedDocs.ClientDialogues
