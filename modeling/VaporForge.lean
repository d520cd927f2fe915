import VaporForge.CloudCore.Sync
import VaporForge.CloudCore.Text
import VaporForge.Lib.Lineage
import VaporForge.Lib.Table
import VaporForge.Journal.Record
import VaporForge.Journal.Store
import VaporForge.Journal.Run
import VaporForge.Journal.Acknowledge
import VaporForge.Journal.Flush
import VaporForge.Journal.Schemas
import VaporForge.Local.Manifest
import VaporForge.Lib.Fallible
import VaporForge.Lib.Maps
import VaporForge.Lib.Keyed
import VaporForge.Local.Folder
import VaporForge.Local.Held
import VaporForge.Local.Operation
import VaporForge.Local.Commit
import VaporForge.Local.Device
import VaporForge.Local.Fleet
import VaporForge.Local.Gc
import VaporForge.Local.Sweep
import VaporForge.Local.ChangeNumber
import VaporForge.Local.Recorded
import VaporForge.Local.Upload
import VaporForge.Local.ReadBack
import VaporForge.Local.SyncRecord
import VaporForge.Local.SyncFolder
import VaporForge.Lib.Codec
import VaporForge.Local.SyncRecorded
import VaporForge.Local.AppState
import VaporForge.Local.Achievements
import VaporForge.Local.LastWriter
import VaporForge.Local.Playtime
import VaporForge.Lib.Assoc
import VaporForge.Rpc.Settings
import VaporForge.Rpc.Conflict
import VaporForge.Rpc.ConflictRun
import VaporForge.Rpc.ConflictDialogs
import VaporForge.Rpc.ConflictTokens
import VaporForge.Rpc.ConflictAcks
import VaporForge.Journal.PlaytimeMerge
import VaporForge.Journal.Conflicts
import VaporForge.Local.Resolve
import VaporForge.Lib.Effect
import VaporForge.Local.Session
import VaporForge.Local.SessionLaunch
import VaporForge.Local.SessionRecorded
import VaporForge.Lib.KeySet
import VaporForge.Client.StatsWorker
import VaporForge.Client.StatsReread
import VaporForge.Local.Transfers
import VaporForge.Features.RichPresence
import VaporForge.Lib.KeyValues
import VaporForge.SteamProtocol.Schema
import VaporForge.SteamProtocol.SchemaRoundTrip
import VaporForge.Lib.Records
import VaporForge.SteamProtocol.SchemaMappings
import VaporForge.Hooks.StatsMerge
import VaporForge.Hooks.StatsDenotation
import VaporForge.Hooks.StatsEntries
import VaporForge.Hooks.StatsEncodings
import VaporForge.Client.PlaytimeDownlink
import VaporForge.Client.PlaytimeOverlay
import VaporForge.Patterns.Search
import VaporForge.Lib.Frames
import VaporForge.Hooks.StatsChecksum
import VaporForge.Rpc.Batches
import VaporForge.Rpc.RemoteUpload
import VaporForge.Rpc.RemoteCredentials
import VaporForge.CloudCore.TextParts
import VaporForge.Cumulus.EventStream
import VaporForge.Lib.Interleave
import VaporForge.Patterns.Entry
import VaporForge.Patterns.Registry
import VaporForge.Patterns.Resolve
import VaporForge.Patterns.Upward
import VaporForge.Pe.Exports
import VaporForge.Patterns.Hotfix
import VaporForge.Scripting.Bindings
import VaporForge.Scripting.FileBooks
import VaporForge.Scripting.FileParse
import VaporForge.Scripting.Replay
import VaporForge.Lib.Utf8
import VaporForge.Scripting.HexKey
import VaporForge.Scripting.Paths
import VaporForge.Client.PlaytimeStream
import VaporForge.Ui.ReverseBridge
import VaporForge.Ui.ConflictReady
import VaporForge.Hooks.LaunchTokens
import VaporForge.Features.OnlinePatterns
import VaporForge.Features.OnlinePatternsForward
import VaporForge.Lib.Document
import VaporForge.Config.Template
import VaporForge.Config.TemplateLines
import VaporForge.Config.TemplateMerge
import VaporForge.Config.TemplateReport
import VaporForge.Features.LaunchOptions
import VaporForge.Rpc.Changelist
import VaporForge.Features.Toast
import VaporForge.GameBridge.Codec
import VaporForge.Memory.ProcMaps
import VaporForge.Memory.ModuleData
import VaporForge.Netpacket.StatsQueue
