import JudoAssistant.Lib.UndoLog
import JudoAssistant.Lib.NodeIndex
import JudoAssistant.Lib.Run
import JudoAssistant.Lib.Roll
import JudoAssistant.Lib.Effect
import JudoAssistant.StoreManager.Model
import JudoAssistant.StoreManager.Replay
import JudoAssistant.StoreManager.Runs
import JudoAssistant.Network.Model
import JudoAssistant.Network.Steps
import JudoAssistant.Network.SyncAck
import JudoAssistant.Network.Frame
import JudoAssistant.Network.ExactlyOnce
import JudoAssistant.Network.Replica
import JudoAssistant.Network.InFlight
import JudoAssistant.Network.Agreement
import JudoAssistant.Network.Mirror
import JudoAssistant.Network.ClientLists
import JudoAssistant.Network.ClientSync
import JudoAssistant.Tournament.Stores
import JudoAssistant.Tournament.Rulesets
import JudoAssistant.Tournament.Tatamis
import JudoAssistant.Tournament.Basic
import JudoAssistant.Tournament.Algorithm
import JudoAssistant.Tournament.DrawSystems
import JudoAssistant.Tournament.MatchActions
import JudoAssistant.Tournament.CategoryActions
import JudoAssistant.Tournament.Actions
import JudoAssistant.Tournament.Session
import JudoAssistant.Tournament.Preferences
import JudoAssistant.Tournament.PreferenceRuns
import JudoAssistant.StoreManager.UndoStatus
import JudoAssistant.Tournament.Specs
import JudoAssistant.Tournament.Layout
import JudoAssistant.Tournament.Frames
import JudoAssistant.Tournament.Placement
import JudoAssistant.Tournament.LayoutActions
import JudoAssistant.Tournament.ErasedBlocks
import JudoAssistant.Tournament.TatamiCount
import JudoAssistant.Tournament.LayoutRuns
import JudoAssistant.Lib.Reinsert
import JudoAssistant.Tournament.Shape
import JudoAssistant.Tournament.LocationUndo
import JudoAssistant.Tournament.DrawFacts
import JudoAssistant.Tournament.Links
import JudoAssistant.Tournament.Caches
import JudoAssistant.Lib.NetChange
import JudoAssistant.Web.ChangeSets
import JudoAssistant.Web.LoadedTournament
import JudoAssistant.Web.LoadedRuns
import JudoAssistant.StoreManager.Master
import JudoAssistant.Lib.RoundRobin
import JudoAssistant.Tournament.PoolRounds
import JudoAssistant.Web.Server
import JudoAssistant.Web.WebClient
import JudoAssistant.Lib.Window
import JudoAssistant.Web.TatamiModel
import JudoAssistant.Web.TatamiRuns
import JudoAssistant.Tournament.Lasting
import JudoAssistant.Tournament.IndexRuns
import JudoAssistant.Tournament.Linked
import JudoAssistant.Tournament.Redraws
import JudoAssistant.Tournament.Membership
import JudoAssistant.Tournament.Scores
import JudoAssistant.Tournament.Clock
import JudoAssistant.Tournament.PoolRest
import JudoAssistant.Lib.Ranking
import JudoAssistant.Tournament.PoolRanking
import JudoAssistant.Tournament.CategoryCourse
import JudoAssistant.Tournament.BestOfThree
import JudoAssistant.Tournament.BestOfThreeRuns
import JudoAssistant.Tournament.UpdateTwice
import JudoAssistant.Tournament.GoldenScore
import JudoAssistant.Tournament.OsaekomiWazari
import JudoAssistant.Lib.Leximin
import JudoAssistant.Tournament.CategoryGroups
import JudoAssistant.Lib.FairMerge
import JudoAssistant.Tournament.PoolMerge
import JudoAssistant.Lib.Turns
import JudoAssistant.Tournament.MatchOrder
import JudoAssistant.Lib.Bytes
import JudoAssistant.Network.Message
import JudoAssistant.Network.Framing
import JudoAssistant.StoreManager.SaveFile
import JudoAssistant.Network.Malformed
import JudoAssistant.Web.Participant
import JudoAssistant.Lib.Avoids
import JudoAssistant.Tournament.EventEffects
import JudoAssistant.Tournament.RulesetChecks
import JudoAssistant.Tournament.MergeQueue
import JudoAssistant.Lib.Shift
import JudoAssistant.StoreManager.Backups
import JudoAssistant.Tournament.MatchCounts
import JudoAssistant.ImportHelpers.CSVReader
import JudoAssistant.ImportHelpers.PlayerTableImporter
import JudoAssistant.Web.Subscriptions
import JudoAssistant.Tournament.RulesetRuns
import JudoAssistant.Lib.Restore
import JudoAssistant.Tournament.Registers
import JudoAssistant.Tournament.Enrolment
import JudoAssistant.Tournament.CategoryChanges
import JudoAssistant.Tournament.Detours
import JudoAssistant.Tournament.Arrangements
import JudoAssistant.Tournament.Ledger
import JudoAssistant.Tournament.Sheets
import JudoAssistant.Lib.Fixtures
import JudoAssistant.Tournament.DrawRuns
import JudoAssistant.Tournament.Tallies
import JudoAssistant.Tournament.Confirmations
import JudoAssistant.Tournament.Discards
import JudoAssistant.Tournament.PoolResults
import JudoAssistant.Tournament.AssertionRuns
import JudoAssistant.Tournament.UpdateRuns
import JudoAssistant.StoreManager.SaveHistory
