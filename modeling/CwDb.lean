import CwDb.Client.AnswerRecognition
import CwDb.Client.Protocol
import CwDb.Client.ScriptMode
import CwDb.Cpp.Algorithm
import CwDb.Cpp.Quoted
import CwDb.Cpp.Strings
import CwDb.Cpp.Text
import CwDb.Executor.AccessPathErrors
import CwDb.Executor.AsyncExecutor
import CwDb.Executor.CandidateRows
import CwDb.Executor.ConditionTree
import CwDb.Executor.Conditions
import CwDb.Executor.Durability
import CwDb.Executor.Engine
import CwDb.Executor.EngineRuns
import CwDb.Executor.EngineSimulation
import CwDb.Executor.EscapedText
import CwDb.Executor.EveryTable
import CwDb.Executor.IndexFileNames
import CwDb.Executor.IndexFiles
import CwDb.Executor.InsertForms
import CwDb.Executor.JsonResponse
import CwDb.Executor.Literals
import CwDb.Executor.NamedIndexes
import CwDb.Executor.OtherTables
import CwDb.Executor.QueuePositions
import CwDb.Executor.RecreatedTables
import CwDb.Executor.RequestApi
import CwDb.Executor.RequestLifeCycle
import CwDb.Executor.RequestTypes
import CwDb.Executor.ResponseText
import CwDb.Executor.Restart
import CwDb.Executor.Routing
import CwDb.Executor.RowChanges
import CwDb.Executor.RowNumbers
import CwDb.Executor.SelectOutput
import CwDb.Executor.SeparateTables
import CwDb.Executor.Service
import CwDb.Executor.SnapshotRetention
import CwDb.Executor.StatementAtomicity
import CwDb.Executor.StatementEffects
import CwDb.Executor.StatementFrames
import CwDb.Executor.Statements
import CwDb.Executor.SyncResponse
import CwDb.Executor.TableFrames
import CwDb.Executor.UnknownColumns
import CwDb.Executor.WhereGrouping
import CwDb.Foundation.ByteGrammar
import CwDb.Foundation.ByteReader
import CwDb.Foundation.Effect
import CwDb.Foundation.Frames
import CwDb.Foundation.Invariants
import CwDb.Foundation.Json
import CwDb.Foundation.JsonText
import CwDb.Foundation.LevelTree
import CwDb.Foundation.Linked
import CwDb.Foundation.Machine
import CwDb.Foundation.MachineOrder
import CwDb.Foundation.OrderedMap
import CwDb.Foundation.Refinement
import CwDb.Foundation.Scalar
import CwDb.Foundation.Separators
import CwDb.Foundation.Simulation
import CwDb.Foundation.UnorderedMap
import CwDb.Foundation.Walk
import CwDb.Index.BStarPlusIndex
import CwDb.Index.ChangedLeaf
import CwDb.Index.Contents
import CwDb.Index.DiskManager
import CwDb.Index.Erasure
import CwDb.Index.FileGrowth
import CwDb.Index.Fill
import CwDb.Index.FillKept
import CwDb.Index.Insertion
import CwDb.Index.InternalMerge
import CwDb.Index.InternalSplit
import CwDb.Index.Key
import CwDb.Index.LeafMerge
import CwDb.Index.LeafSiblings
import CwDb.Index.LeastCounts
import CwDb.Index.Lookup
import CwDb.Index.MapRefinement
import CwDb.Index.Node
import CwDb.Index.NodeSize
import CwDb.Index.OpenTree
import CwDb.Index.PageAccess
import CwDb.Index.PageTree
import CwDb.Index.Pages
import CwDb.Index.RangeSearch
import CwDb.Index.ReferenceMap
import CwDb.Index.RefusedKeys
import CwDb.Index.SearchDepth
import CwDb.Index.SearchEnd
import CwDb.Index.Settle
import CwDb.Index.Siblings
import CwDb.Index.SpelledTree
import CwDb.Index.Tree
import CwDb.Index.TreeShape
import CwDb.Index.Window
import CwDb.Server.Exchange
import CwDb.Server.Sessions
import CwDb.Sql.Lexer
import CwDb.Sql.Parser
import CwDb.Sql.PrintedTokens
import CwDb.Sql.Scanning
import CwDb.Sql.SkippedBytes
import CwDb.Sql.StatementGrammar
import CwDb.Sql.StatementParser
import CwDb.Sql.Syntax
import CwDb.Sql.WhereGrammar
import CwDb.Sql.WholeInput
import CwDb.Storage.BStarPlusAdapter
import CwDb.Storage.DataDirectory
import CwDb.Storage.Dbms
import CwDb.Storage.DirectorySimulation
import CwDb.Storage.Index
import CwDb.Storage.IndexObjects
import CwDb.Storage.IndexTransparency
import CwDb.Storage.InternedValue
import CwDb.Storage.LoadedTables
import CwDb.Storage.MapDirectory
import CwDb.Storage.ReopenedIndexes
import CwDb.Storage.RowAtomicity
import CwDb.Storage.SavedTables
import CwDb.Storage.Schema
import CwDb.Storage.StringPool
import CwDb.Storage.Table
import CwDb.Storage.TableFile
import CwDb.Storage.TableFormat
import CwDb.Storage.TableInvariant
import CwDb.Storage.TableOperations
import CwDb.Storage.TableRoundTrip
import CwDb.Storage.TableRuns
import CwDb.Storage.TableSimulation
import CwDb.Storage.Value
