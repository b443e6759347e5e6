import OdbcDriver.Catalog.ColumnCache
import OdbcDriver.Catalog.ColumnCacheRules
import OdbcDriver.Catalog.ColumnCacheRuns
import OdbcDriver.Catalog.Columns
import OdbcDriver.Catalog.IdentifierEscape
import OdbcDriver.Catalog.IdentifierRead
import OdbcDriver.Catalog.LikePattern
import OdbcDriver.Catalog.ProcedureColumns
import OdbcDriver.Catalog.ProcedureRows
import OdbcDriver.Catalog.TablePrivileges
import OdbcDriver.Catalog.TableTypes
import OdbcDriver.Connect.AttributePlaces
import OdbcDriver.Connect.Brackets
import OdbcDriver.Connect.CommentAttribute
import OdbcDriver.Connect.CommentAttributeRules
import OdbcDriver.Connect.CommentAttributeValues
import OdbcDriver.Connect.CompletedString
import OdbcDriver.Connect.ConnectionTable
import OdbcDriver.Connect.CoordinatorRefresh
import OdbcDriver.Connect.CurrentSchema
import OdbcDriver.Connect.ExtraOptions
import OdbcDriver.Connect.HidePassword
import OdbcDriver.Connect.Libpath
import OdbcDriver.Connect.LibpqParams
import OdbcDriver.Connect.Location
import OdbcDriver.Connect.PasswordRoundTrip
import OdbcDriver.Connect.ServerList
import OdbcDriver.Connect.SettingsCommands
import OdbcDriver.DateTime.IntervalForms
import OdbcDriver.DateTime.Timestamp
import OdbcDriver.Descriptor.CopyDesc
import OdbcDriver.Descriptor.FieldStoreRules
import OdbcDriver.Diagnostics.Records
import OdbcDriver.Encoding.NextChar
import OdbcDriver.Escape.LiteralCopied
import OdbcDriver.Escape.LiteralRules
import OdbcDriver.Execute.DataAtExecution
import OdbcDriver.Execute.DataAtExecutionRules
import OdbcDriver.Execute.DataAtExecutionRuns
import OdbcDriver.Execute.RowRuns
import OdbcDriver.Fetch.Positioning
import OdbcDriver.GetData.Bytea
import OdbcDriver.GetData.NewLines
import OdbcDriver.GetData.PieceRules
import OdbcDriver.GetData.PieceRuns
import OdbcDriver.GetData.Pieces
import OdbcDriver.GetData.ScratchWrites
import OdbcDriver.Lexer.Identifiers
import OdbcDriver.Lexer.Identity
import OdbcDriver.Lexer.QuoteTable
import OdbcDriver.Lib.Blocks
import OdbcDriver.Lib.Delimited
import OdbcDriver.Lib.Doubling
import OdbcDriver.Lib.Filling
import OdbcDriver.Lib.Firsts
import OdbcDriver.Lib.Gaps
import OdbcDriver.Lib.LastMark
import OdbcDriver.Lib.NthPresent
import OdbcDriver.Lib.RefCount
import OdbcDriver.Lib.Regrow
import OdbcDriver.Lib.SkipErase
import OdbcDriver.Lib.StopSearch
import OdbcDriver.Lib.Wildcard
import OdbcDriver.Numeric.Money
import OdbcDriver.Numeric.NumericResult
import OdbcDriver.Param.BatchRefinement
import OdbcDriver.Param.ByteaLiteral
import OdbcDriver.Param.Delivery
import OdbcDriver.Param.Extent
import OdbcDriver.Param.QueryBufferRules
import OdbcDriver.Parse.TokenRuns
import OdbcDriver.Positioned.Autocommit
import OdbcDriver.Positioned.BulkBookmarks
import OdbcDriver.Positioned.RowsetFetch
import OdbcDriver.Positioned.SetPosRows
import OdbcDriver.Positioned.SetPosVisits
import OdbcDriver.Prepare.ParameterTypes
import OdbcDriver.Result.AddedUndone
import OdbcDriver.Result.CursorNames
import OdbcDriver.Result.DeletedRows
import OdbcDriver.Result.FetchRuns
import OdbcDriver.Result.LastBookmark
import OdbcDriver.Result.NthValid
import OdbcDriver.Result.NthValidAnswers
import OdbcDriver.Result.NthValidRules
import OdbcDriver.Result.PositionedCommit
import OdbcDriver.Result.RemovedRows
import OdbcDriver.Result.TupleCache
import OdbcDriver.Result.TupleCacheRules
import OdbcDriver.Result.UndoLog
import OdbcDriver.Result.UpdatedEntries
import OdbcDriver.Result.UpdatedRoom
import OdbcDriver.Result.UpdatedRows
import OdbcDriver.Result.UpdatedRules
import OdbcDriver.Server.ArrayText
import OdbcDriver.Server.CursorCommands
import OdbcDriver.Server.Regions
import OdbcDriver.Transaction.DiscardRuns
import OdbcDriver.Transaction.Discards
import OdbcDriver.Transaction.HookRuns
import OdbcDriver.Transaction.SavepointRuns
import OdbcDriver.Transaction.StatementRollback
import OdbcDriver.Types.DisplaySize
import OdbcDriver.Types.Typmod
import OdbcDriver.Unicode.ErrorCheck
import OdbcDriver.Unicode.LineFeeds
import OdbcDriver.Unicode.ScalarRoundTrip
import OdbcDriver.Unicode.WideNameCalls
import OdbcDriver.Unicode.WideNames
