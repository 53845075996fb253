import CustomDB.Lib.Slots
import CustomDB.Lib.BlockFile
import CustomDB.Lib.Run
import CustomDB.Lib.Script
import CustomDB.Lib.Overlay
import CustomDB.Lib.Chained
import CustomDB.Lib.Struck
import CustomDB.Lib.Linked
import CustomDB.Lib.Bytes
import CustomDB.Lib.Memory
import CustomDB.Lib.SlotArray
import CustomDB.Pager.State
import CustomDB.Pager.Ops
import CustomDB.Pager.Spec
import CustomDB.Pager.Rollback
import CustomDB.Pager.Commit
import CustomDB.Pager.Savepoint
import CustomDB.Pager.Crash
import CustomDB.Pager.WalCrash
import CustomDB.Pager.WalRead
import CustomDB.Pager.Backup
import CustomDB.Pager.HotJournal
import CustomDB.Pager.MemoryMode
import CustomDB.Pager.Freelist
import CustomDB.Pager.Touch
import CustomDB.Pager.FreelistSpec
import CustomDB.Pager.Undo
import CustomDB.Pager.Snapshots
import CustomDB.Pager.WalBytes
import CustomDB.Pager.WalTail
import CustomDB.Pager.WalFrames
import CustomDB.Pager.Checkpoint
import CustomDB.Pager.Restore
import CustomDB.Conn.System
import CustomDB.Conn.Steps
import CustomDB.Conn.Serial
import CustomDB.Conn.Locks
import CustomDB.Catalog.Save
import CustomDB.Catalog.Pages
import CustomDB.Catalog.Record
import CustomDB.Catalog.RecordSpec
import CustomDB.Catalog.Definition
import CustomDB.Catalog.DefinitionSpec
import CustomDB.Catalog.Views
import CustomDB.Lib.Bisect
import CustomDB.Lib.Connective
import CustomDB.Sql.Text
import CustomDB.Sql.Where
import CustomDB.Sql.Written
import CustomDB.Sql.Scan
import CustomDB.Sql.WhereSpec
import CustomDB.Sql.Cte
import CustomDB.Tree.Store
import CustomDB.Tree.Insert
import CustomDB.Tree.Shape
import CustomDB.Tree.Context
import CustomDB.Tree.Alloc
import CustomDB.Tree.Family
import CustomDB.Tree.Link
import CustomDB.Tree.Root
import CustomDB.Tree.Climb
import CustomDB.Tree.Pending
import CustomDB.Tree.Search
import CustomDB.Tree.Grow
import CustomDB.Tree.Reads
import CustomDB.Tree.InsertSpec
import CustomDB.Tree.Delete
import CustomDB.Tree.Spared
import CustomDB.Tree.Scan
import CustomDB.Tree.Successor
import CustomDB.Tree.Unlink
import CustomDB.Tree.SuccessorSpec
import CustomDB.Exec.Ddl
import CustomDB.Exec.Close
import CustomDB.Exec.DdlSpec
import CustomDB.Lib.Program
import CustomDB.Lib.Ranked
import CustomDB.Rows.Key
import CustomDB.Rows.KeySpec
import CustomDB.Rows.Table
import CustomDB.Rows.Insert
import CustomDB.Rows.Visible
import CustomDB.Rows.Stepped
import CustomDB.Rows.Dml
import CustomDB.Rows.Traced
import CustomDB.Rows.TableSpec
import CustomDB.Rows.Delete
import CustomDB.Rows.Restamp
import CustomDB.Sql.InsertText
import CustomDB.Rows.Inserted
import CustomDB.Rows.Indexes
import CustomDB.Sql.UpdateText
import CustomDB.Rows.Update
import CustomDB.Rows.Reap
import CustomDB.Rows.Alter
import CustomDB.Sql.Digits
import CustomDB.Rows.Copied
import CustomDB.Rows.InsertSelect
import CustomDB.Rows.Keyed
import CustomDB.Rows.Retry
import CustomDB.Rows.Upsert
import CustomDB.Lib.Ranking
import CustomDB.Lib.Compact
import CustomDB.Lib.Grouped
import CustomDB.Lib.Integral
import CustomDB.Lib.SetOps
import CustomDB.Lib.WeakOrder
import CustomDB.Select.Window
import CustomDB.Select.Entry
import CustomDB.Select.Distinct
import CustomDB.Select.Group
import CustomDB.Select.GroupSpec
import CustomDB.Select.SetOp
import CustomDB.Select.Sort
import CustomDB.Select.SortSpec
import CustomDB.Lib.Wildcard
import CustomDB.Sql.Like
import CustomDB.Sql.Token
import CustomDB.Sql.TriggerText
import CustomDB.Sql.TriggerExpand
import CustomDB.Lib.Join
import CustomDB.Select.Join
import CustomDB.Select.JoinSpec
import CustomDB.Sql.SelectText
import CustomDB.Sql.Plain
import CustomDB.Sql.PlainWhere
import CustomDB.Sql.PlainJoin
import CustomDB.Sql.PlainSelect
import CustomDB.Sql.PlainUpdate
import CustomDB.Server.Session
import CustomDB.Server.Framing
import CustomDB.Lib.JsonText
import CustomDB.Server.Request
import CustomDB.Server.RequestSpec
import CustomDB.Server.Response
import CustomDB.Server.ResponseSpec
import CustomDB.Rows.KeyBytes
import CustomDB.Lib.Items
import CustomDB.Lib.Separators
import CustomDB.Page.Key
import CustomDB.Page.Node
import CustomDB.Page.Search
import CustomDB.Page.Slotted
import CustomDB.Page.SlottedSpec
import CustomDB.Page.Split
import CustomDB.Lib.FlatJson
import CustomDB.Lib.Iteration
import CustomDB.Sql.JsonExtract
import CustomDB.Sql.Arith
import CustomDB.Select.Recursive
import CustomDB.Page.Inner
import CustomDB.Page.InnerSpec
import CustomDB.Page.Rotate
import CustomDB.Pager.Access
import CustomDB.Page.Overflow
import CustomDB.Page.OverflowSpec
import CustomDB.Lib.Doubling
import CustomDB.Lib.HeapArray
import CustomDB.Pager.Address
import CustomDB.Pager.Capacity
import CustomDB.Pager.CapacitySpec
import CustomDB.Lib.Fences
import CustomDB.Tree.Fenced
import CustomDB.Tree.Lookup
import CustomDB.Tree.Erased
import CustomDB.Tree.Rebalance
import CustomDB.Tree.Joined
import CustomDB.Tree.Deletes
import CustomDB.Sql.Joined
import CustomDB.Select.Access
import CustomDB.Select.Buffered
import CustomDB.Lib.Refcount
import CustomDB.Pager.LockNode
import CustomDB.Conn.PathMutex
import CustomDB.Page.Shown
import CustomDB.Page.Stored
