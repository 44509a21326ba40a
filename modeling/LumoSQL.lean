import LumoSQL.Benchmark.VersionSort
import LumoSQL.Btree.CursorFlag
import LumoSQL.Btree.CursorList
import LumoSQL.Btree.FreshTable
import LumoSQL.Btree.Registry
import LumoSQL.Btree.RowCount
import LumoSQL.Btree.SearchKeys
import LumoSQL.Index.Frame
import LumoSQL.Index.KeyBuffer
import LumoSQL.Index.KeyLimit
import LumoSQL.Index.KeySize
import LumoSQL.Index.Membership
import LumoSQL.Index.NewestFormat
import LumoSQL.Index.Rejoined
import LumoSQL.Index.SquashOrder
import LumoSQL.NotFork.Interrupted
import LumoSQL.NotFork.PatchStatus
import LumoSQL.NotFork.SedQuote
import LumoSQL.NotFork.SharedCache
import LumoSQL.NotFork.Tags
import LumoSQL.NotFork.VersionOrder
import LumoSQL.Table.MetaStore
import LumoSQL.Table.NewRowid
import LumoSQL.Table.RootOne
import LumoSQL.Vdbe.Clients
import LumoSQL.Vdbe.Scan
import LumoSQL.Btree.EndOfTable
import LumoSQL.Btree.ErrorCodes
import LumoSQL.Btree.Payload
