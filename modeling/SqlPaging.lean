import SqlPaging.Config.File
import SqlPaging.Cursor.Store
import SqlPaging.Cursor.Token
import SqlPaging.Dialect.Token
import SqlPaging.Error
import SqlPaging.Fetch
import SqlPaging.Order.Token
import SqlPaging.Page
import SqlPaging.Pager.Token
import SqlPaging.Postgres.Exchange
import SqlPaging.Proofs.Cursor.Columns
import SqlPaging.Proofs.Cursor.Lifetime
import SqlPaging.Proofs.Cursor.ReadBack
import SqlPaging.Proofs.Fetch.Continuation
import SqlPaging.Proofs.Fetch.Entries
import SqlPaging.Proofs.Fetch.Refinement
import SqlPaging.Proofs.Keyset.Reading
import SqlPaging.Proofs.Keyset.Times
import SqlPaging.Proofs.Page.Focus
import SqlPaging.Proofs.Page.Previous
import SqlPaging.Proofs.Page.Probe
import SqlPaging.Proofs.Param.Produced
import SqlPaging.Proofs.Postgres.Statement
import SqlPaging.Proofs.Postgres.Times
import SqlPaging.Proofs.Query.Bound
import SqlPaging.Proofs.Query.Count
import SqlPaging.Proofs.Query.Live
import SqlPaging.Proofs.Query.NotIn
import SqlPaging.Proofs.Query.Paged
import SqlPaging.Proofs.Query.Renamed
import SqlPaging.Proofs.Query.Seek
import SqlPaging.Proofs.Query.Tail
import SqlPaging.Proofs.Sql.Condition
import SqlPaging.Proofs.Sql.Expansion
import SqlPaging.Proofs.Sql.Quotation
import SqlPaging.Proofs.Sql.Scanned
import SqlPaging.Proofs.Value.Wrappers
import SqlPaging.Proofs.Window.Exact
import SqlPaging.Query
import SqlPaging.Value.Token
