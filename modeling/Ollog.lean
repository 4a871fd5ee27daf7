import Ollog.Callsign.RangeLookup
import Ollog.Callsign.Table
import Ollog.Callsign.Shared
import Ollog.Callsign.Resolver
import Ollog.Callsign.Portable
import Ollog.Hashing
import Ollog.Hashing.Injective
import Ollog.Python.Exceptions
import Ollog.Python.Calendar
import Ollog.Lib.Effects
import Ollog.Bson.Update
import Ollog.Bson.Collection
import Ollog.Bson.Database
import Ollog.Bson.Upsert
import Ollog.Bson.Bulk
import Ollog.Migration.Backfills
import Ollog.Migration.RowHashBackfill
import Ollog.Migration.Collections
import Ollog.Migration.Copies
import Ollog.Migration.Startup
import Ollog.Auth.Accounts
import Ollog.Lib.Pool
import Ollog.Lib.Tally
import Ollog.Lib.Outbox
import Ollog.Auth.LastAdmin
import Ollog.InternalLogs.Service
import Ollog.Backup
import Ollog.Backup.Failure
import Ollog.Qso.Model
import Ollog.Qso.CustomFields
import Ollog.Qso.FieldConfiguration
import Ollog.Python.Utf8
import Ollog.Adif.Parser
import Ollog.Adif.Events
import Ollog.Adif.Serializer
import Ollog.Adif.Header
import Ollog.Adif.Recovery
import Ollog.Adif.ByteLengths
import Ollog.Adif.FileRecords
import Ollog.Qso.Service
import Ollog.Qso.AdifDatetime
import Ollog.Qso.Router
import Ollog.Qso.Fields
import Ollog.Qso.Log
import Ollog.Qso.Hydration
import Ollog.Qso.Import
import Ollog.Qso.Accounting
import Ollog.Qso.ReportIndices
import Ollog.Qso.Reimport
import Ollog.Qso.Fidelity
import Ollog.Qso.ExportImport
import Ollog.Qso.Listing
import Ollog.Qso.DayFilters
import Ollog.Qso.Pagination
import Ollog.Qso.Addressing
import Ollog.Qso.Collections
import Ollog.Lib.Focus
import Ollog.Qso.Endpoints
import Ollog.Qso.Isolation
import Ollog.Udp.Server
import Ollog.Qso.RowHash
import Ollog.Qso.Timestamps
import Ollog.Qso.Tombstones
import Ollog.Qso.Responses
import Ollog.Qso.Separation
import Ollog.Lib.Bisect
import Ollog.Lib.Broadcast
import Ollog.Lib.Codes
import Ollog.Lib.Coroutine
import Ollog.Lib.DirtyCache
import Ollog.Lib.Paging
import Ollog.Lib.Substitution
import Ollog.Udp.Revocation
import Ollog.Stats.Service
import Ollog.Stats.Conservation
import Ollog.Udp.Agreement
import Ollog.Udp.OperatorCache
import Ollog.Lib.Interleaving
import Ollog.Qso.Concurrency
import Ollog.Udp.SameDocument
import Ollog.Lib.OrderedDict
import Ollog.Aclog.Parser
import Ollog.Aclog.Client
import Ollog.Aclog.Provenance
import Ollog.Aclog.Merging
import Ollog.Aclog.Reconcile
import Ollog.Aclog.Stopping
import Ollog.Aclog.OtherSlots
import Ollog.Aclog.Manager
import Ollog.Aclog.Markup
import Ollog.Aclog.Leaves
import Ollog.Aclog.Layouts
import Ollog.Aclog.Framing
import Ollog.Aclog.Identity
import Ollog.InternalLogs.Sanitizing
import Ollog.Feed.Manager
import Ollog.InternalLogs.Live
import Ollog.InternalLogs.Query
import Ollog.InternalLogs.Settings
import Ollog.Lib.Rescan
import Ollog.Aclog.Reading
import Ollog.Udp.Resending
import Ollog.Aclog.Sync
