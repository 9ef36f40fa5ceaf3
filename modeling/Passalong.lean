import Passalong.Lib.Map
import Passalong.Lib.Runs
import Passalong.Ids
import Passalong.Shelf
import Passalong.Record
import Passalong.Rules.Workspace
import Passalong.Rules.Rewrite
import Passalong.Rules.Upload
import Passalong.Engine
import Passalong.Changes
import Passalong.Steps
import Passalong.Layout
import Passalong.KeyBinding
import Passalong.Tickets
import Passalong.Cleanups
import Passalong.Repair
import Passalong.Books
import Passalong.Quota
import Passalong.Outcomes
import Passalong.Dedup
import Passalong.ContentRead
import Passalong.FsShelf
import Passalong.WellFormed
import Passalong.Holder
import Passalong.Texts
import Passalong.Reads
import Passalong.ReadOnly
import Passalong.Attribution
import Passalong.Duplicates
import Passalong.Lib.Tables
import Passalong.Ledger
import Passalong.SqliteLedger
import Passalong.Loads
import Passalong.Lib.Tree
import Passalong.Directories
import Passalong.Conformance
import Passalong.Alike
import Passalong.Repeats
import Passalong.Refusals
import Passalong.Staging
import Passalong.Usable
import Passalong.Answers
import Passalong.Lib.Windows
import Passalong.Limiter
import Passalong.Engines
import Passalong.ApiKeys
import Passalong.Control
import Passalong.KeyLife
import Passalong.KeyRows
import Passalong.Service
import Passalong.Plans
import Passalong.Resume
import Passalong.Sums
import Passalong.Lib.Calendar
import Passalong.Clock
import Passalong.Lib.Digits
import Passalong.Ranges
import Passalong.Streams
import Passalong.Migration
import Passalong.Certificates
import Passalong.Sliding
import Passalong.Addresses
import Passalong.Forwarded
import Passalong.DebugText
import Passalong.ConfigFile
import Passalong.Lib.Shell
import Passalong.Walkthrough
import Passalong.Sizes
import Passalong.Client
import Passalong.Bridge
import Passalong.Lib.Cuts
import Passalong.Scripts
import Passalong.Notes
import Passalong.Crashes
import Passalong.Listing
import Passalong.Lib.Calls
import Passalong.Trait
import Passalong.Served
import Passalong.Queries
import Passalong.Stack
import Passalong.Holdings
import Passalong.Removals
import Passalong.Isolation
import Passalong.AuditTrail
import Passalong.Admission
