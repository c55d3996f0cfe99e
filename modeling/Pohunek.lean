import Pohunek.Lib.Run
import Pohunek.Lib.Cover
import Pohunek.Lib.LineLog
import Pohunek.Lib.Interleave
import Pohunek.Lib.Keyed
import Pohunek.Lib.Block
import Pohunek.Lib.Fallible
import Pohunek.Lib.Delegation
import Pohunek.Lib.OrderedMap
import Pohunek.Lib.Stretch
import Pohunek.Output.Ring
import Pohunek.Output.Terminal
import Pohunek.Output.Hub
import Pohunek.Output.Steps
import Pohunek.Output.Fidelity
import Pohunek.Output.Exit
import Pohunek.Output.Paging
import Pohunek.Output.Accounting
import Pohunek.Notifications.Record
import Pohunek.Notifications.Store
import Pohunek.Notifications.Log
import Pohunek.Notifications.Codec
import Pohunek.Notifications.Compaction
import Pohunek.Notifications.Recovery
import Pohunek.Input.Dedup
import Pohunek.Input.Coordinator
import Pohunek.Input.Ledger
import Pohunek.Input.Atomicity
import Pohunek.Input.AtMostOnce
import Pohunek.Input.Retained
import Pohunek.Subagents.Claims
import Pohunek.Subagents.Order
import Pohunek.Subagents.Background
import Pohunek.Detect.Machine
import Pohunek.Detect.Debounce
import Pohunek.Control.Exchange
import Pohunek.Control.Integrity
import Pohunek.Package.Archive
import Pohunek.Package.Canonical
import Pohunek.Package.Json
import Pohunek.Package.Entries
import Pohunek.Package.Catalog
import Pohunek.Package.KeyChain
import Pohunek.Package.PluginIndex
import Pohunek.Package.TrustState
import Pohunek.Package.Rollback
import Pohunek.Turns.Table
import Pohunek.Turns.Life
import Pohunek.Turns.Reporting
import Pohunek.Turns.Cursor
import Pohunek.Turns.Journal
import Pohunek.Turns.Wait
import Pohunek.Turns.Chain
import Pohunek.Attention.Coordinator
import Pohunek.Attention.Entry
import Pohunek.Attention.Debounce
import Pohunek.Attention.Inbox
import Pohunek.Lib.Pointwise
import Pohunek.Metadata.Record
import Pohunek.Metadata.Store
import Pohunek.Metadata.Table
import Pohunek.Metadata.Decode
import Pohunek.Metadata.Rewrite
import Pohunek.Metadata.Mutation
import Pohunek.Metadata.Handle
import Pohunek.Metadata.Coherence
import Pohunek.Metadata.Frame
import Pohunek.Metadata.Durable
import Pohunek.Metadata.Sessions
import Pohunek.Identity.Fence
import Pohunek.Identity.Forward
import Pohunek.Identity.Settlement
import Pohunek.Lib.Chunks
import Pohunek.Stream.Frame
import Pohunek.Control.Reader
import Pohunek.Control.Writer
import Pohunek.Lib.Keyset
import Pohunek.Notifications.Listing
import Pohunek.Notifications.Chronology
import Pohunek.Worker.Seal
import Pohunek.Stream.Grants
import Pohunek.Stream.Attach
import Pohunek.Stream.Release
import Pohunek.Create.Requests
import Pohunek.Relay.Admission
import Pohunek.Relay.Closing
import Pohunek.Detect.Lag
import Pohunek.Client.BufferedOutput
import Pohunek.Client.Shortcut
