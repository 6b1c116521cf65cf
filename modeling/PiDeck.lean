import PiDeck.Agents.EventStream
import PiDeck.Agents.Fleet
import PiDeck.Agents.Lines
import PiDeck.Agents.Profiles
import PiDeck.Agents.RunFinality
import PiDeck.Agents.RunStatus
import PiDeck.Agents.StreamComplete
import PiDeck.Agents.Submissions
import PiDeck.Agents.Suggestions
import PiDeck.Agents.Transcript
import PiDeck.ColdRows.Coherence
import PiDeck.ColdRows.Provider
import PiDeck.Collections.Buffer
import PiDeck.Collections.Chunks
import PiDeck.Collections.Delimiters
import PiDeck.Collections.Deliveries
import PiDeck.Collections.Departures
import PiDeck.Collections.Groups
import PiDeck.Collections.Increasing
import PiDeck.Collections.IndexMap
import PiDeck.Collections.Json
import PiDeck.Collections.Keyed
import PiDeck.Collections.Keyset
import PiDeck.Collections.Newest
import PiDeck.Collections.Results
import PiDeck.Collections.Revisions
import PiDeck.Collections.Segments
import PiDeck.Collections.Separators
import PiDeck.Collections.Shelves
import PiDeck.Collections.Stable
import PiDeck.Collections.Statements
import PiDeck.Collections.Table
import PiDeck.Collections.Trail
import PiDeck.Collections.Utf16
import PiDeck.Collections.Utf8Decoding
import PiDeck.Collections.Versions
import PiDeck.Devices.FailedCalls
import PiDeck.Devices.FailureTable
import PiDeck.Devices.Model
import PiDeck.Devices.Service
import PiDeck.Display.GlyphAtlas
import PiDeck.Display.GlyphPacking
import PiDeck.Display.InputWriter
import PiDeck.Display.Mirror
import PiDeck.Display.Scene
import PiDeck.Display.SceneRuns
import PiDeck.Executions.Lifecycle
import PiDeck.Executions.Service
import PiDeck.Executions.Store
import PiDeck.History.Archive
import PiDeck.History.Budget
import PiDeck.History.Catalog
import PiDeck.History.Codec
import PiDeck.History.Durability
import PiDeck.History.Eviction
import PiDeck.History.FailedAppends
import PiDeck.History.Finalization
import PiDeck.History.Frames
import PiDeck.History.Ingest
import PiDeck.History.Manifest
import PiDeck.History.Model
import PiDeck.History.Owner
import PiDeck.History.Paging
import PiDeck.History.Recovery
import PiDeck.History.Reopening
import PiDeck.History.Runs
import PiDeck.History.TornTail
import PiDeck.Keymap.Chords
import PiDeck.Keymap.Grammar
import PiDeck.Keymap.Spelling
import PiDeck.Links.Cutting
import PiDeck.Links.Extraction
import PiDeck.Links.Text
import PiDeck.Links.UrlPattern
import PiDeck.Links.Viewport
import PiDeck.Mux.Catalog
import PiDeck.Mux.Closing
import PiDeck.Mux.Dispatch
import PiDeck.Mux.Model
import PiDeck.Mux.Operations
import PiDeck.Mux.Positions
import PiDeck.Mux.Selection
import PiDeck.Mux.Store
import PiDeck.Mux.Versions
import PiDeck.Mux.Writes
import PiDeck.MuxStore.Convergence
import PiDeck.MuxStore.Incremental
import PiDeck.MuxStore.Listing
import PiDeck.MuxStore.Model
import PiDeck.MuxStore.Operations
import PiDeck.MuxStore.Selection
import PiDeck.MuxStore.SelectionRuns
import PiDeck.Outbound.AttachCut
import PiDeck.Outbound.Connection
import PiDeck.Outbound.Delivery
import PiDeck.Outbound.Effects
import PiDeck.Outbound.Flow
import PiDeck.Outbound.Lanes
import PiDeck.Outbound.Mailbox
import PiDeck.Panels.Adoption
import PiDeck.Panels.Closing
import PiDeck.Panels.Layout
import PiDeck.Panels.Pruning
import PiDeck.Panels.Restore
import PiDeck.Panels.RoundTrip
import PiDeck.Panels.Sanitize
import PiDeck.Panels.Stored
import PiDeck.Panels.Tiling
import PiDeck.Panels.Tree
import PiDeck.Panels.Workspace
import PiDeck.Reactor.Exit
import PiDeck.Reactor.Runtime
import PiDeck.Render.Builder
import PiDeck.Render.FullFrames
import PiDeck.Render.Presentation
import PiDeck.Server.Attach
import PiDeck.Server.EventHistory
import PiDeck.Server.EventHub
import PiDeck.Server.FailedAttach
import PiDeck.Server.Handshake
import PiDeck.Server.Principal
import PiDeck.Server.Revocation
import PiDeck.Server.Socket
import PiDeck.Servers.DeepLinks
import PiDeck.Servers.Routing
import PiDeck.Servers.Scoping
import PiDeck.Storage.BigEndian
import PiDeck.Storage.Files
import PiDeck.Storage.Program
import PiDeck.Supervisor.AgentService
import PiDeck.Supervisor.AgentSteps
import PiDeck.Supervisor.Answers
import PiDeck.Supervisor.EventBounds
import PiDeck.Supervisor.EventPayloads
import PiDeck.Supervisor.Exclusivity
import PiDeck.Supervisor.Inbox
import PiDeck.Supervisor.Lists
import PiDeck.Supervisor.Moves
import PiDeck.Supervisor.RunLifecycle
import PiDeck.Supervisor.Sequences
import PiDeck.Supervisor.Tables
import PiDeck.Supervisor.TerminalMultiplexer
import PiDeck.Supervisor.TerminalSessions
import PiDeck.Supervisor.Worktrees
import PiDeck.Supervisor.Writes
import PiDeck.Tasks.Identifiers
import PiDeck.Tasks.Listing
import PiDeck.Tasks.Model
import PiDeck.Tasks.Patches
import PiDeck.Tasks.Store
import PiDeck.Terminal.Batch
import PiDeck.Terminal.Batching
import PiDeck.Terminal.CommandWindow
import PiDeck.Terminal.Conservation
import PiDeck.Terminal.Control
import PiDeck.Terminal.ControlInvariant
import PiDeck.Terminal.Fencing
import PiDeck.Terminal.InputQueue
import PiDeck.Terminal.Owner
import PiDeck.Terminal.Readiness
import PiDeck.Terminal.Renewal
import PiDeck.Terminal.Responses
import PiDeck.Terminal.Sizes
import PiDeck.Terminal.SpentFences
import PiDeck.Terminal.Takeover
import PiDeck.Terminal.Turns
import PiDeck.Transition.Broadcast
import PiDeck.Transition.Calls
import PiDeck.Transition.Editing
import PiDeck.Transition.Machine
import PiDeck.Transition.Sharing
import PiDeck.Transport.HistoryRequests
import PiDeck.Transport.Link
import PiDeck.Transport.Positions
import PiDeck.Wire.ClientCodec
import PiDeck.Wire.Codec
import PiDeck.Wire.Frame
import PiDeck.Worker.Bookkeeping
import PiDeck.Worker.Disposal
import PiDeck.Worker.Flight
import PiDeck.Worker.Pool
import PiDeck.Worker.Recovery
import PiDeck.Worker.Scheduler
import PiDeck.Worker.Service
import PiDeck.Worker.Slot
import PiDeck.Worker.View
