import LibIpc.Lib.Bytes
import LibIpc.Lib.SwapQueue
import LibIpc.Lib.HeapArray
import LibIpc.Lib.Run
import LibIpc.Lib.ArrayMap
import LibIpc.Lib.Indexed
import LibIpc.Lib.Pairing
import LibIpc.Lib.Ownership
import LibIpc.Lib.Link
import LibIpc.Lib.Descriptors
import LibIpc.Lib.Joined
import LibIpc.Lib.Checked
import LibIpc.Lib.TextBuffer
import LibIpc.Lib.Output
import LibIpc.Lib.Exchange
import LibIpc.C.Types
import LibIpc.C.Message
import LibIpc.C.Usocket
import LibIpc.C.Stream
import LibIpc.C.Context
import LibIpc.C.Network
import LibIpc.C.Receiving
import LibIpc.C.Communication
import LibIpc.C.View
import LibIpc.C.Effects
import LibIpc.C.Refinement
import LibIpc.C.Invariant
import LibIpc.C.Delivery
import LibIpc.C.Framing
import LibIpc.C.Exactness
import LibIpc.C.Teardown
import LibIpc.C.Isolation
import LibIpc.C.Switching
import LibIpc.C.Waiting
import LibIpc.C.Involution
import LibIpc.C.Joining
import LibIpc.C.Relaying
import LibIpc.C.Searching
import LibIpc.C.Connecting
import LibIpc.C.Leaks
import LibIpc.C.Removing
import LibIpc.C.Encoders
import LibIpc.C.Service
import LibIpc.C.Pongd
import LibIpc.C.Echo
import LibIpc.C.Shutdown
import LibIpc.C.Pong
import LibIpc.C.PingPong
import LibIpc.C.Answering
import LibIpc.Zig.Message
import LibIpc.Zig.Switch
import LibIpc.Zig.Context
import LibIpc.Zig.Stream
import LibIpc.Zig.Effects
import LibIpc.Zig.Delivery
import LibIpc.Zig.Isolation
import LibIpc.Zig.SwitchTable
import LibIpc.Zig.Disconnection
import LibIpc.Zig.Callbacks
import LibIpc.Zig.Sparing
import LibIpc.Zig.Relay
import LibIpc.Zig.Bindings
import LibIpc.Zig.Daemon
import LibIpc.Zig.Lookup
import LibIpc.C.Addressing
import LibIpc.Zig.Survival
import LibIpc.Zig.Alignment
import LibIpc.Zig.Network
import LibIpc.Zig.Handover
import LibIpc.Zig.Decoding
import LibIpc.Zig.Buffers
import LibIpc.Zig.Registering
import LibIpc.Zig.Arming
import LibIpc.Zig.Events
import LibIpc.Zig.Connecting
import LibIpc.Zig.Undoing
import LibIpc.Zig.Fallback
import LibIpc.Zig.Pairs
import LibIpc.Zig.Hexdump
import LibIpc.Zig.Printing
import LibIpc.C.Printing
import LibIpc.Crystal.Message
import LibIpc.Authd.User
import LibIpc.Authd.Requests
import LibIpc.Authd.Effect
import LibIpc.Authd.Authority
import LibIpc.Authd.Profile
import LibIpc.Authd.Permissions
import LibIpc.Authd.Identities
import LibIpc.Authd.Ledger
import LibIpc.Authd.Decisions
import LibIpc.Authd.Conversation
import LibIpc.Authd.Serving
import LibIpc.Zig.Pongd
