import Xsky.Kit.Runs
import Xsky.Kit.Ring
import Xsky.Kit.Mem
import Xsky.Kit.Buf
import Xsky.Kit.Seek
import Xsky.Kit.Pick
import Xsky.Kit.Tlv
import Xsky.Kit.Text
import Xsky.Kit.Markers
import Xsky.Kit.Phases
import Xsky.Kit.Endian
import Xsky.Kit.Inet
import Xsky.Kit.Slots
import Xsky.Kit.Objects
import Xsky.Kit.Chain
import Xsky.Kit.Answers
import Xsky.Kit.History
import Xsky.Kit.Dns
import Xsky.Headers
import Xsky.Dgram.Queue
import Xsky.Dgram.Fifo
import Xsky.Dgram.Threads
import Xsky.Dgram.Reader
import Xsky.Dgram.Device
import Xsky.Dgram.Sessions
import Xsky.Dgram.Hook
import Xsky.Dgram.Configured
import Xsky.Dgram.Subnets
import Xsky.Dgram.Tap
import Xsky.Dgram.Interleaved
import Xsky.Dgram.Crossing
import Xsky.Dgram.Poll
import Xsky.Dgram.Lifecycle
import Xsky.Dgram.Whole
import Xsky.Dgram.Release
import Xsky.Dgram.Register
import Xsky.Dgram.Init
import Xsky.Dgram.Cycles
import Xsky.Sky.Route
import Xsky.Sky.Entries
import Xsky.Sky.Removal
import Xsky.Sky.Occupancy
import Xsky.Sky.Lookup
import Xsky.Sky.Inserts
import Xsky.Sky.Pages
import Xsky.Sky.Races
import Xsky.Sky.Skb
import Xsky.Sky.Toa
import Xsky.Sky.RoundTrip
import Xsky.Sky.Options
import Xsky.Sky.Walk
import Xsky.Sky.Hooks
import Xsky.Sky.Handles
import Xsky.Sky.Unload
import Xsky.Sky.Flows
import Xsky.Sky.RecentSyn
import Xsky.Sky.Isolation
import Xsky.Sky.Tunnel
import Xsky.Sky.Stack
import Xsky.Sky.Checksums
import Xsky.Sky.Checked
import Xsky.Sky.Payload
import Xsky.Server.Dispatch
import Xsky.Server.Limits
import Xsky.Server.Runs
import Xsky.Server.Queries
import Xsky.Server.Answers
import Xsky.Server.Capture
import Xsky.Server.Forward
import Xsky.Apnic.Bitmap
import Xsky.Apnic.Sync
import Xsky.Apnic.Records
import Xsky.Apnic.Indices
import Xsky.Apnic.Member
import Xsky.Apnic.Chunks
import Xsky.Apnic.Safe
import Xsky.Apnic.Shutdown
import Xsky.Controller.TaskPool
import Xsky.Controller.Wakeup
import Xsky.Controller.Tasks
import Xsky.Controller.Shutdown
import Xsky.Controller.Create
import Xsky.Client.Controller
import Xsky.Client.RoundTrip
import Xsky.Client.Reload
import Xsky.Client.Entries
import Xsky.Client.Servers
import Xsky.Client.Protocols
import Xsky.Client.Captures
import Xsky.HexView.Cursor
import Xsky.HexView.Keys
import Xsky.HexView.Chars
import Xsky.HexView.Search
import Xsky.HexView.Metadata
import Xsky.HexView.History
import Xsky.HexView.Typing
import Xsky.HexView.Clipboard
import Xsky.HexView.Editing
import Xsky.HexView.Renderer
import Xsky.HexView.Display
