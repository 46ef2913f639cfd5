import RexHunter.Lib.Transition
import RexHunter.Lib.Table
import RexHunter.Lib.JsonRoundTrip
import RexHunter.Implementation.Brain
import RexHunter.Implementation.Scheduler
import RexHunter.Implementation.Viewstate
import RexHunter.Proofs.Shutdown
import RexHunter.Proofs.Replay
import RexHunter.Proofs.Jobs
import RexHunter.Proofs.LiveFeed
import RexHunter.Proofs.Spliced
import RexHunter.Proofs.View
import RexHunter.Proofs.Malformed
import RexHunter.Proofs.Spend
import RexHunter.Proofs.Overshoot
import RexHunter.Proofs.Latch
import RexHunter.Proofs.Siblings
import RexHunter.Proofs.Backstop
import RexHunter.Proofs.Grammar
import RexHunter.Proofs.Conversation
import RexHunter.Proofs.Lifecycle
import RexHunter.Proofs.Displayed
import RexHunter.Proofs.Budget
import RexHunter.Proofs.CurrentTool
import RexHunter.Proofs.Projection
import RexHunter.Proofs.Echo
import RexHunter.Implementation.Codec
import RexHunter.Proofs.Codec
import RexHunter.Implementation.Tools
import RexHunter.Proofs.Tools
import RexHunter.Implementation.Sse
import RexHunter.Proofs.Encoding
import RexHunter.Proofs.Assembly
import RexHunter.Lib.Utf8
import RexHunter.Proofs.Decisions
import RexHunter.Proofs.Fanout
import RexHunter.Proofs.Hangup
import RexHunter.Implementation.Clock
import RexHunter.Implementation.Snapshot
import RexHunter.Proofs.Timestamps
import RexHunter.Proofs.Cursor
import RexHunter.Implementation.Render
import RexHunter.Proofs.Tiles
import RexHunter.Proofs.Board
import RexHunter.Proofs.Dispatch
import RexHunter.Lib.EventStream
import RexHunter.Implementation.Frames
import RexHunter.Proofs.Framing
import RexHunter.Proofs.Pens
import RexHunter.Proofs.Interrupted
import RexHunter.Proofs.Lines
import RexHunter.Proofs.Readers
import RexHunter.Proofs.PlainFrames
import RexHunter.Implementation.Browser
import RexHunter.Proofs.Transactions
import RexHunter.Proofs.Repaint
import RexHunter.Proofs.Growth
import RexHunter.Implementation.Clicks
import RexHunter.Proofs.Buttons
import RexHunter.Proofs.Clicks
import RexHunter.Proofs.Drain
import RexHunter.Proofs.Endpoints
import RexHunter.Lib.CompactJson
