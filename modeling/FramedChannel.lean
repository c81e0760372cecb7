import FramedChannel.Address
import FramedChannel.Backpressure
import FramedChannel.Bytes
import FramedChannel.Channel
import FramedChannel.Channel.Batch
import FramedChannel.Channel.Closing
import FramedChannel.Channel.Move
import FramedChannel.Channel.Outbox
import FramedChannel.Channel.Step
import FramedChannel.Connection
import FramedChannel.Digest.Block
import FramedChannel.Digest.Md5
import FramedChannel.Digest.Sha1
import FramedChannel.Error
import FramedChannel.Options
import FramedChannel.Options.Document
import FramedChannel.Package.CursorReader
import FramedChannel.Package.Decoder
import FramedChannel.Package.FixedSize
import FramedChannel.Package.Reassembly
import FramedChannel.Package.Terminated
import FramedChannel.Registry
import FramedChannel.Sequence
import FramedChannel.Sequence.Cursor
import FramedChannel.Testbed.Network
import FramedChannel.Testbed.Rig
import FramedChannel.Testbed.Wire
import FramedChannel.Text.Base64
import FramedChannel.Text.Blank
import FramedChannel.Text.Quoted
import FramedChannel.Text.Unprintable
import FramedChannel.Text.Utf8
import FramedChannel.WebSocket.Decoding
import FramedChannel.WebSocket.Encoding
import FramedChannel.WebSocket.Frame
import FramedChannel.WebSocket.Message
import FramedChannel.WebSocket.Monitor
import FramedChannel.WebSocket.Session
import FramedChannel.WebSocket.Upgrade
import FramedChannel.Proofs.Bytes.FirstOccurrence
import FramedChannel.Proofs.Channel.Accepted
import FramedChannel.Proofs.Channel.Creation
import FramedChannel.Proofs.Channel.Delivery
import FramedChannel.Proofs.Channel.Effect
import FramedChannel.Proofs.Channel.Ending
import FramedChannel.Proofs.Channel.Flush
import FramedChannel.Proofs.Channel.Handing
import FramedChannel.Proofs.Channel.History
import FramedChannel.Proofs.Channel.InFlight
import FramedChannel.Proofs.Channel.Intake
import FramedChannel.Proofs.Channel.Ledger
import FramedChannel.Proofs.Channel.Offers
import FramedChannel.Proofs.Channel.Reservations
import FramedChannel.Proofs.Channel.Signal
import FramedChannel.Proofs.Channel.Slots
import FramedChannel.Proofs.Channel.WriteSteps
import FramedChannel.Proofs.Package.Advancing
import FramedChannel.Proofs.Package.Bounded
import FramedChannel.Proofs.Package.CursorReads
import FramedChannel.Proofs.Package.Cuts
import FramedChannel.Proofs.Package.Final
import FramedChannel.Proofs.Package.Handed
import FramedChannel.Proofs.Package.LineRoundTrip
import FramedChannel.Proofs.Package.Plain
import FramedChannel.Proofs.Package.Run
import FramedChannel.Proofs.Package.Splitting
import FramedChannel.Proofs.Package.Terminated
import FramedChannel.Proofs.Sequence.Cursor
import FramedChannel.Proofs.Sequence.Flat
import FramedChannel.Proofs.Session.Answered
import FramedChannel.Proofs.Session.DeliveredToAskers
import FramedChannel.Proofs.Session.DeliveryBehindClose
import FramedChannel.Proofs.Session.Exchanges
import FramedChannel.Proofs.Session.Forward
import FramedChannel.Proofs.Session.Legible
import FramedChannel.Proofs.Session.NoticesFromPackages
import FramedChannel.Proofs.Session.Outbound
import FramedChannel.Proofs.Session.Pings
import FramedChannel.Proofs.Session.ReceivedFromReads
import FramedChannel.Proofs.Session.StepsAreTurns
import FramedChannel.Proofs.Session.Sweep
import FramedChannel.Proofs.Session.TurnInvariant
import FramedChannel.Proofs.Text.Lines
import FramedChannel.Proofs.Text.Utf8
import FramedChannel.Proofs.Text.Words
import FramedChannel.Proofs.WebSocket.Advancing
import FramedChannel.Proofs.WebSocket.Bounded
import FramedChannel.Proofs.WebSocket.Buffers
import FramedChannel.Proofs.WebSocket.ClosePayload
import FramedChannel.Proofs.WebSocket.ControlMessages
import FramedChannel.Proofs.WebSocket.Dialogue
import FramedChannel.Proofs.WebSocket.DraftRoundTrip
import FramedChannel.Proofs.WebSocket.Final
import FramedChannel.Proofs.WebSocket.Fragments
import FramedChannel.Proofs.WebSocket.Frames
import FramedChannel.Proofs.WebSocket.Grammar
import FramedChannel.Proofs.WebSocket.Granted
import FramedChannel.Proofs.WebSocket.Header
import FramedChannel.Proofs.WebSocket.HeaderBlock
import FramedChannel.Proofs.WebSocket.HeaderLines
import FramedChannel.Proofs.WebSocket.KeyNumber
import FramedChannel.Proofs.WebSocket.Messages
import FramedChannel.Proofs.WebSocket.Negotiation
import FramedChannel.Proofs.WebSocket.Phases
import FramedChannel.Proofs.WebSocket.Reached
import FramedChannel.Proofs.WebSocket.Reference
import FramedChannel.Proofs.WebSocket.Replies
import FramedChannel.Proofs.WebSocket.ReplyBlocks
import FramedChannel.Proofs.WebSocket.Request
import FramedChannel.Proofs.WebSocket.Resumable
import FramedChannel.Proofs.WebSocket.RoundTrip
import FramedChannel.Proofs.WebSocket.Segmentation
import FramedChannel.Proofs.WebSocket.Upgraded
import FramedChannel.Proofs.WebSocket.Verbatim
