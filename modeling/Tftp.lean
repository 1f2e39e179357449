import Tftp.Text.Utf8
import Tftp.Text.Letter
import Tftp.Text.Decimal
import Tftp.Text.Blank
import Tftp.Packet.Wire
import Tftp.Packet.Line
import Tftp.Options.Policy
import Tftp.Mode.Netascii
import Tftp.Block.Number
import Tftp.Net.Link
import Tftp.Disk.Basic
import Tftp.Block.Party
import Tftp.Transfer.Failure
import Tftp.Server.Confine
import Tftp.Server.Config
import Tftp.Client.Partial
import Tftp.Arguments.Serving
import Tftp.Arguments.Fetching
import Tftp.Client.Basic
import Tftp.Server.Basic
import Tftp.Script.Conversation
import Tftp.Script.Rehearsal
import Tftp.Script.ClientPlay
import Tftp.Script.ServerPlay
import Tftp.Script.Loopback
import Tftp.Main
import Tftp.Proofs.Netascii
import Tftp.Proofs.Reading
import Tftp.Proofs.Contents
import Tftp.Proofs.Storing
import Tftp.Proofs.BlockNumber
import Tftp.Proofs.Blocks
import Tftp.Proofs.Codec
import Tftp.Proofs.Fields
import Tftp.Proofs.Offsets
import Tftp.Proofs.Grammar
import Tftp.Proofs.LossyTransfer
import Tftp.Proofs.LossyTransferSafety
import Tftp.Proofs.Negotiation
import Tftp.Proofs.Segments
import Tftp.Proofs.Frame
import Tftp.Proofs.Lockstep
import Tftp.Proofs.OrderedSystem
import Tftp.Proofs.OrderedBlocks
import Tftp.Proofs.OrderedTransfer
import Tftp.Proofs.Handshake
import Tftp.Proofs.Download
import Tftp.Proofs.OrderedOpening
import Tftp.Proofs.Upload
import Tftp.Proofs.ConnectionTask
import Tftp.Proofs.ConnectionTaskRuns
import Tftp.Proofs.ConnectionTaskSafety
import Tftp.Proofs.TaskPool
import Tftp.Proofs.Answers
import Tftp.Proofs.Openings
import Tftp.Proofs.Isolation
import Tftp.Proofs.Terms
import Tftp.Proofs.LossySystem
import Tftp.Proofs.LossySystemRuns
import Tftp.Proofs.Agreement
import Tftp.Proofs.TransferTrace
import Tftp.Proofs.TransferOutcome
import Tftp.Proofs.Retransmission
import Tftp.Proofs.FileDownload
import Tftp.Proofs.ServerLoop
import Tftp.Proofs.ServerProcess
import Tftp.Proofs.ServerProcessRuns
import Tftp.Proofs.FileSafety
import Tftp.Proofs.ServerTermination
import Tftp.Proofs.Shutdown
import Tftp.Proofs.SenderSequence
import Tftp.Proofs.ReceiverSequence
import Tftp.Proofs.Dispatch
import Tftp.Proofs.ReplyLoop
import Tftp.Proofs.Cutting
import Tftp.Proofs.Validation
import Tftp.Proofs.Offers
import Tftp.Proofs.FirstReply
import Tftp.Proofs.BelowRoot
import Tftp.Proofs.Windows
import Tftp.Proofs.Exchanges
import Tftp.Proofs.Traffic
import Tftp.Proofs.Steady
import Tftp.Proofs.Bounds
import Tftp.Proofs.Truncation
import Tftp.Proofs.LogLines
import Tftp.Proofs.DistinctNames
import Tftp.Proofs.PortRanges
import Tftp.Proofs.TrueCounts
import Tftp.Proofs.PartialPaths
