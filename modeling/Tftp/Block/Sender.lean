import Tftp.Block.Action
import Tftp.Block.Number
import Tftp.Stream.Cutter

namespace Tftp.Block

structure Sender where
  cutter : Cutter
  current : UInt16 := 0
  blockSize : Nat
  /-- Whether the last block handed out was a short one. -/
  awaitingFinal : Bool := false
deriving DecidableEq, Repr

namespace Sender

def nextBlock (disk : Disk) (sender : Sender) : Sender × Action :=
  match sender.cutter.next disk sender.blockSize with
  | (cutter, .ok payload) =>
    let current := sender.current + 1
    let awaitingFinal := payload.length < sender.blockSize
    ({ sender with cutter, current, awaitingFinal }, .send (.data current payload))
  | (cutter, .error fault) => ({ sender with cutter }, .fail fault)

def onAck (disk : Disk) (block : UInt16) (sender : Sender) : Sender × Action :=
  match order block sender.current with
  | .expected => if sender.awaitingFinal then (sender, .close none) else sender.nextBlock disk
  | .behind => (sender, .listen)
  | .ahead => (sender, .refuse)

def onPacket (disk : Disk) (packet : Packet) (sender : Sender) : Sender × Action :=
  match packet with
  | .ack block => sender.onAck disk block
  | .error code message => (sender, .peerError code message)
  | _ => (sender, .refuse)

end Sender

end Tftp.Block
