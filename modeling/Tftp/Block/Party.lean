import Tftp.Block.Receiver
import Tftp.Block.Sender

namespace Tftp.Block

inductive Party where
  | sender (sender : Sender)
  | receiver (receiver : Receiver)
deriving DecidableEq, Repr

namespace Party

def sending (source : Source) (mode : Mode) (blockSize : Nat) : Party :=
  sender { cutter := { source, mode }, blockSize }

def receiving (sink : Sink) (mode : Mode) (blockSize : Nat) : Party :=
  receiver { store := .ofMode sink mode, blockSize }

def blockSize : Party → Nat
  | sender s => s.blockSize
  | receiver r => r.blockSize

def setBlockSize (blockSize : Nat) : Party → Party
  | sender s => sender { s with blockSize }
  | receiver r => receiver { r with blockSize }

def onPacket (disk : Disk) (packet : Packet) : Party → Disk × Party × Action
  | sender s =>
    let (s, action) := s.onPacket disk packet
    (disk, sender s, action)
  | receiver r =>
    let (disk, r, action) := r.onPacket disk packet
    (disk, receiver r, action)

/-- Opens the exchange once the options are settled: DATA 1, or ACK 0. -/
def start (disk : Disk) : Party → Disk × Party × Action
  | sender s =>
    let (s, action) := s.onAck disk 0
    (disk, sender s, action)
  | receiver r => (disk, receiver r, .send (.ack 0))

def sink? : Party → Option Sink
  | sender _ => none
  | receiver r => some r.store.sink

end Party

end Tftp.Block
