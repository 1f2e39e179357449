import Tftp.Block.Action
import Tftp.Block.Number
import Tftp.Stream.Store

namespace Tftp.Block

structure Receiver where
  store : Store
  current : UInt16 := 0
  blockSize : Nat
deriving DecidableEq, Repr

namespace Receiver

/-- Takes in the block that is due. A short one is the last, and nothing is acknowledged that did
not reach the sink. -/
def accept (disk : Disk) (payload : Bytes) (receiver : Receiver) : Disk × Receiver × Action :=
  if receiver.blockSize < payload.length then (disk, receiver, .refuse)
  else
    match receiver.store.write disk payload with
    | (disk, store, .error fault) => (disk, { receiver with store }, .fail fault)
    | (disk, store, .ok ()) =>
      let current := receiver.current + 1
      let receiver := { receiver with store, current }
      if payload.length < receiver.blockSize then
        match store.finish disk with
        | (disk, store, .error fault) => (disk, { receiver with store }, .fail fault)
        | (disk, store, .ok ()) => (disk, { receiver with store }, .terminate (.ack current))
      else (disk, receiver, .send (.ack current))

def onData (disk : Disk) (block : UInt16) (payload : Bytes) (receiver : Receiver) :
    Disk × Receiver × Action :=
  match order block (receiver.current + 1) with
  | .expected => receiver.accept disk payload
  | .behind => (disk, receiver, .send (.ack receiver.current))
  | .ahead => (disk, receiver, .refuse)

def onPacket (disk : Disk) (packet : Packet) (receiver : Receiver) : Disk × Receiver × Action :=
  match packet with
  | .data block payload => receiver.onData disk block payload
  | .error code message => (disk, receiver, .peerError code message)
  | _ => (disk, receiver, .refuse)

end Receiver

end Tftp.Block
