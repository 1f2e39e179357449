import Tftp.Proofs.Blocks
import Tftp.Proofs.Codec
import Tftp.Proofs.StepEffect

namespace Tftp

def Block.Party.current : Block.Party → UInt16
  | sender s => s.current
  | receiver r => r.current

def Block.Party.moved (before after : Block.Party) : Nat :=
  if after.current = before.current then 0 else 1

/-- One end at work, and how many blocks it has handed out or stored. -/
structure Station where
  disk : Disk
  run : Run
  blocks : Nat

def Station.take (station : Station) (move : Move (Disk × Run)) : Station where
  disk := move.state.1
  run := move.state.2
  blocks := station.blocks + station.run.party.moved move.state.2.party

inductive Opening where
  | first
  | optionAck (fields : List OptionField)
  | listen

def Station.fresh (disk : Disk) (transfer : Transfer) (party : Block.Party) : Station where
  disk
  run := { transfer, party, stage := .waiting { repeated := none, left := 0 } }
  blocks := 0

def Opening.enter (link : Link) (disk : Disk) (run : Run) : Opening → Move (Disk × Run)
  | first =>
    let (disk, party, action) := run.party.start disk
    (Run.start link false run.transfer party action).map fun run => (disk, run)
  | optionAck fields =>
    (Run.start link false run.transfer run.party (.send (.optionAck fields))).map fun run => (disk, run)
  | listen =>
    (Run.start link false run.transfer run.party .listen).map fun run => (disk, run)

inductive Side where
  | sender
  | receiver
deriving DecidableEq

def Side.other : Side → Side
  | sender => receiver
  | receiver => sender

structure LossyTransfer.Parcel where
  goal : Side
  datagram : Datagram
  /-- How many blocks its origin had handed out or stored when it sent it. -/
  stamp : Nat

/-- A block exchange between two ends that know each other, over a network that loses, copies, delays and reorders
datagrams, with receive windows that close at any moment. -/
structure LossyTransfer where
  sender : Station
  receiver : Station
  flying : List LossyTransfer.Parcel

namespace LossyTransfer

structure Setup where
  ends : Side → Endpoint
  mode : Mode
  size : Nat
  size_pos : 0 < size
  content : Bytes
  sendingDisk : Disk
  source : Source
  delivers : source.Delivers sendingDisk content
  receivingDisk : Disk
  sink : Sink
  empty : sink.Holds receivingDisk []
  sending : Transfer
  sending_peer : sending.session.peer = .fixed (ends .receiver)
  receiving : Transfer
  receiving_peer : receiving.session.peer = .fixed (ends .sender)
  receiving_fresh : receiving.pendingError = none
  sendingOpening : Opening
  receivingOpening : Opening

namespace Setup

def wire (setup : Setup) : Bytes :=
  setup.mode.wireForm setup.content

def total (setup : Setup) : Nat :=
  Block.count setup.size setup.wire

end Setup

def station (system : LossyTransfer) : Side → Station
  | .sender => system.sender
  | .receiver => system.receiver

def ship (link : Link) (ends : Side → Endpoint) (side : Side) (stamp : Nat)
    (sent : List Transmission) : List Parcel :=
  ((link.delivered sent).filter fun x => x.destination = ends side.other).map fun x =>
    ⟨side.other, ⟨ends side, x.packet.encode⟩, stamp⟩

def accept (link : Link) (ends : Side → Endpoint) (system : LossyTransfer) (side : Side)
    (move : Move (Disk × Run)) : LossyTransfer :=
  let station := (system.station side).take move
  let flying := system.flying ++ ship link ends side station.blocks move.sent
  match side with
  | .sender => { system with sender := station, flying }
  | .receiver => { system with receiver := station, flying }

def start (link : Link) (setup : Setup) : LossyTransfer :=
  let sender := Station.fresh setup.sendingDisk setup.sending
    (.sending setup.source setup.mode setup.size)
  let receiver := Station.fresh setup.receivingDisk setup.receiving
    (.receiving setup.sink setup.mode setup.size)
  let opened := accept link setup.ends { sender, receiver, flying := [] } .sender
    (setup.sendingOpening.enter link sender.disk sender.run)
  accept link setup.ends opened .receiver
    (setup.receivingOpening.enter link receiver.disk receiver.run)

/-- What the network or the clock may do. Datagrams are told apart by their place among those on
the way, and any of them may be the next one. -/
inductive Event where
  | deliver (place : Nat)
  | lose (place : Nat)
  | copy (place : Nat)
  | expire (side : Side)

def step (link : Link) (ends : Side → Endpoint) (system : LossyTransfer) : Event → LossyTransfer
  | .deliver place =>
    match system.flying[place]? with
    | none => system
    | some parcel =>
      let station := system.station parcel.goal
      accept link ends { system with flying := system.flying.eraseIdx place } parcel.goal
        (station.run.onDatagram link false station.disk parcel.datagram)
  | .lose place => { system with flying := system.flying.eraseIdx place }
  | .copy place => { system with flying := system.flying ++ system.flying[place]?.toList }
  | .expire side =>
    let station := system.station side
    accept link ends system side
      ((station.run.onTimeout link).map fun run => (station.disk, run))

def run (link : Link) (ends : Side → Endpoint) (system : LossyTransfer) (events : List Event) : LossyTransfer :=
  events.foldl (step link ends) system

/-- The block that an end waits for: the receiver for the DATA after those it has stored, the sender
for the ACK of the last one it has handed out. -/
def due (system : LossyTransfer) : Side → Nat
  | .sender => system.sender.blocks
  | .receiver => system.receiver.blocks + 1

/-- No datagram arrives a circle of block numbers late, or later. -/
def Timely (system : LossyTransfer) : Event → Prop
  | .deliver place => ∀ parcel, system.flying[place]? = some parcel →
      system.due parcel.goal < parcel.stamp + 65536
  | _ => True

def TimelyRun (link : Link) (ends : Side → Endpoint) : LossyTransfer → List Event → Prop
  | _, [] => True
  | system, event :: events =>
    system.Timely event ∧ TimelyRun link ends (step link ends system event) events

end LossyTransfer

end Tftp
