import Tftp.Block.Party
import Tftp.Transfer.Basic

namespace Tftp

inductive Stage where
  | waiting (exchange : Exchange)
  | ended (result : Except TransferFailure Unit)

/-- A transfer and its end of the block exchange. Each event leads to at most one new exchange or to the end. -/
structure Run where
  transfer : Transfer
  party : Block.Party
  stage : Stage

namespace Stage

def finish (transfer : Transfer) : Move (Transfer × Stage) :=
  transfer.finish.map fun (transfer, result) => (transfer, ended result)

def ofProgress (transfer : Transfer) : Exchange.Progress → Move (Transfer × Stage)
  | .waiting exchange => { state := (transfer, waiting exchange) }
  | .failed failure => finish (transfer.failExchange failure)

def exchange (link : Link) (transfer : Transfer) (packet : Option Packet) :
    Move (Transfer × Stage) :=
  (transfer.exchange link packet).andThen fun (transfer, progress) => ofProgress transfer progress

/-- Does what an end of the block exchange asks for. A transfer that is to stop sends nothing more. -/
def act (link : Link) (stopped : Bool) (transfer : Transfer) (action : Block.Action) :
    Move (Transfer × Stage) :=
  if stopped then { state := ({ transfer with phase := .error }, ended (.error .cancelled)) }
  else
    match action with
    | .send packet => exchange link transfer (some packet)
    | .listen => exchange link transfer none
    | .close none => { state := ({ transfer with phase := .finished }, ended (.ok ())) }
    | .close (some reason) =>
      { state := ({ transfer with phase := .error }, ended (.error (.remote reason))) }
    | .terminate (.error code message) => finish (transfer.fail code message)
    | .terminate packet =>
      finish { transfer with finalPacket := some packet, phase := .finalAck }

def expire (link : Link) (transfer : Transfer) : Stage → Move (Transfer × Stage)
  | waiting exchange =>
    (exchange.expire link transfer.session).andThen fun progress => ofProgress transfer progress
  | ended result => { state := (transfer, ended result) }

end Stage

namespace Run

def ofStage (party : Block.Party) (next : Transfer × Stage) : Run :=
  { transfer := next.1, party, stage := next.2 }

def start (link : Link) (stopped : Bool) (transfer : Transfer) (party : Block.Party)
    (action : Block.Action) : Move Run :=
  (Stage.act link stopped transfer action).map (ofStage party)

def onTimeout (link : Link) (run : Run) : Move Run :=
  (run.stage.expire link run.transfer).map (ofStage run.party)

def onPacket (link : Link) (stopped : Bool) (disk : Disk) (packet : Packet) (run : Run) :
    Move (Disk × Run) :=
  let (disk, party, action) := run.party.onPacket disk packet
  (Stage.act link stopped run.transfer action).map fun next => (disk, ofStage party next)

/-- A datagram, handed to `handle` if it is a packet from the peer. Anything else ends the transfer. -/
def receive (disk : Disk) (datagram : Datagram)
    (handle : Disk → Packet → Run → Move (Disk × Run)) (run : Run) : Move (Disk × Run) :=
  match run.stage with
  | .ended _ => { state := (disk, run) }
  | .waiting _ =>
    let (session, result) := run.transfer.session.read datagram
    let transfer := { run.transfer with session }
    match result with
    | .ok packet => handle disk packet { run with transfer }
    | .error failure =>
      (Stage.finish (transfer.failExchange failure)).map fun next => (disk, ofStage run.party next)

def onDatagram (link : Link) (stopped : Bool) (disk : Disk) (datagram : Datagram) (run : Run) :
    Move (Disk × Run) :=
  run.receive disk datagram (onPacket link stopped)

end Run

end Tftp
