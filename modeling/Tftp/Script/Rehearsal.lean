import Tftp.Script.Waiting

namespace Tftp.Script

structure Rehearsal where
  transfer : Transfer
  party : Block.Party
  disk : Disk := {}
  queue : List Datagram := []
  stopped : Bool := false

namespace Rehearsal

inductive Op where
  | push (number : Nat) (bytes : Bytes)
  | exchange (packet : Option Packet)
  | fail (code : ErrorCode) (message : String)
  | finish
  | abort (code : ErrorCode) (message : String)
  | setPhase (phase : Phase)
  | setOptions (options : Options)
  | shutdown
  | run (start : Option Packet)
deriving DecidableEq, Repr

inductive Result where
  | done
  | stopped
  | reply (packet : Option Packet)
  | options (options : Options) (timeout : Nat)
  | finished (result : Except TransferFailure Unit)
  /-- No result means that the run has not ended. -/
  | ran (start : Block.Action) (result : Option (Except TransferFailure Unit))

structure Report where
  result : Result
  sent : List Transmission := []
  elapsed : Nat := 0

def exchange (link : Link) (rehearsal : Rehearsal) (packet : Option Packet) :
    Rehearsal × Report :=
  let opened := rehearsal.transfer.exchange link packet
  let (transfer, progress) := opened.state
  let wait := await link transfer.session rehearsal.queue ⟨progress, opened.sent⟩
  let transfer := { transfer with session := wait.session }
  let (transfer, reply) := match wait.result with
    | .ok packet => (transfer, some packet)
    | .error failure => (transfer.failExchange failure, none)
  ({ rehearsal with transfer, queue := wait.queue },
    { result := .reply reply, sent := wait.sent, elapsed := wait.elapsed })

def run (link : Link) (rehearsal : Rehearsal) (start : Option Packet) : Rehearsal × Report :=
  let (disk, party, action) := match start with
    | some packet => rehearsal.party.onPacket rehearsal.disk packet
    | none => rehearsal.party.start rehearsal.disk
  let started := Run.start link rehearsal.stopped rehearsal.transfer party action
  let fed := feed link rehearsal.stopped disk started.state rehearsal.queue
  let (disk, run, queue) := fed.state
  let ended := exhaust link run Exchange.windows
  let (run, elapsed) := ended.state
  let result := match run.stage with
    | .ended result => some result
    | .waiting _ => none
  ({ rehearsal with transfer := run.transfer, party := run.party, disk, queue },
    { result := .ran action result, sent := started.sent ++ fed.sent ++ ended.sent, elapsed })

def perform (link : Link) (rehearsal : Rehearsal) : Op → Except Fault (Rehearsal × Report)
  | .push number bytes => do
    let datagram ← post link number bytes
    return ({ rehearsal with queue := rehearsal.queue ++ [datagram] }, { result := .done })
  | .exchange packet => return rehearsal.exchange link packet
  | .fail code message =>
    return ({ rehearsal with transfer := rehearsal.transfer.fail code message }, { result := .done })
  | .finish =>
    let move := rehearsal.transfer.finish
    let (transfer, result) := move.state
    return ({ rehearsal with transfer }, { result := .finished result, sent := move.sent })
  | .abort code message =>
    let move := rehearsal.transfer.abort code message
    return ({ rehearsal with transfer := move.state }, { result := .done, sent := move.sent })
  | .setPhase phase =>
    return ({ rehearsal with transfer := { rehearsal.transfer with phase } }, { result := .done })
  | .setOptions options =>
    let transfer := rehearsal.transfer.setOptions options.validate
    return ({ rehearsal with transfer },
      { result := .options transfer.options transfer.session.timeout })
  | .shutdown => return ({ rehearsal with stopped := true }, { result := .stopped })
  | .run start => return rehearsal.run link start

end Rehearsal

end Tftp.Script
