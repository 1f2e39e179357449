import Tftp.Script.Peers
import Tftp.Transfer.Run

namespace Tftp.Script

/-- The clock moves only while nothing has come in. Datagrams that wait in the queue are read at once. -/
structure Wait where
  session : Session
  queue : List Datagram
  result : Except ExchangeFailure Packet
  sent : List Transmission
  elapsed : Nat

/-- How an exchange ends that nobody answers: why, what it sends and how many windows close. -/
structure Silence where
  failure : ExchangeFailure
  sent : List Transmission
  windows : Nat

def silence (link : Link) (session : Session) (repeated : Option Packet) : Nat → Silence
  | 0 => { failure := .timeout, sent := [], windows := 1 }
  | left + 1 =>
    let opened := Exchange.openWindow link session repeated (left + 1)
    match opened.state with
    | .failed failure => { failure, sent := opened.sent, windows := 1 }
    | .waiting _ =>
      let later := silence link session repeated left
      { later with sent := opened.sent ++ later.sent, windows := later.windows + 1 }

def await (link : Link) (session : Session) (queue : List Datagram)
    (opened : Move Exchange.Progress) : Wait :=
  match opened.state with
  | .failed failure => { session, queue, result := .error failure, sent := opened.sent, elapsed := 0 }
  | .waiting exchange =>
    match queue with
    | datagram :: queue =>
      let (session, result) := session.read datagram
      { session, queue, result, sent := opened.sent, elapsed := 0 }
    | [] =>
      let silence := silence link session exchange.repeated exchange.left
      { session, queue, result := .error silence.failure, sent := opened.sent ++ silence.sent
        elapsed := silence.windows * session.timeout }

/-- Hands waiting datagrams to a run until it ends. Gives back those that nobody has read. -/
def feed (link : Link) (stopped : Bool) (disk : Disk) (run : Run) :
    List Datagram → Move (Disk × Run × List Datagram)
  | [] => { state := (disk, run, []) }
  | datagram :: queue =>
    match run.stage with
    | .ended _ => { state := (disk, run, datagram :: queue) }
    | .waiting _ =>
      let move := run.onDatagram link stopped disk datagram
      let later := feed link stopped move.state.1 move.state.2 queue
      { later with sent := move.sent ++ later.sent }

def exhaust (link : Link) (run : Run) : Nat → Move (Run × Nat)
  | 0 => { state := (run, 0) }
  | fuel + 1 =>
    match run.stage with
    | .ended _ => { state := (run, 0) }
    | .waiting _ =>
      let move := run.onTimeout link
      let later := exhaust link move.state fuel
      { state := (later.state.1, later.state.2 + run.transfer.session.timeout)
        sent := move.sent ++ later.sent }

end Tftp.Script
