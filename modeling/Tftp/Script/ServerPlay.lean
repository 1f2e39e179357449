import Tftp.Script.Peers
import Tftp.Server.Basic

namespace Tftp.Script

structure ServerPlay where
  disk : Disk
  root : Place
  ports : Admission.Ports := fun _ => {}
  peers : Nat
  now : Nat := 0
  server : Server
  due : List Nat := []
  /-- The connections that a peer has heard of, in that order. -/
  known : List Nat := []

namespace ServerPlay

inductive Target where
  | listener
  | transfer (number : Nat)
deriving DecidableEq, Repr

inductive Event where
  | post (number : Nat) (target : Target) (bytes : Bytes)
  | wait (milliseconds : Nat)
  | shutdown
  | write (name : Place) (bytes : Bytes)
  | list
deriving DecidableEq, Repr

structure Turn where
  play : ServerPlay
  sent : List Server.Sent := []

def Turn.andThen (turn : Turn) (next : ServerPlay → Turn) : Turn :=
  let later := next turn.play
  { later with sent := turn.sent ++ later.sent }

def timeoutOf (connection : Connection) : Nat :=
  match connection.state with
  | .running run => run.transfer.session.timeout
  | .ended _ => 0

def advance (play : ServerPlay) (number : Nat) (turn : Server.Turn) : Turn :=
  let timeout := (turn.server.connections[number]?).map timeoutOf |>.getD 0
  let due := if number < play.due.length then play.due.set number (play.now + timeout)
    else play.due ++ [play.now + timeout]
  { play := { play with disk := turn.disk, server := turn.server, due }, sent := turn.sent }

/-- The running connection whose window closes first, of equals the oldest. -/
def earliest? (play : ServerPlay) : Option (Nat × Nat) :=
  ((play.server.connections.zip play.due).zipIdx.filter fun ((connection, _), _) =>
      connection.isRunning).foldl
    (fun best ((_, due), number) =>
      match best with
      | some (_, least) => if due < least then some (number, due) else best
      | none => some (number, due))
    none

def fire (link : Link) (limit : Nat) : Nat → ServerPlay → Turn
  | 0, play => { play }
  | fuel + 1, play =>
    match play.earliest? with
    | none => { play }
    | some (number, due) =>
      if limit < due then { play }
      else
        let play := { play with now := due }
        (play.advance number (play.server.onTimeout link number play.disk)).andThen
          (fire link limit fuel)

def elapse (link : Link) (milliseconds : Nat) (play : ServerPlay) : Turn :=
  let limit := play.now + milliseconds
  let turn := fire link limit (play.server.connections.length * Exchange.windows) play
  { turn with play := { turn.play with now := limit } }

def request (link : Link) (play : ServerPlay) (datagram : Datagram) : Turn :=
  let number := play.server.connections.length
  let turn := play.server.onRequest link play.ports play.disk datagram
  if turn.server.connections.length = number then
    { play := { play with disk := turn.disk, server := turn.server }, sent := turn.sent }
  else play.advance number turn

def deliver (link : Link) (play : ServerPlay) (number : Nat) (target : Target) (bytes : Bytes) :
    Except Fault Turn := do
  if play.server.isDone then return { play }
  match target with
  | .listener => return play.request link (← post link number bytes)
  | .transfer k =>
    match play.known[k]? with
    | none => return { play }
    | some connection =>
      let datagram ← post link number bytes
      let turn := play.server.onDatagram link connection play.disk datagram
      return play.advance connection turn

def occur (link : Link) (play : ServerPlay) : Event → Except Fault Turn
  | .post number target bytes => play.deliver link number target bytes
  | .wait milliseconds => return play.elapse link milliseconds
  | .shutdown =>
    let turn := play.server.onShutdown play.disk
    return { play := { play with disk := turn.disk, server := turn.server }, sent := turn.sent }
  | .write name bytes => return { play := { play with disk := play.disk.put (play.root ++ name) bytes } }
  | .list => return { play }

def arrivals (link : Link) (turn : Turn) : List (Arrival Server.Origin) :=
  Script.arrivals link turn.play.peers (turn.sent.map fun sent => (sent.origin, sent.transmission))

def learn (known : List Nat) (arrivals : List (Arrival Server.Origin)) : List Nat :=
  arrivals.foldl
    (fun known arrival =>
      match arrival.origin with
      | .listener => known
      | .connection number => if known.contains number then known else known ++ [number])
    known

def note (link : Link) (turn : Turn) : Turn :=
  { turn with play := { turn.play with known := learn turn.play.known (arrivals link turn) } }

def step (link : Link) (play : ServerPlay) (event : Event) : Except Fault Turn := do
  let turn ← play.occur link event
  return note link (turn.andThen (elapse link pause))

/-- The first step: nothing happens but that time passes, and a server told to stop at once does. -/
def start (link : Link) (stopped : Bool) (play : ServerPlay) : Turn :=
  let server := (if stopped then play.server.tell else play.server).settle
  note link (elapse link pause { play with server })

def numberOf? (play : ServerPlay) : Server.Origin → Option Nat
  | .listener => none
  | .connection number => play.known.idxOf? number

end ServerPlay

end Tftp.Script
