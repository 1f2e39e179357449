import Tftp.Client.Basic
import Tftp.Script.Peers

namespace Tftp.Script

structure ClientPlay where
  disk : Disk
  now : Nat := 0
  stopped : Bool := false
  client : Except TransferFailure Client
  due : Nat := 0
  seen : Bool := false

namespace ClientPlay

inductive Event where
  | post (number : Nat) (bytes : Bytes)
  | wait (milliseconds : Nat)
  | shutdown
deriving DecidableEq, Repr

def result? (play : ClientPlay) : Option (Except TransferFailure Unit) :=
  match play.client with
  | .error failure => some (.error failure)
  | .ok client => client.result?

def isDone (play : ClientPlay) : Bool :=
  play.result?.isSome

def advance (link : Link) (play : ClientPlay) (move : Move (Disk × Client)) : Move ClientPlay :=
  let (disk, client) := move.state
  { state := { play with
      disk
      client := .ok client
      due := play.now + client.run.transfer.session.timeout
      seen := play.seen || !(link.delivered move.sent).isEmpty }
    sent := move.sent }

def ofStart (link : Link) (stopped : Bool) (disk : Disk)
    (start : Except TransferFailure (Move (Disk × Client))) : Move ClientPlay :=
  match start with
  | .error failure => { state := { disk, stopped, client := .error failure } }
  | .ok move => advance link { disk, stopped, client := .error .cancelled } move

def fire (link : Link) (limit : Nat) : Nat → ClientPlay → Move ClientPlay
  | 0, play => { state := play }
  | fuel + 1, play =>
    match play.client with
    | .error _ => { state := play }
    | .ok client =>
      if client.result?.isSome || limit < play.due then { state := play }
      else
        let play := { play with now := play.due }
        (play.advance link (client.onTimeout link play.disk)).andThen (fire link limit fuel)

/-- Lets time pass. A client closes no more windows than an exchange has. -/
def elapse (link : Link) (milliseconds : Nat) (play : ClientPlay) : Move ClientPlay :=
  let limit := play.now + milliseconds
  (fire link limit Exchange.windows play).map fun play => { play with now := limit }

/-- A peer writes to the client only if it has heard of it. -/
def deliver (link : Link) (play : ClientPlay) (number : Nat) (bytes : Bytes) :
    Except Fault (Move ClientPlay) := do
  let .ok client := play.client | return { state := play }
  if client.result?.isSome || !play.seen then return { state := play }
  let datagram ← post link number bytes
  return play.advance link (client.onDatagram link play.stopped play.disk datagram)

def occur (link : Link) (play : ClientPlay) : Event → Except Fault (Move ClientPlay)
  | .post number bytes => play.deliver link number bytes
  | .wait milliseconds => return play.elapse link milliseconds
  | .shutdown => return { state := { play with stopped := true } }

def step (link : Link) (play : ClientPlay) (event : Event) : Except Fault (Move ClientPlay) := do
  let move ← play.occur link event
  return move.andThen (elapse link pause)

end ClientPlay

end Tftp.Script
