import Tftp.Server.Config

namespace Tftp

inductive ServerLoop.Stage where
  | checking
  /-- Waiting for a datagram, for the word to stop and for a connection that is over. Where more than one of
  them is there, it sees any of them. -/
  | selecting
  | pausing (milliseconds : Nat)
  | joining
  | returned
deriving DecidableEq, Repr

/-- The loop of a server takes datagrams until it sees that the server has been told to stop, and returns when all
connections are joined. -/
structure ServerLoop where
  stage : ServerLoop.Stage := .checking
  failures : Nat := 0
  tasks : List Nat := []
deriving DecidableEq, Repr

namespace ServerLoop

inductive Step where
  | check
  | notice
  /-- A reception fails. -/
  | fail
  | resume
  | join (task : Nat)
  | leave
deriving DecidableEq, Repr

def maxFailures : Nat := 4294967295

def received (task : Option Nat) (loop : ServerLoop) : ServerLoop where
  stage := .checking
  tasks := loop.tasks ++ task.toList

def step (told : Bool) (ended : Nat → Bool) (loop : ServerLoop) : Step → Option ServerLoop
  | .check =>
    if loop.stage = .checking then some { loop with stage := if told then .joining else .selecting } else none
  | .notice =>
    match loop.stage with
    | .selecting | .pausing _ => if told then some { loop with stage := .joining } else none
    | _ => none
  | .fail =>
    if loop.stage = .selecting then
      let failures := min (loop.failures + 1) maxFailures
      some { loop with stage := .pausing (ServerConfig.pauseAfter failures), failures }
    else none
  | .resume =>
    match loop.stage with
    | .pausing _ => some { loop with stage := .checking }
    | _ => none
  | .join task =>
    if loop.tasks.contains task && ended task then
      match loop.stage with
      | .selecting => some { loop with stage := .checking, tasks := loop.tasks.erase task }
      | .joining => some { loop with tasks := loop.tasks.erase task }
      | _ => none
    else none
  | .leave => if loop.stage = .joining && loop.tasks.isEmpty then some { loop with stage := .returned } else none

/-- What the loop does if no datagram comes and no time passes. -/
def next? (told : Bool) (ended : Nat → Bool) (loop : ServerLoop) : Option Step :=
  match loop.stage with
  | .checking => some .check
  | .selecting => if told then some .notice else (loop.tasks.find? ended).map .join
  | .pausing _ => if told then some .notice else none
  | .joining => if loop.tasks.isEmpty then some .leave else (loop.tasks.find? ended).map .join
  | .returned => none

/-- Goes on until it waits. A connection takes two steps at most, to be joined and to look again. -/
def settle (told : Bool) (ended : Nat → Bool) : Nat → ServerLoop → ServerLoop
  | 0, loop => loop
  | fuel + 1, loop =>
    match (loop.next? told ended).bind (loop.step told ended) with
    | some next => settle told ended fuel next
    | none => loop

end ServerLoop

end Tftp
