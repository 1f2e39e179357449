import Tftp.Server.Connection
import Tftp.Server.Loop

namespace Tftp

structure Server where
  config : ServerConfig
  /-- Whether the server has been told to stop. -/
  told : Bool := false
  loop : ServerLoop := {}
  /-- All connections in the order of their requests, those that are over included. -/
  connections : List Connection := []

namespace Server

inductive Origin where
  | listener
  | connection (number : Nat)
deriving DecidableEq, Repr

structure Sent where
  origin : Origin
  transmission : Transmission
deriving DecidableEq, Repr

structure Turn where
  disk : Disk
  server : Server
  sent : List Sent := []

def label (origin : Origin) (sent : List Transmission) : List Sent :=
  sent.map fun transmission => { origin, transmission }

def isOver (server : Server) (number : Nat) : Bool :=
  match server.connections[number]? with
  | some connection => !connection.isRunning
  | none => false

def listening (server : Server) : Bool :=
  server.loop.stage = .selecting

def isDone (server : Server) : Bool :=
  server.loop.stage = .returned

/-- The loop goes on until it waits. -/
def settle (server : Server) : Server :=
  { server with loop := server.loop.settle server.told server.isOver (2 * server.loop.tasks.length + 3) }

@[simp] theorem settle_connections (server : Server) : server.settle.connections = server.connections := rfl

def attend (task : Option Nat) (server : Server) : Server :=
  { server with loop := server.loop.received task }.settle

@[simp] theorem attend_connections (task : Option Nat) (server : Server) :
    (server.attend task).connections = server.connections := rfl

def onRequest (link : Link) (ports : Admission.Ports) (disk : Disk) (datagram : Datagram)
    (server : Server) : Turn :=
  if !server.listening then { disk, server }
  else
    match Admission.ofDatagram server.config ports datagram with
    | .error code =>
      { disk, server := server.attend none
        sent := label .listener [⟨datagram.source, .standardError code⟩] }
    | .ok admission =>
      let number := server.connections.length
      let move := Connection.serve link disk admission
      let (disk, connection) := move.state
      { disk
        server := { server with connections := server.connections ++ [connection] }.attend (some number)
        sent := label (.connection number) move.sent }

def step (number : Nat) (disk : Disk) (server : Server)
    (next : Disk → Connection → Move (Disk × Connection)) : Turn :=
  match server.connections[number]? with
  | none => { disk, server }
  | some connection =>
    let move := next disk connection
    let (disk, connection) := move.state
    { disk
      server := { server with connections := server.connections.set number connection }.settle
      sent := label (.connection number) move.sent }

def onDatagram (link : Link) (number : Nat) (disk : Disk) (datagram : Datagram) (server : Server) :
    Turn :=
  server.step number disk fun disk connection => connection.onDatagram link disk datagram

def onTimeout (link : Link) (number : Nat) (disk : Disk) (server : Server) : Turn :=
  server.step number disk fun disk connection => connection.onTimeout link disk

/-- The word to stop, which nobody has seen yet. -/
def tell (server : Server) : Server :=
  { server with told := true }

def giveUp (numbers : List Nat) (turn : Turn) : Turn :=
  numbers.foldl (fun turn number =>
    let later := turn.server.step number turn.disk fun disk connection => connection.onShutdown disk
    { later with sent := turn.sent ++ later.sent }) turn

/-- The server is told to stop. The loop sees it, and then the connections do. -/
def onShutdown (disk : Disk) (server : Server) : Turn :=
  giveUp (List.range server.connections.length) { disk, server := server.tell.settle }

end Server

end Tftp
