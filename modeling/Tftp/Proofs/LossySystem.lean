import Tftp.Client.Basic
import Tftp.Proofs.Handshake
import Tftp.Server.Basic

namespace Tftp

/-- The ways to start a client, and the options that its request names. -/
inductive Client.Starts (link : Link) (stopped : Bool) (config : ClientConfig) (remote : String) :
    Direction → Options → Move (Disk × Client) → Prop where
  | downloadTo (disk : Disk) (sink : Sink) (ending : Ending) :
    Starts link stopped config remote .download config.options
      (Client.downloadTo link stopped config disk remote sink ending)
  | download (disk : Disk) (dest : String) (opened : Move (Disk × Client))
      (h : Client.download link stopped config disk remote dest = .ok opened) :
    Starts link stopped config remote .download config.options opened
  | upload (disk : Disk) (source : Source) :
    Starts link stopped config remote .upload config.options
      (Client.upload link stopped config config.options disk source remote)
  | uploadFile (disk : Disk) (src : String) (node : Node) (opened : Move (Disk × Client))
      (hn : disk.openRead src = .ok node)
      (h : Client.uploadFile link stopped config disk src remote = .ok opened) :
    Starts link stopped config remote .upload (sizedOptions config.options (disk.nodeSize node)) opened

structure LossySystem.Ends where
  client : Endpoint
  listener : Endpoint
  transfer : Nat → Endpoint
  transfer_ne_listener : ∀ number, transfer number ≠ listener

/-- A client and the server that it asks. The network brings whatever either of them has sent to the other, at any
time and as often as it likes, or never. -/
structure LossySystem where
  clientDisk : Disk
  client : Client
  stopped : Bool
  serverDisk : Disk
  server : Server
  asked : List Transmission := []
  told : List Server.Sent := []

namespace LossySystem

def Ends.origin (ends : Ends) : Server.Origin → Endpoint
  | .listener => ends.listener
  | .connection number => ends.transfer number

/-- What may happen. A datagram is named by its place among all that have been sent. -/
inductive Event where
  | answer (place : Nat)
  /-- The listener hears from the client. It may or may not find a port for a connection. -/
  | request (place : Nat) (ports : Admission.Ports)
  | reply (number place : Nat)
  | clientTimeout
  | serverTimeout (number : Nat)
  | clientStop
  | serverStop

def takeClient (system : LossySystem) (move : Move (Disk × Client)) : LossySystem :=
  { system with
    clientDisk := move.state.1
    client := move.state.2
    asked := system.asked ++ move.sent }

def takeServer (system : LossySystem) (turn : Server.Turn) : LossySystem :=
  { system with
    serverDisk := turn.disk
    server := turn.server
    told := system.told ++ turn.sent }

def askedAt? (ends : Ends) (system : LossySystem) (place : Nat) (goal : Endpoint) : Option Datagram :=
  match system.asked[place]? with
  | some asked => if asked.destination = goal then some ⟨ends.client, asked.packet.encode⟩ else none
  | none => none

def toldAt? (ends : Ends) (system : LossySystem) (place : Nat) : Option Datagram :=
  match system.told[place]? with
  | some told =>
    if told.transmission.destination = ends.client then
      some ⟨ends.origin told.origin, told.transmission.packet.encode⟩
    else none
  | none => none

def step (link : Link) (ends : Ends) (system : LossySystem) : Event → LossySystem
  | .answer place =>
    match system.toldAt? ends place with
    | some datagram =>
      system.takeClient (system.client.onDatagram link system.stopped system.clientDisk datagram)
    | none => system
  | .request place ports =>
    match system.askedAt? ends place ends.listener with
    | some datagram => system.takeServer (system.server.onRequest link ports system.serverDisk datagram)
    | none => system
  | .reply number place =>
    match system.askedAt? ends place (ends.transfer number) with
    | some datagram => system.takeServer (system.server.onDatagram link number system.serverDisk datagram)
    | none => system
  | .clientTimeout => system.takeClient (system.client.onTimeout link system.clientDisk)
  | .serverTimeout number => system.takeServer (system.server.onTimeout link number system.serverDisk)
  | .clientStop => { system with stopped := true }
  | .serverStop => system.takeServer (system.server.onShutdown system.serverDisk)

def run (link : Link) (ends : Ends) (system : LossySystem) (events : List Event) : LossySystem :=
  events.foldl (step link ends) system

def start (stopped : Bool) (opened : Move (Disk × Client)) (config : ServerConfig) (serverDisk : Disk) :
    LossySystem where
  clientDisk := opened.state.1
  client := opened.state.2
  stopped
  serverDisk
  server := ({ config } : Server).settle
  asked := opened.sent

end LossySystem

end Tftp
