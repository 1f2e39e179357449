import Tftp.Client.Basic
import Tftp.Proofs.Lockstep
import Tftp.Script.Loopback
import Tftp.Server.Basic

namespace Tftp

inductive Host where
  | client
  | server
deriving DecidableEq

def Host.other : Host → Host
  | client => server
  | server => client

def Host.choose {α : Type} (client server : α) : Host → α
  | .client => client
  | .server => server

structure OrderedSystem.Ends where
  client : Endpoint
  listener : Endpoint
  transfer : Endpoint
  listener_ne_client : listener ≠ client
  transfer_ne_client : transfer ≠ client
  transfer_ne_listener : transfer ≠ listener

/-- A client and the server that it asks, each with its own files. The network delivers every datagram once and in the
order of sending. -/
structure OrderedSystem where
  clientDisk : Disk
  client : Client
  serverDisk : Disk
  server : Server
  parcels : List Script.Parcel := []
  clientSent : List Packet := []
  serverSent : List Packet := []

namespace OrderedSystem

def Ends.of (ends : Ends) : Host → Endpoint :=
  Host.choose ends.client ends.transfer

def Ends.origin (ends : Ends) : Server.Origin → Endpoint
  | .listener => ends.listener
  | .connection _ => ends.transfer

def localEnds : Ends where
  client := { ip := .v4 127 0 0 1, port := 40000 }
  listener := { ip := .v4 127 0 0 1, port := 69 }
  transfer := { ip := .v4 127 0 0 1, port := 20000 }
  listener_ne_client := by decide
  transfer_ne_client := by decide
  transfer_ne_listener := by decide

def ship (source : Endpoint) (sent : List Transmission) : List Script.Parcel :=
  Script.Loopback.ship .connected source sent

def packets (sent : List Transmission) : List Packet :=
  sent.map Transmission.packet

def start (ends : Ends) (opened : Move (Disk × Client)) (serverDisk : Disk) (server : Server) : OrderedSystem where
  clientDisk := opened.state.1
  client := opened.state.2
  serverDisk
  server
  parcels := ship ends.client opened.sent
  clientSent := packets opened.sent

def takeClient (ends : Ends) (system : OrderedSystem) (move : Move (Disk × Client)) : OrderedSystem :=
  { system with
    clientDisk := move.state.1
    client := move.state.2
    parcels := system.parcels ++ ship ends.client move.sent
    clientSent := system.clientSent ++ packets move.sent }

def takeServer (ends : Ends) (system : OrderedSystem) (turn : Server.Turn) : OrderedSystem :=
  { system with
    serverDisk := turn.disk
    server := turn.server
    parcels := system.parcels ++
      turn.sent.flatMap fun sent => ship (ends.origin sent.origin) [sent.transmission]
    serverSent := system.serverSent ++ turn.sent.map fun sent => sent.transmission.packet }

variable (ends : Ends) (ports : Admission.Ports) (number : Nat)

/-- The oldest datagram arrives. The transfer's socket is that of the connection with this number,
and what is meant for nobody is lost. -/
def step (system : OrderedSystem) : OrderedSystem :=
  match system.parcels with
  | [] => system
  | parcel :: parcels =>
    let system := { system with parcels }
    if parcel.destination = ends.client then
      system.takeClient ends
        (system.client.onDatagram .connected false system.clientDisk parcel.datagram)
    else if parcel.destination = ends.listener then
      system.takeServer ends
        (system.server.onRequest .connected ports system.serverDisk parcel.datagram)
    else if parcel.destination = ends.transfer then
      system.takeServer ends
        (system.server.onDatagram .connected number system.serverDisk parcel.datagram)
    else system

def run : Nat → OrderedSystem → OrderedSystem
  | 0, system => system
  | steps + 1, system => run steps (system.step ends ports number)

def sent (system : OrderedSystem) : Host → List Packet :=
  Host.choose system.clientSent system.serverSent

end OrderedSystem

end Tftp
