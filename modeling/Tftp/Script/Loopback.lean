import Tftp.Client.Basic
import Tftp.Script.Peers
import Tftp.Server.Basic

namespace Tftp.Script

structure Parcel where
  destination : Endpoint
  datagram : Datagram
deriving DecidableEq, Repr

/-- A server and what is under way to and from it. The files of both sides are kept apart from it. -/
structure Loopback where
  server : Server
  clients : Nat := 0
  parcels : List Parcel := []

namespace Loopback

def listener : Endpoint :=
  { ip := localhost, port := registeredPort }

def clientEnd (number : Nat) : Endpoint :=
  { ip := localhost, port := (40000 + number).toUInt16 }

def connectionEnd (number : Nat) : Endpoint :=
  { ip := localhost, port := (20000 + number).toUInt16 }

def originEnd : Server.Origin → Endpoint
  | .listener => listener
  | .connection number => connectionEnd number

def ship (link : Link) (source : Endpoint) (sent : List Transmission) : List Parcel :=
  (link.delivered sent).map fun transmission =>
    ⟨transmission.destination, ⟨source, transmission.packet.encode⟩⟩

def shipServer (link : Link) (sent : List Server.Sent) : List Parcel :=
  sent.flatMap fun sent => ship link (originEnd sent.origin) [sent.transmission]

def absorb (link : Link) (loopback : Loopback) (turn : Server.Turn) : Disk × Loopback :=
  (turn.disk, { loopback with
    server := turn.server
    parcels := loopback.parcels ++ shipServer link turn.sent })

/-- The connection that owns a socket. -/
def connectionAt? (loopback : Loopback) (endpoint : Endpoint) : Option Nat :=
  (List.range loopback.server.connections.length).find? fun number =>
    connectionEnd number = endpoint

def toServer (link : Link) (disk : Disk) (loopback : Loopback) (parcel : Parcel) : Disk × Loopback :=
  if parcel.destination = listener then
    loopback.absorb link (loopback.server.onRequest link (fun _ => {}) disk parcel.datagram)
  else
    match loopback.connectionAt? parcel.destination with
    | some number =>
      loopback.absorb link (loopback.server.onDatagram link number disk parcel.datagram)
    | none => (disk, loopback)

structure Job where
  disk : Disk
  loopback : Loopback
  client : Client

def takeClient (link : Link) (loopback : Loopback) (number : Nat) (move : Move (Disk × Client)) :
    Job :=
  let (disk, client) := move.state
  let parcels := loopback.parcels ++ ship link (clientEnd number) move.sent
  { disk, loopback := { loopback with parcels }, client }

def Job.step (link : Link) (number : Nat) : Job → Job
  | { disk, loopback, client } =>
    match loopback.parcels with
    | [] => loopback.takeClient link number (client.onTimeout link disk)
    | parcel :: parcels =>
      let loopback := { loopback with parcels }
      if parcel.destination = clientEnd number then
        loopback.takeClient link number (client.onDatagram link false disk parcel.datagram)
      else
        let (disk, loopback) := loopback.toServer link disk parcel
        { disk, loopback, client }

def Job.run (link : Link) (number : Nat) : Nat → Job → Job
  | 0, job => job
  | fuel + 1, job => if job.client.result?.isSome then job else run link number fuel (job.step link number)

def drain (link : Link) : Nat → Disk → Loopback → Disk × Loopback
  | 0, disk, loopback => (disk, loopback)
  | fuel + 1, disk, loopback =>
    match loopback.parcels with
    | [] => (disk, loopback)
    | parcel :: parcels =>
      let (disk, loopback) := { loopback with parcels }.toServer link disk parcel
      drain link fuel disk loopback

def octets (disk : Disk) (extra : Nat) : Nat :=
  disk.contents.foldl (fun sum content => sum + content.size) extra

/-- More steps than a transfer of this many octets takes: in wire form they are at most twice as
many, and each octet needs at most a block and its acknowledgment. -/
def budget (octets : Nat) : Nat :=
  4 * octets + 64

def job (link : Link) (extra : Nat) (disk : Disk) (loopback : Loopback)
    (start : Disk → Except TransferFailure (Move (Disk × Client))) :
    Disk × Loopback × Option (Except TransferFailure Unit) :=
  let number := loopback.clients
  let fuel := budget (octets disk extra)
  let loopback := { loopback with clients := number + 1, server := loopback.server.settle }
  match start disk with
  | .error failure => (disk, loopback, some (.error failure))
  | .ok move =>
    let { disk, loopback, client } := Job.run link number fuel (loopback.takeClient link number move)
    let (disk, loopback) := drain link fuel disk loopback
    (disk, loopback, client.result?)

def shutdown (link : Link) (disk : Disk) (loopback : Loopback) : Disk × Loopback :=
  loopback.absorb link (loopback.server.onShutdown disk)

end Loopback

end Tftp.Script
