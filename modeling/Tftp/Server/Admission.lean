import Tftp.Server.Config
import Tftp.Server.Confine
import Tftp.Transfer.Basic

namespace Tftp

inductive Direction where
  | download
  | upload
deriving DecidableEq, Repr

/-- A request that has been given a socket of its own. -/
structure Admission where
  transfer : Transfer
  direction : Direction
  file : String
  mode : String
  allowWrites : Bool
  sizeRequested : Bool
deriving DecidableEq, Repr

namespace Admission

abbrev Ports := Nat → PortRange.Attempt

/-- Why a transfer cannot be given a socket, if it cannot. Without a range the system is asked for a
port once. -/
def socketFault? (config : ServerConfig) (ports : Ports) : Option Fault :=
  match config.portRange with
  | none => (ports 0).fault
  | some range =>
    match (range.bindOne ports).result with
    | .ok _ => none
    | .error fault => some fault

def ofRequest (config : ServerConfig) (ports : Ports) (client : Endpoint) (direction : Direction)
    (path mode : String) (fields : List OptionField) : Except Rejection Admission :=
  match confine config.root path with
  | .error rejection => .error rejection
  | .ok file =>
    match socketFault? config ports with
    | some fault => .error (.socket (.ofFault fault))
    | none =>
      let requested := Options.ofFields fields
      let options := requested.validate
      let phase := match direction with
        | .download => .receivedReadRequest
        | .upload => .receivedWriteRequest
      .ok {
        transfer := { session := .accept client options.timeout, phase, path, options }
        direction, file, mode
        allowWrites := config.allowWrites
        sizeRequested := requested.names Options.Known.tsize.name }

def ofPacket (config : ServerConfig) (ports : Ports) (client : Endpoint) (packet : Packet) :
    Except Rejection Admission :=
  match packet with
  | .readRequest path mode fields => ofRequest config ports client .download path mode fields
  | .writeRequest path mode fields => ofRequest config ports client .upload path mode fields
  | packet => .error (.badRequest (packet.opcode.name ++ " cannot start a transfer"))

/-- The admitted request, or the code of the ERROR that answers the datagram. -/
def ofDatagram (config : ServerConfig) (ports : Ports) (datagram : Datagram) :
    Except ErrorCode Admission :=
  match Packet.decode datagram.bytes with
  | .error _ => .error .illegalOperation
  | .ok packet =>
    match ofPacket config ports datagram.source packet with
    | .ok admission => .ok admission
    | .error rejection => .error rejection.code

end Admission

end Tftp
