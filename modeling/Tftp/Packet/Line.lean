import Tftp.Net.Endpoint
import Tftp.Options.Basic

namespace Tftp.Packet

def lineHead (packet : Packet) (peer : Endpoint) : String :=
  packet.opcode.name ++ " " ++ peer.ip.text ++ ":" ++ toString peer.port.toNat

def requestLine (path mode : String) (options : List OptionField) : String :=
  let fields := if options.isEmpty then "" else " " ++ OptionField.line options
  "\"" ++ path ++ "\" " ++ mode ++ fields

def line (packet : Packet) (peer : Endpoint) (localPort : UInt16) : String :=
  let head := packet.lineHead peer
  match packet with
  | readRequest path mode options | writeRequest path mode options =>
    head ++ " " ++ requestLine path mode options
  | data block _ => head ++ ":" ++ toString localPort.toNat ++ " " ++ toString block.toNat
  | ack block => head ++ " " ++ toString block.toNat
  | error code message => head ++ " " ++ toString code.number.toNat ++ " \"" ++ message ++ "\""
  | optionAck options => head ++ " " ++ OptionField.line options

end Tftp.Packet
