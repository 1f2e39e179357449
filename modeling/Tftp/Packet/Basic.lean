import Tftp.Packet.ErrorCode
import Tftp.Text.Utf8

namespace Tftp

structure OptionField where
  name : String
  text : String
deriving DecidableEq, Repr

inductive Opcode where
  | readRequest
  | writeRequest
  | data
  | ack
  | error
  | optionAck
deriving DecidableEq, Repr

namespace Opcode

def number : Opcode → UInt16
  | readRequest => 1
  | writeRequest => 2
  | data => 3
  | ack => 4
  | error => 5
  | optionAck => 6

def ofNumber? (n : UInt16) : Option Opcode :=
  match n with
  | 1 => some readRequest
  | 2 => some writeRequest
  | 3 => some data
  | 4 => some ack
  | 5 => some error
  | 6 => some optionAck
  | _ => none

def name : Opcode → String
  | readRequest => "RRQ"
  | writeRequest => "WRQ"
  | data => "DATA"
  | ack => "ACK"
  | error => "ERROR"
  | optionAck => "OACK"

end Opcode

/-- The mode of a request is kept as it was spelled. Options keep their order and repetitions. -/
inductive Packet where
  | readRequest (path mode : String) (options : List OptionField)
  | writeRequest (path mode : String) (options : List OptionField)
  | data (block : UInt16) (payload : Bytes)
  | ack (block : UInt16)
  | error (code : ErrorCode) (message : String)
  | optionAck (options : List OptionField)
deriving DecidableEq, Repr

namespace Packet

def opcode : Packet → Opcode
  | readRequest .. => .readRequest
  | writeRequest .. => .writeRequest
  | data .. => .data
  | ack .. => .ack
  | error .. => .error
  | optionAck .. => .optionAck

def standardError (code : ErrorCode) : Packet :=
  error code code.message

end Packet

end Tftp
