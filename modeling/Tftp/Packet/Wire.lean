import Tftp.Packet.Basic
import Tftp.Packet.Field

namespace Tftp

inductive TextRole where
  | filePath
  | mode
  | optionName
  | optionValue
  | errorMessage
deriving DecidableEq, Repr

def TextRole.name : TextRole → String
  | filePath => "File path"
  | mode => "Mode"
  | optionName => "Option name"
  | optionValue => "Option value"
  | errorMessage => "Error message"

inductive Malformation where
  | tooShort
  | unknownOpcode (number : UInt16)
  | unterminated (role : TextRole)
  | optionWithoutValue (name : String)
  | blockMissing
  | ackLength (length : Nat)
  | errorCodeMissing
deriving DecidableEq, Repr

def Malformation.message : Malformation → String
  | tooShort => "Packet too short!"
  | unknownOpcode number => "Unknown opcode retrieved: " ++ toString number.toNat
  | unterminated role => role.name ++ " must be terminated with a null byte!"
  | optionWithoutValue name => "Option '" ++ name ++ "' has no value"
  | blockMissing => "Data packet is missing its block number"
  | ackLength length => "Ack packet must be 4 bytes long, got " ++ toString length
  | errorCodeMissing => "Error packet is missing its error code"

namespace Wire

def encodeWord (n : UInt16) : Bytes :=
  [(n >>> 8).toUInt8, n.toUInt8]

def word (high low : UInt8) : UInt16 :=
  high.toUInt16 <<< 8 ||| low.toUInt16

def encodeOption (option : OptionField) : Bytes :=
  Field.encode option.name ++ Field.encode option.text

def encodeOptions (options : List OptionField) : Bytes :=
  options.flatMap encodeOption

/-- Names and values in turn. The octets must end with the NUL of a value. -/
def pairOptions (tail : Bytes) : List Bytes → Except Malformation (List OptionField)
  | [] => if tail = [] then .ok [] else .error (.unterminated .optionName)
  | [name] =>
    if tail = [] then .error (.optionWithoutValue (Utf8.decode name))
    else .error (.unterminated .optionValue)
  | name :: text :: ended => do
    let options ← pairOptions tail ended
    return { name := Utf8.decode name, text := Utf8.decode text } :: options

def decodeOptions (bytes : Bytes) : Except Malformation (List OptionField) :=
  let pieces := Field.split bytes
  pairOptions pieces.tail pieces.ended

def decodeRequest (bytes : Bytes) : Except Malformation (String × String × List OptionField) :=
  let pieces := Field.split bytes
  match pieces.ended with
  | [] => .error (.unterminated .filePath)
  | [_] => .error (.unterminated .mode)
  | path :: mode :: ended => do
    let options ← pairOptions pieces.tail ended
    return (Utf8.decode path, Utf8.decode mode, options)

def decodeData : Bytes → Except Malformation Packet
  | high :: low :: payload => .ok (.data (word high low) payload)
  | _ => .error .blockMissing

def decodeAck : Bytes → Except Malformation Packet
  | [high, low] => .ok (.ack (word high low))
  | body => .error (.ackLength (body.length + 2))

/-- What follows the NUL of the message does not count. -/
def decodeError : Bytes → Except Malformation Packet
  | high :: low :: body =>
    match (Field.split body).ended with
    | [] => .error (.unterminated .errorMessage)
    | message :: _ => .ok (.error ⟨word high low⟩ (Utf8.decode message))
  | _ => .error .errorCodeMissing

def decodeBody (body : Bytes) : Opcode → Except Malformation Packet
  | .readRequest => do
    let (path, mode, options) ← decodeRequest body
    return .readRequest path mode options
  | .writeRequest => do
    let (path, mode, options) ← decodeRequest body
    return .writeRequest path mode options
  | .data => decodeData body
  | .ack => decodeAck body
  | .error => decodeError body
  | .optionAck => .optionAck <$> decodeOptions body

def encodeBody : Packet → Bytes
  | .readRequest path mode options | .writeRequest path mode options =>
    Field.encode path ++ Field.encode mode ++ encodeOptions options
  | .data block payload => encodeWord block ++ payload
  | .ack block => encodeWord block
  | .error code message => encodeWord code.number ++ Field.encode message
  | .optionAck options => encodeOptions options

end Wire

namespace Packet

def encode (packet : Packet) : Bytes :=
  Wire.encodeWord packet.opcode.number ++ Wire.encodeBody packet

def decode : Bytes → Except Malformation Packet
  | high :: low :: body =>
    match Opcode.ofNumber? (Wire.word high low) with
    | some opcode => Wire.decodeBody body opcode
    | none => .error (.unknownOpcode (Wire.word high low))
  | _ => .error .tooShort

end Packet

end Tftp
