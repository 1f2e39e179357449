import Tftp.Mode.Basic
import Tftp.Text.Utf8

namespace Tftp

namespace Netascii

def cr : UInt8 := 13

def lf : UInt8 := 10

def nul : UInt8 := 0

def encodeOctet (b : UInt8) : Bytes :=
  if b = cr then [cr, nul] else if b = lf then [cr, lf] else [b]

def encode (bytes : Bytes) : Bytes :=
  bytes.flatMap encodeOctet

/-- Whether a CR is held back. -/
structure Decoder where
  held : Bool := false
deriving DecidableEq, Repr

namespace Decoder

def step (decoder : Decoder) (b : UInt8) : Decoder × Bytes :=
  if decoder.held then
    if b = lf then (⟨false⟩, [lf])
    else if b = nul then (⟨false⟩, [cr])
    else if b = cr then (⟨true⟩, [cr])
    else (⟨false⟩, [cr, b])
  else if b = cr then (⟨true⟩, [])
  else (⟨false⟩, [b])

def decode (decoder : Decoder) (piece : Bytes) : Decoder × Bytes :=
  Transducer.run step decoder piece

def finish (decoder : Decoder) : Decoder × Bytes :=
  if decoder.held then (⟨false⟩, [cr]) else (decoder, [])

end Decoder

/-- The host form of a whole text in wire form. A CR without a partner stands for itself. -/
def hostForm : Bytes → Bytes
  | [] => []
  | [b] => [b]
  | b :: c :: rest =>
    if b = cr then
      if c = lf then lf :: hostForm rest
      else if c = nul then cr :: hostForm rest
      else if c = cr then cr :: hostForm (c :: rest)
      else cr :: c :: hostForm rest
    else b :: hostForm (c :: rest)

end Netascii

def Mode.wireForm : Mode → Bytes → Bytes
  | .octet, bytes => bytes
  | .netascii, bytes => Netascii.encode bytes

def Mode.hostForm : Mode → Bytes → Bytes
  | .octet, bytes => bytes
  | .netascii, bytes => Netascii.hostForm bytes

end Tftp
