import Tftp.Text.Utf8

namespace Tftp.Field

/-- The octets of the open field are held in reverse. -/
def step (held : Bytes) (b : UInt8) : Bytes × List Bytes :=
  if b = 0 then ([], [held.reverse]) else (b :: held, [])

structure Pieces where
  ended : List Bytes
  tail : Bytes
deriving DecidableEq, Repr

/-- The stretches that a NUL ends, and the stretch after the last NUL. -/
def split (bytes : Bytes) : Pieces :=
  let (held, ended) := Transducer.run step [] bytes
  { ended, tail := held.reverse }

def encode (s : String) : Bytes :=
  Utf8.encode s ++ [0]

end Tftp.Field
