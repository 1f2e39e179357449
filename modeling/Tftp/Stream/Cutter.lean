import Tftp.Mode.Netascii
import Tftp.Stream.Source

namespace Tftp

structure Cutter where
  source : Source
  mode : Mode
  pending : Bytes := []
  exhausted : Bool := false
deriving DecidableEq, Repr

namespace Cutter

def leastSpace : Nat := 512

/-- Reads until `size` octets are pending, the source ends or a read fails. Each read that finds
something adds at least one octet, so `fuel` need not exceed the octets that are missing. -/
def fill (disk : Disk) (size : Nat) : Nat → Cutter → Cutter × Except Fault Unit
  | 0, cutter => (cutter, .ok ())
  | fuel + 1, cutter =>
    if size ≤ cutter.pending.length || cutter.exhausted then (cutter, .ok ())
    else
      match cutter.source.read disk (max size leastSpace) with
      | (source, .ok []) => ({ cutter with source, exhausted := true }, .ok ())
      | (source, .ok bytes) =>
        fill disk size fuel
          { cutter with source, pending := cutter.pending ++ cutter.mode.wireForm bytes }
      | (source, .error fault) => ({ cutter with source }, .error fault)

/-- The next block. What was read before a failing read is kept for the next call. -/
def next (disk : Disk) (size : Nat) (cutter : Cutter) : Cutter × Except Fault Bytes :=
  match cutter.fill disk size size with
  | (cutter, .ok ()) =>
    ({ cutter with pending := cutter.pending.drop size }, .ok (cutter.pending.take size))
  | (cutter, .error fault) => (cutter, .error fault)

end Cutter

end Tftp
