import Tftp.Disk.Basic

namespace Tftp

structure Sink.Memory where
  stored : Array UInt8 := #[]
  limit : Option Nat := none
  overflow : Fault := ⟨.other, ""⟩
  flushFault : Option Fault := none
deriving DecidableEq, Repr

inductive Sink where
  | memory (memory : Sink.Memory)
  | file (id : FileId) (offset : Nat)
deriving DecidableEq, Repr

namespace Sink

/-- What fits is stored even if the whole does not fit. -/
def Memory.write (memory : Memory) (bytes : Bytes) : Memory × Except Fault Unit :=
  match memory.limit with
  | none => ({ memory with stored := memory.stored ++ bytes }, .ok ())
  | some limit =>
    let room := limit - memory.stored.size
    if bytes.length ≤ room then ({ memory with stored := memory.stored ++ bytes }, .ok ())
    else ({ memory with stored := memory.stored ++ bytes.take room }, .error memory.overflow)

def write (disk : Disk) (bytes : Bytes) : Sink → Disk × Sink × Except Fault Unit
  | memory m =>
    let (m, result) := m.write bytes
    (disk, memory m, result)
  | file id offset =>
    let (disk, result) := disk.write id offset bytes
    (disk, file id (offset + bytes.length), result)

def flush (disk : Disk) : Sink → Disk × Except Fault Unit
  | memory m =>
    match m.flushFault with
    | some fault => (disk, .error fault)
    | none => (disk, .ok ())
  | file .. => disk.flush

def stored (disk : Disk) : Sink → Array UInt8
  | memory m => m.stored
  | file id _ => disk.content id

end Sink

end Tftp
