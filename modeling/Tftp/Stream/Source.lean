import Tftp.Disk.Basic

namespace Tftp

/-- A stretch that one or more reads deliver, or a read that fails. -/
inductive Source.Piece where
  | bytes (bytes : Bytes)
  | failure (fault : Fault)
deriving DecidableEq, Repr

inductive Source where
  | pieces (list : List Source.Piece)
  | file (id : FileId) (offset : Nat)
  | directory
deriving DecidableEq, Repr

namespace Source

/-- One read never crosses the end of a piece. -/
def readPieces (space : Nat) : List Piece → List Piece × Except Fault Bytes
  | [] => ([], .ok [])
  | .failure fault :: rest => (rest, .error fault)
  | .bytes bytes :: rest =>
    if bytes = [] then readPieces space rest
    else (.bytes (bytes.drop space) :: rest, .ok (bytes.take space))

def read (disk : Disk) (space : Nat) : Source → Source × Except Fault Bytes
  | pieces list =>
    let (list, result) := readPieces space list
    (pieces list, result)
  | file id offset =>
    let bytes := disk.read id offset space
    (.file id (offset + bytes.length), .ok bytes)
  | directory => (.directory, .error ⟨.isADirectory, "Is a directory"⟩)

def ofNode : Node → Source
  | .file id => file id 0
  | .directory => directory

end Source

end Tftp
