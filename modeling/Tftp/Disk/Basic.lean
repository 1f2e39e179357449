import Tftp.Disk.Path
import Tftp.Fault
import Tftp.Text.Utf8

namespace Tftp

abbrev Place := List String

abbrev FileId := Nat

inductive Node where
  | directory
  | file (id : FileId)
deriving DecidableEq, Repr

structure Mishap where
  stored : Nat := 0
  fault : Fault
deriving DecidableEq, Repr

/-- A tree of directories and files. A name stands for a file by the file's number, so an open file can still be read
and written when its name is gone. Paths are followed name by name, and the first obstacle on the way is the one
reported. -/
structure Disk where
  nodes : List (Place × Node) := []
  contents : Array (Array UInt8) := #[]
  /-- What the writes and flushes to come meet, in order. After these all succeed. -/
  outlook : List (Option Mishap) := []
  /-- The places at which nothing can be opened or made, and why. -/
  barred : List (Place × Fault) := []
deriving DecidableEq, Repr

namespace Disk

def maxName : Nat := 255

def maxPath : Nat := 4095

def node? (disk : Disk) (place : Place) : Option Node :=
  if place = [] then some .directory else disk.nodes.lookup place

def content (disk : Disk) (id : FileId) : Array UInt8 :=
  disk.contents.getD id #[]

def file? (disk : Disk) (place : Place) : Option (Array UInt8) :=
  match disk.node? place with
  | some (.file id) => some (disk.content id)
  | _ => none

def addNode (disk : Disk) (place : Place) (node : Node) : Disk :=
  { disk with nodes := disk.nodes ++ [(place, node)] }

def addFile (disk : Disk) (place : Place) : Disk × FileId :=
  let id := disk.contents.size
  ({ disk.addNode place (.file id) with contents := disk.contents.push #[] }, id)

def removeNode (disk : Disk) (place : Place) : Disk :=
  { disk with nodes := disk.nodes.filter fun entry => entry.1 ≠ place }

def truncate (disk : Disk) (id : FileId) : Disk :=
  { disk with contents := disk.contents.modify id fun _ => #[] }

/-- Octets laid over a content from `offset` on, with zeros in a gap before them. -/
def overlay (content : Array UInt8) (offset : Nat) (bytes : Bytes) : Array UInt8 :=
  if content.size ≤ offset then
    (content ++ Array.replicate (offset - content.size) 0) ++ bytes
  else
    content.extract 0 offset ++ bytes ++ content.extract (offset + bytes.length)

def lay (disk : Disk) (id : FileId) (offset : Nat) (bytes : Bytes) : Disk :=
  { disk with contents := disk.contents.modify id fun content => overlay content offset bytes }

def foresee (disk : Disk) : Disk × Option Mishap :=
  match disk.outlook with
  | [] => (disk, none)
  | mishap :: outlook => ({ disk with outlook }, mishap)

def write (disk : Disk) (id : FileId) (offset : Nat) (bytes : Bytes) : Disk × Except Fault Unit :=
  if bytes = [] then (disk, .ok ())
  else
    match disk.foresee with
    | (disk, none) => (disk.lay id offset bytes, .ok ())
    | (disk, some mishap) =>
      (disk.lay id offset (bytes.take mishap.stored), .error mishap.fault)

def flush (disk : Disk) : Disk × Except Fault Unit :=
  match disk.foresee with
  | (disk, none) => (disk, .ok ())
  | (disk, some mishap) => (disk, .error mishap.fault)

def read (disk : Disk) (id : FileId) (offset space : Nat) : Bytes :=
  ((disk.content id).extract offset (offset + space)).toList

def isDirectory (disk : Disk) (place : Place) : Bool :=
  disk.node? place = some .directory

def enter (disk : Disk) (place : Place) (segment : String) : Except Fault Place :=
  if !disk.isDirectory place then .error ⟨.notADirectory, "Not a directory"⟩
  else if segment = "." then .ok place
  else if segment = ".." then .ok place.dropLast
  else if maxName < segment.utf8ByteSize then .error ⟨.invalidFilename, "File name too long"⟩
  else if (disk.node? (place ++ [segment])).isSome then .ok (place ++ [segment])
  else .error ⟨.notFound, "No such file or directory"⟩

/-- A path followed up to its last segment. -/
structure Route where
  parent : Place
  last : Option String
  slash : Bool
deriving DecidableEq, Repr

def route (disk : Disk) (path : String) : Except Fault Route := do
  if path.toList.contains '\x00' then
    throw ⟨.invalidInput, "file name contained an unexpected NUL byte"⟩
  if path.isEmpty then throw ⟨.notFound, "No such file or directory"⟩
  if maxPath < path.utf8ByteSize then throw ⟨.invalidFilename, "File name too long"⟩
  let segments := (Path.parse path).segments
  let steps := segments.filter fun segment => segment ≠ ""
  let parent ← steps.dropLast.foldlM disk.enter []
  if !disk.isDirectory parent then throw ⟨.notADirectory, "Not a directory"⟩
  return { parent, last := steps.getLast?, slash := segments.getLast? = some "" }

def find (disk : Disk) (path : String) : Except Fault Place := do
  let route ← disk.route path
  let some segment := route.last | return []
  let place ← disk.enter route.parent segment
  if route.slash && !disk.isDirectory place then throw ⟨.notADirectory, "Not a directory"⟩
  return place

def Route.target? (route : Route) : Option Place :=
  match route.last with
  | some segment => if segment = "." || segment = ".." then none else some (route.parent ++ [segment])
  | none => none

def Route.tooLong (route : Route) : Bool :=
  route.last.any fun segment => maxName < segment.utf8ByteSize

/-- What a name given for a new or an old file leads to. -/
inductive Slot where
  | vacant (place : Place)
  | taken (place : Place) (node : Node)
deriving DecidableEq, Repr

/-- The slot that a file is to be created in. `special` is the fault of a path that ends in no
ordinary name. -/
def slot (disk : Disk) (path : String) (special : Fault) : Except Fault Slot := do
  let route ← disk.route path
  let some place := route.target? | throw special
  if route.slash then throw ⟨.isADirectory, "Is a directory"⟩
  if route.tooLong then throw ⟨.invalidFilename, "File name too long"⟩
  match disk.node? place with
  | none => return .vacant place
  | some node => return .taken place node

def access (disk : Disk) (place : Place) : Except Fault Unit :=
  match disk.barred.lookup place with
  | some fault => .error fault
  | none => .ok ()

/-- An open node: reading a directory fails at the first read, not before. -/
def openRead (disk : Disk) (path : String) : Except Fault Node := do
  let place ← disk.find path
  disk.access place
  match disk.node? place with
  | some node => return node
  | none => throw ⟨.notFound, "No such file or directory"⟩

def create (disk : Disk) (path : String) : Except Fault (Disk × FileId) := do
  match ← disk.slot path ⟨.isADirectory, "Is a directory"⟩ with
  | .vacant place =>
    disk.access place
    return disk.addFile place
  | .taken place (.file id) =>
    disk.access place
    return (disk.truncate id, id)
  | .taken _ .directory => throw ⟨.isADirectory, "Is a directory"⟩

def createNew (disk : Disk) (path : String) : Except Fault (Disk × FileId) := do
  match ← disk.slot path ⟨.alreadyExists, "File exists"⟩ with
  | .vacant place =>
    disk.access place
    return disk.addFile place
  | .taken .. => throw ⟨.alreadyExists, "File exists"⟩

def pathExists (disk : Disk) (path : String) : Bool :=
  match disk.find path with
  | .ok _ => true
  | .error _ => false

def directorySize : Nat := 4096

def nodeSize (disk : Disk) : Node → Nat
  | .directory => directorySize
  | .file id => (disk.content id).size

def size (disk : Disk) (path : String) : Except Fault Nat := do
  let place ← disk.find path
  match disk.node? place with
  | some node => return disk.nodeSize node
  | none => throw ⟨.notFound, "No such file or directory"⟩

def remove (disk : Disk) (path : String) : Disk :=
  match disk.find path with
  | .ok place =>
    match disk.node? place with
    | some (.file _) => disk.removeNode place
    | _ => disk
  | .error _ => disk

/-- The node at `origin` moves to `place`, and what bars it moves with it. -/
def moveNode (disk : Disk) (origin place : Place) (node : Node) : Disk :=
  { ((disk.removeNode origin).removeNode place).addNode place node with
    barred := ((disk.barred.lookup origin).map fun fault => (place, fault)).toList ++
      disk.barred.filter fun entry => entry.1 ≠ origin && entry.1 ≠ place }

def rename (disk : Disk) (old new : String) : Except Fault Disk := do
  let source ← disk.route old
  let goal ← disk.route new
  let some origin := source.target? | throw ⟨.resourceBusy, "Device or resource busy"⟩
  let some place := goal.target? | throw ⟨.resourceBusy, "Device or resource busy"⟩
  let some node := disk.node? origin | throw ⟨.notFound, "No such file or directory"⟩
  if goal.tooLong then throw ⟨.invalidFilename, "File name too long"⟩
  if source.slash || goal.slash then throw ⟨.notADirectory, "Not a directory"⟩
  if disk.isDirectory place then throw ⟨.isADirectory, "Is a directory"⟩
  return disk.moveNode origin place node

def addDirectories (disk : Disk) (place : Place) : Disk :=
  ((List.range (place.length + 1)).map place.take).foldl
    (fun disk place => if (disk.node? place).isSome then disk else disk.addNode place .directory) disk

def put (disk : Disk) (place : Place) (bytes : Bytes) : Disk :=
  match disk.node? place with
  | some (.file id) => (disk.truncate id).lay id 0 bytes
  | _ =>
    let (disk, id) := (disk.addDirectories place.dropLast).addFile place
    disk.lay id 0 bytes

def filesBelow (disk : Disk) (root : Place) : List (String × Array UInt8) :=
  disk.nodes.filterMap fun (place, node) =>
    match node with
    | .file id =>
      if root.isPrefixOf place then
        some ("/".intercalate (place.drop root.length), disk.content id)
      else none
    | .directory => none

end Disk

end Tftp
