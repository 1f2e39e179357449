import Tftp.Fault

namespace Tftp

structure ErrorCode where
  number : UInt16
deriving DecidableEq, Repr

namespace ErrorCode

def undefined : ErrorCode := ⟨0⟩
def fileNotFound : ErrorCode := ⟨1⟩
def accessViolation : ErrorCode := ⟨2⟩
def diskFull : ErrorCode := ⟨3⟩
def illegalOperation : ErrorCode := ⟨4⟩
def unknownTransfer : ErrorCode := ⟨5⟩
def fileAlreadyExists : ErrorCode := ⟨6⟩
def noSuchUser : ErrorCode := ⟨7⟩
def optionNegotiation : ErrorCode := ⟨8⟩

def message (code : ErrorCode) : String :=
  match code.number with
  | 1 => "File not found"
  | 2 => "Access violation"
  | 3 => "Disk full or allocation exceeded"
  | 4 => "Illegal TFTP operation"
  | 5 => "Unknown transfer ID"
  | 6 => "File already exists"
  | 7 => "No such user"
  | 8 => "Option negotiation failed"
  | _ => "Undefined error"

def ofFault : Fault.Kind → ErrorCode
  | .notFound => fileNotFound
  | .permissionDenied | .readOnlyFilesystem => accessViolation
  | .alreadyExists => fileAlreadyExists
  | .storageFull | .fileTooLarge => diskFull
  | _ => undefined

end ErrorCode

end Tftp
