namespace Tftp

inductive Fault.Kind where
  | notFound
  | permissionDenied
  | alreadyExists
  | storageFull
  | fileTooLarge
  | readOnlyFilesystem
  | other
  | interrupted
  | unexpectedEof
  | wouldBlock
  | timedOut
  | connectionRefused
  | networkUnreachable
  | invalidInput
  | invalidData
  | isADirectory
  | notADirectory
  | writeZero
  | brokenPipe
  | outOfMemory
  | unsupported
  | addrInUse
  | quotaExceeded
  | invalidFilename
  | resourceBusy
  | uncategorized
deriving DecidableEq, Repr

structure Fault where
  kind : Fault.Kind
  text : String := ""
deriving DecidableEq, Repr

end Tftp
