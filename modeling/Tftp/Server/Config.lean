import Tftp.Net.Endpoint
import Tftp.Server.PortRange

namespace Tftp

def registeredPort : UInt16 := 69

structure ServerConfig where
  bind : Endpoint := { ip := .unspecified4, port := registeredPort }
  root : String
  portRange : Option PortRange := none
  allowWrites : Bool := true
deriving DecidableEq, Repr

namespace ServerConfig

/-- The milliseconds to wait after this many failing receptions in a row. -/
def pauseAfter (failures : Nat) : Nat :=
  min (10 * Nat.pow 2 (min (failures - 1) 10)) 1000

end ServerConfig

end Tftp
