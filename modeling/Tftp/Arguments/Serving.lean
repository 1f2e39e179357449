import Tftp.Arguments.Basic
import Tftp.Arguments.Value
import Tftp.Server.Config

namespace Tftp.Arguments

structure Serving where
  port : Nat
  bind : Ip
  portRange : Option String
  readOnly : Bool
  root : String
deriving DecidableEq, Repr

namespace Serving

def grammar : Grammar where
  flags :=
    [⟨"port", ["-p", "--port"], .option isPort⟩,
      ⟨"bind", ["--bind"], .option isIp⟩,
      ⟨"port-range", ["--port-range"], .option isAny⟩,
      ⟨"read-only", ["--read-only"], .switch⟩]
  places := 1

def ofReading (reading : Reading) : Option Serving := do
  return {
    port := ((reading.option? "port").bind port?).getD 69
    bind := ((reading.option? "bind").bind Ip.parse?).getD .unspecified4
    portRange := reading.option? "port-range"
    readOnly := reading.switch "read-only"
    root := ← reading.placed.head? }

def parse (words : List String) : Outcome Serving :=
  grammar.parse ofReading words

def config (serving : Serving) : Except PortRange.Trouble ServerConfig := do
  let portRange ← serving.portRange.mapM PortRange.parse
  return {
    bind := { ip := serving.bind, port := serving.port.toUInt16 }
    root := serving.root
    portRange
    allowWrites := !serving.readOnly }

end Serving

end Tftp.Arguments
