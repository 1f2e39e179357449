import Tftp.Arguments.Basic
import Tftp.Arguments.Value
import Tftp.Options.Policy

namespace Tftp.Arguments

structure Fetching where
  address : String
  port : Nat
  source : Option String
  target : String
  mode : Mode
  blksize : Option Nat
  timeout : Option Nat
  tsize : Bool
deriving DecidableEq, Repr

namespace Fetching

def grammar : Grammar where
  flags :=
    [⟨"address", ["-a", "--address"], .option isAny⟩,
      ⟨"port", ["-p", "--port"], .option isPort⟩,
      ⟨"from", ["-f", "--from"], .option isAny⟩,
      ⟨"to", ["-t", "--to"], .option isAny⟩,
      ⟨"mode", ["--mode"], .option isMode⟩,
      ⟨"blksize", ["--blksize"], .option isPort⟩,
      ⟨"timeout", ["--timeout"], .option isOctet⟩,
      ⟨"tsize", ["--tsize"], .switch⟩]
  places := 0

def ofReading (reading : Reading) : Option Fetching := do
  return {
    address := ← reading.option? "address"
    port := ((reading.option? "port").bind port?).getD 69
    source := reading.option? "from"
    target := ← reading.option? "to"
    mode := ((reading.option? "mode").bind Mode.parse?).getD .octet
    blksize := (reading.option? "blksize").bind port?
    timeout := (reading.option? "timeout").bind octet?
    tsize := reading.switch "tsize" }

def parse (words : List String) : Outcome Fetching :=
  grammar.parse ofReading words

def sizeIfAsked (fetching : Fetching) : Option Nat :=
  if fetching.tsize && fetching.source.isSome then some 0 else none

/-- The options to ask for. Only a download asks for the size of the file. -/
def options (fetching : Fetching) : Options :=
  let asked := [(Options.Known.blksize, fetching.blksize), (.timeout, fetching.timeout),
    (.tsize, fetching.sizeIfAsked)]
  asked.foldl (fun options (known, value) =>
    match value with
    | some value => options.insert known.name (toString value)
    | none => options) {}

end Fetching

end Tftp.Arguments
