import Tftp.Arguments.Fetching
import Tftp.Arguments.Serving

namespace Tftp

structure Reply where
  lines : List String
  status : UInt32 := 0

namespace Reply

def usage : Reply where
  lines := ["usage: server [-p PORT] [--bind ADDRESS] [--port-range LO-HI] [--read-only] ROOT",
    "       client -a ADDRESS [-p PORT] [-f FROM] -t TO [--mode MODE] [--blksize N] [--timeout N]",
    "              [--tsize]"]

def misuse : Reply :=
  { usage with status := 1 }

def ofServing (serving : Arguments.Serving) : Reply :=
  match serving.config with
  | .error trouble => { lines := [trouble.message], status := 1 }
  | .ok config =>
    let ports := match config.portRange with
      | none => "any"
      | some range => toString range.low ++ "-" ++ toString range.high
    let writes := if config.allowWrites then "allowed" else "refused"
    { lines := ["root: " ++ config.root, "bind: " ++ config.bind.text, "ports: " ++ ports,
        "writes: " ++ writes] }

def ofFetching (fetching : Arguments.Fetching) : Reply :=
  let request := match fetching.source with
    | some remote => "read " ++ remote ++ " into " ++ fetching.target
    | none => "write " ++ fetching.target
  { lines := ["server: " ++ fetching.address ++ " port " ++ toString fetching.port,
      "request: " ++ request, "mode: " ++ fetching.mode.name,
      "options: " ++ OptionField.line fetching.options.fields] }

def ofOutcome {α : Type} (shown : α → Reply) : Arguments.Outcome α → Reply
  | .parsed value => shown value
  | .help => usage
  | .misuse => misuse

def ofWords : List String → Reply
  | "server" :: words => ofOutcome ofServing (Arguments.Serving.parse words)
  | "client" :: words => ofOutcome ofFetching (Arguments.Fetching.parse words)
  | _ => misuse

end Reply

end Tftp

def main (words : List String) : IO UInt32 := do
  let reply := Tftp.Reply.ofWords words
  for line in reply.lines do
    if reply.status = 0 then IO.println line else IO.eprintln line
  return reply.status
