import Tftp.Disk.Path
import Tftp.Net.Endpoint
import Tftp.Session.Failure

namespace Tftp

/-- Why a request starts no transfer. -/
inductive Rejection where
  | badRequest (detail : String)
  | forbidden (detail : String)
  | socket (failure : ExchangeFailure)
deriving DecidableEq, Repr

namespace Rejection

def message : Rejection → String
  | badRequest detail => "Invalid request: " ++ detail
  | forbidden detail => "Forbidden request: " ++ detail
  | socket failure => "Unable to set up transfer socket: " ++ failure.message

def code : Rejection → ErrorCode
  | badRequest _ => .illegalOperation
  | forbidden _ => .accessViolation
  | socket _ => .undefined

end Rejection

def relativeName (requested : String) : String :=
  String.ofList (requested.toList.dropWhile (· = '/'))

/-- Names are looked up below the root of the server, slashes in front of them are dropped, and a name that climbs is
refused. -/
def confine (root requested : String) : Except Rejection String :=
  let relative := relativeName requested
  if relative = "" then .error (.badRequest "Empty file name")
  else if (Path.parse relative).components.contains .up then
    .error (.forbidden ("Refusing path outside of the server root: \"" ++ requested ++ "\""))
  else .ok (Path.join root relative)

end Tftp
