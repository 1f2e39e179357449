import Tftp.Disk.Path
import Tftp.Fault

namespace Tftp

/-- The name with `.part` after it, in the same directory. -/
def partialPath (dest : String) : Except Fault String :=
  let path := Path.parse dest
  match path.fileName? with
  | some name => .ok (path.withFileName (name ++ ".part")).text
  | none => .error ⟨.invalidInput, dest ++ " does not name a file"⟩

end Tftp
