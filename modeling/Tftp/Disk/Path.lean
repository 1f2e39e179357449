namespace Tftp

/-- Slashes part the segments of a path. Empty segments do not count, nor does a `.`, unless it opens a path that does
not start at the top. -/
structure Path where
  rooted : Bool
  /-- All that stands between slashes, empty stretches and dots included. -/
  segments : List String
deriving DecidableEq, Repr

namespace Path

inductive Component where
  | top
  | here
  | up
  | name (s : String)
deriving DecidableEq, Repr

def splitChars : List Char → List (List Char)
  | [] => [[]]
  | c :: cs =>
    if c = '/' then [] :: splitChars cs
    else match splitChars cs with
      | [] => [[c]]
      | segment :: segments => (c :: segment) :: segments

def segmentsOf (cs : List Char) : List String :=
  (splitChars cs).map String.ofList

def parse (s : String) : Path :=
  match s.toList with
  | '/' :: cs => { rooted := true, segments := segmentsOf cs }
  | cs => { rooted := false, segments := segmentsOf cs }

def text (path : Path) : String :=
  (if path.rooted then "/" else "") ++ "/".intercalate path.segments

def idle (segment : String) : Bool :=
  segment = "" || segment = "."

def componentOf? (segment : String) : Option Component :=
  if idle segment then none
  else if segment = ".." then some .up
  else some (.name segment)

def opening (path : Path) : List Component :=
  if path.rooted then [.top]
  else if path.segments.head? = some "." then [.here] else []

def components (path : Path) : List Component :=
  path.opening ++ path.segments.filterMap componentOf?

/-- The path without the idle segments at its end. A `.` that opens it stays. -/
def trim (path : Path) : Path :=
  match path.segments with
  | [] => path
  | first :: others =>
    match (others.reverse.dropWhile idle).reverse with
    | [] =>
      if first = "" || (first = "." && path.rooted) then { path with segments := [] }
      else { path with segments := [first] }
    | others => { path with segments := first :: others }

def fileName? (path : Path) : Option String :=
  match path.components.getLast? with
  | some (.name s) => some s
  | _ => none

def withFileName (path : Path) (name : String) : Path :=
  let parent := trim { path with segments := path.trim.segments.dropLast }
  { parent with segments := parent.segments ++ [name] }

def join (root relative : String) : String :=
  if relative.startsWith "/" then relative
  else if root.isEmpty || root.endsWith "/" then root ++ relative
  else root ++ "/" ++ relative

end Path

end Tftp
