namespace ThreeAddress.Command

/-- Why a file cannot be read or written. -/
inductive FileError where
  | notFound
  | notDirectory
  | isDirectory
  | nameTooLong
  | notText
  | other (message : String)
deriving DecidableEq

def FileError.message : FileError → String
  | .notFound => "No such file or directory (os error 2)"
  | .notDirectory => "Not a directory (os error 20)"
  | .isDirectory => "Is a directory (os error 21)"
  | .nameTooLong => "File name too long (os error 36)"
  | .notText => "stream did not contain valid UTF-8"
  | .other message => message

/-- A path as it is written. `steps` are the names between its slashes. -/
structure Path where
  rooted : Bool
  steps : List String
  slashed : Bool
deriving DecidableEq

def Path.ofString (s : String) : Path :=
  { rooted := s.startsWith "/"
    steps := (s.splitOn "/").filter (· ≠ "")
    slashed := s.endsWith "/" }

/-- A place by the names on the way to it from the working directory. A place outside of that starts
with steps up or with the root. -/
abbrev Location := List String

namespace Location

/-- The directory around a place. The root is around itself. -/
def parent (l : Location) : Location :=
  match l.getLast? with
  | none | some ".." => l ++ [".."]
  | some "/" => l
  | some _ => l.dropLast

def child (l : Location) (name : String) : Location :=
  if name = "." then l
  else if name = ".." then l.parent
  else l ++ [name]

/-- Whether a place is the working directory, around it, or the root. -/
def isAbove (l : Location) : Bool :=
  l.all fun name => name = "/" || name = ".."

end Location

namespace Path

def start (p : Path) : Location :=
  if p.rooted then ["/"] else []

/-- Where a path leads if all its steps exist. -/
def location (p : Path) : Location :=
  p.steps.foldl Location.child p.start

end Path

/-- What is asked of a place: of a directory to be searched, of a file to be read or written. -/
inductive Permission where
  | search
  | read
  | write
deriving DecidableEq

/-- Files with what they hold, and directories that exist besides those around the files. For all
other reasons that the system can have not to search, read or write a place there are refusals. -/
structure Files where
  entries : List (Location × ByteArray) := []
  directories : List Location := []
  refusals : List ((Permission × Location) × FileError) := []

namespace Files

def ofList (files : List (String × String)) : Files :=
  { entries := files.map fun f => ((Path.ofString f.1).location, f.2.toUTF8) }

def find? (files : Files) (l : Location) : Option ByteArray :=
  files.entries.lookup l

def isDirectory (files : Files) (l : Location) : Bool :=
  l.isAbove || files.directories.any (l.isPrefixOf ·) ||
    files.entries.any fun entry => l.isPrefixOf entry.1 && l ≠ entry.1

def permit (files : Files) (p : Permission) (l : Location) : Except FileError Unit :=
  match files.refusals.lookup (p, l) with
  | some e => .error e
  | none => .ok ()

/-- What stands at a place. -/
inductive Entry where
  | directory
  | file (content : ByteArray)
  | missing

/-- Looks up a name in a directory. A name has at most 255 bytes. -/
def lookUp (files : Files) (l : Location) (name : String) : Except FileError Entry := do
  files.permit .search l
  if files.isDirectory (l.child name) then .ok .directory
  else if 255 < name.utf8ByteSize then .error .nameTooLong
  else match files.find? (l.child name) with
    | some content => .ok (.file content)
    | none => .ok .missing

def enter (files : Files) (l : Location) (name : String) : Except FileError Location := do
  match ← files.lookUp l name with
  | .directory => .ok (l.child name)
  | .file _ => .error .notDirectory
  | .missing => .error .notFound

/-- The directory that holds the last step of a path, and that step. A path without steps is the
root or nothing. All of a path has less than 4096 bytes. -/
def reach (files : Files) (name : String) : Except FileError (Location × String) :=
  let p := Path.ofString name
  if 4096 ≤ name.utf8ByteSize then .error .nameTooLong
  else match p.steps.getLast? with
    | none => .error (if p.rooted then .isDirectory else .notFound)
    | some last => do
      let l ← p.steps.dropLast.foldlM files.enter p.start
      .ok (l, last)

/-- What a file holds. Only a directory may be written with a slash at the end. -/
def fetch (files : Files) (name : String) : Except FileError ByteArray := do
  let (l, last) ← files.reach name
  match ← files.lookUp l last with
  | .directory =>
    files.permit .read (l.child last)
    .error .isDirectory
  | .file content =>
    if (Path.ofString name).slashed then .error .notDirectory
    else
      files.permit .read (l.child last)
      .ok content
  | .missing => .error .notFound

def content? (files : Files) (name : String) : Option ByteArray :=
  (files.fetch name).toOption

def read (files : Files) (name : String) : Except FileError String := do
  match String.fromUTF8? (← files.fetch name) with
  | some text => .ok text
  | none => .error .notText

def replace (l : Location) (content : ByteArray) :
    List (Location × ByteArray) → List (Location × ByteArray)
  | [] => [(l, content)]
  | (k, c) :: rest => if k = l then (k, content) :: rest else (k, c) :: replace l content rest

/-- Writes a whole file, a new one if there is none. A slash at the end asks for a directory, and
that cannot be written. A write that is refused changes nothing. -/
def write (files : Files) (name text : String) : Except FileError Files := do
  let (l, last) ← files.reach name
  if (Path.ofString name).slashed then .error .isDirectory
  else match ← files.lookUp l last with
    | .directory => .error .isDirectory
    | .file _ | .missing =>
      files.permit .write (l.child last)
      .ok { files with entries := replace (l.child last) text.toUTF8 files.entries }

end Files

end ThreeAddress.Command
