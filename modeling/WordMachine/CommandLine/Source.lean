import WordMachine.Text.Utf8

/-!
# Sources

A command reads its text from a file, or from standard input under the name `-`. A file name is
brought to a plain form first: empty parts and parts that are a single dot say nothing, and a name
of nothing else is the current directory.
-/

namespace WordMachine.CommandLine

/-- Why a file cannot be read. -/
inductive FileFault where
  | missing
  | notADirectory
  | isADirectory
  | nameTooLong
  | denied
  deriving DecidableEq, Repr

def FileFault.text : FileFault → String
  | .missing => "[Errno 2] No such file or directory"
  | .notADirectory => "[Errno 20] Not a directory"
  | .isADirectory => "[Errno 21] Is a directory"
  | .nameTooLong => "[Errno 36] File name too long"
  | .denied => "[Errno 13] Permission denied"

/-- Why a source gives no text. -/
inductive SourceFault where
  | unreadable (path : String) (fault : FileFault)
  | undecodable (defect : Text.Utf8.Defect)
  | badName
  deriving DecidableEq, Repr

def SourceFault.message : SourceFault → String
  | .unreadable path fault => fault.text ++ ": " ++ Text.quoted path.toList
  | .undecodable defect => defect.message
  | .badName => "embedded null byte"

/-- A way to look up the bytes of a file. -/
abbrev Files := String → Except FileFault (List Nat)

/-- The root a path starts from: two slashes are a root of their own, any other number is one. -/
def pathRoot : List Char → List Char
  | '/' :: '/' :: '/' :: _ => ['/']
  | '/' :: '/' :: _ => ['/', '/']
  | '/' :: _ => ['/']
  | _ => []

/-- The plain form of a path. -/
def plainPath (path : String) : String :=
  let parts := (path.toList.splitOn '/').filter fun part => part != [] && part != ['.']
  let plain := pathRoot path.toList ++ ['/'].intercalate parts
  if plain.isEmpty then "." else String.ofList plain

/-- The text of a source, given the bytes of standard input. -/
def readSource (files : Files) (input : List Nat) (path : String) :
    Except SourceFault (List Char) := do
  let bytes ←
    if path == "-" then .ok input
    else if path.toList.contains (Char.ofNat 0) then .error .badName
    else (files (plainPath path)).mapError (.unreadable (plainPath path))
  (Text.Utf8.decode bytes).mapError .undecodable

/-! ## A working directory -/

/-- The longest name of a file, in bytes. -/
def maxName : Nat := 255

/-- The longest path, in bytes. -/
def maxPath : Nat := 4095

/-- The parts of a path in plain form, without its root. -/
def pathParts (path : String) : List String :=
  if plainPath path == "." then []
  else (((plainPath path).toList.splitOn '/').filter (· != [])).map String.ofList

/-- The directories that stand under the root of every system. -/
def rootDirectories : List String :=
  ["bin", "boot", "dev", "etc", "home", "lib", "media", "mnt", "opt", "proc", "root", "run", "sbin",
   "srv", "sys", "tmp", "usr", "var"]

/-- Where a path has led so far: to a directory in the working directory, given by the parts of its
path, to the root or a directory under it, to another directory outside, or to a file. -/
inductive Place where
  | inside (parts : List String)
  | root
  | underRoot (name : String)
  | outside
  | file (bytes : List Nat)

/-- Goes on by one part of a path. Nothing is known of what other directories outside hold, but that
the null device gives no bytes. -/
def Place.enter (entries : List (List String × List Nat)) (place : Place) (part : String) :
    Except FileFault Place :=
  match place with
  | .file _ => .error .notADirectory
  | .root =>
    if part == ".." then .ok .root
    else if rootDirectories.contains part then .ok (.underRoot part)
    else .error (if maxName < part.utf8ByteSize then .nameTooLong else .missing)
  | .underRoot name =>
    if part == ".." then .ok .root
    else if name == "dev" && part == "null" then .ok (.file [])
    else .error (if maxName < part.utf8ByteSize then .nameTooLong else .missing)
  | .outside =>
    if part == ".." then .ok .outside
    else .error (if maxName < part.utf8ByteSize then .nameTooLong else .missing)
  | .inside parts =>
    let path := parts ++ [part]
    if part == ".." then .ok (if parts.isEmpty then .outside else .inside parts.dropLast)
    else if maxName < part.utf8ByteSize then .error .nameTooLong
    else
      match entries.lookup path with
      | some bytes => .ok (.file bytes)
      | none =>
        if entries.any fun (other, _) => path.isPrefixOf other then .ok (.inside path)
        else .error .missing

/-- A working directory that holds the given files and nothing else. A path is followed part by
part, and the first part that leads nowhere is the fault. -/
def directory (entries : List (String × List Nat)) : Files := fun path =>
  let entries := entries.map fun (name, bytes) => (pathParts name, bytes)
  let start := if (pathRoot path.toList).isEmpty then Place.inside [] else .root
  if maxPath < path.utf8ByteSize then .error .nameTooLong
  else
    match (pathParts path).foldlM (Place.enter entries) start with
    | .error fault => .error fault
    | .ok (.file bytes) => .ok bytes
    | .ok _ => .error .isADirectory

end WordMachine.CommandLine
