/-!
# Files and their paths

A small tree of files and the way a path leads through it. The command line reads its source text
from such a tree or from the disk; either way a file that cannot be read is a `FileError`.
-/

namespace Brainfuck.CommandLine

/-- Why a file cannot be read. -/
inductive FileError
  | notFound
  | notADirectory
  | isADirectory
  | nameTooLong
  /-- Any other reason, in the words of the system. -/
  | other (reason : String)
  deriving DecidableEq, Repr

def FileError.message : FileError → String
  | notFound => "No such file or directory (os error 2)"
  | notADirectory => "Not a directory (os error 20)"
  | isADirectory => "Is a directory (os error 21)"
  | nameTooLong => "File name too long (os error 36)"
  | other reason => reason

/-- A file, or a directory with named entries. -/
inductive Node
  | file (content : ByteArray)
  | directory (entries : List (String × Node))

/-- Where a path has led to. -/
inductive Place
  /-- A node of the tree and the directories above it, nearest first. -/
  | inside (here : Node) (above : List Node)
  /-- A directory outside of the tree, of whose entries nothing is known. -/
  | outside

/-- The number of bytes that a name may have. -/
def longestName : Nat := 255

/-- The number of bytes that a path may have. -/
def longestPath : Nat := 4095

/-- Follows one name of a path. -/
def Place.step (name : String) : Place → Except FileError Place
  | inside (.file _) _ => .error .notADirectory
  | inside (.directory entries) above =>
    if name = "" ∨ name = "." then .ok (inside (.directory entries) above)
    else if name = ".." then
      match above with
      | [] => .ok outside
      | parent :: above => .ok (inside parent above)
    else if longestName < name.utf8ByteSize then .error .nameTooLong
    else
      match entries.lookup name with
      | some node => .ok (inside node (.directory entries :: above))
      | none => .error .notFound
  | outside =>
    if name = "" ∨ name = "." ∨ name = ".." then .ok outside
    else if longestName < name.utf8ByteSize then .error .nameTooLong
    else .error .notFound

/-- Follows a path from the directory `root`. A path that starts with a slash starts outside. -/
def Node.follow (root : Node) (path : String) : Except FileError Place :=
  if path.isEmpty then .error .notFound
  else if longestPath < path.utf8ByteSize then .error .nameTooLong
  else
    let start := if path.startsWith "/" then .outside else .inside root []
    (path.splitToList (· = '/')).foldlM (fun place name => place.step name) start

/-- Reads the file to which a path leads. -/
def Node.read (root : Node) (path : String) : Except FileError ByteArray :=
  match root.follow path with
  | .error e => .error e
  | .ok (.inside (.file content) _) => .ok content
  | .ok _ => .error .isADirectory

end Brainfuck.CommandLine
