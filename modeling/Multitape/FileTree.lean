/-!
Files and directories as a finite tree. A path names the steps from a directory, parted by slashes.
A name has at most 255 bytes, and a path at least one and at most 4095. An entry whose path is
longer is listed by its directory but not found.

Scope. There are no links and no permissions, every name is a text, and nothing fails or changes
while a directory is listed or a file is read.
-/

set_option autoImplicit false
set_option relaxedAutoImplicit false

namespace Multitape

/-- What a file system answers instead of a file or a directory. -/
inductive PathFault
  | missing
  | notADirectory
  | isADirectory
  | nameTooLong
  | nullInPath
  | notText
  /-- Another answer, in words of its own. -/
  | other (text : String)
deriving DecidableEq, Repr

def PathFault.message : PathFault → String
  | missing => "No such file or directory (os error 2)"
  | notADirectory => "Not a directory (os error 20)"
  | isADirectory => "Is a directory (os error 21)"
  | nameTooLong => "File name too long (os error 36)"
  | nullInPath => "file name contained an unexpected NUL byte"
  | notText => "stream did not contain valid UTF-8"
  | other text => text

/-- A file, or a directory with its entries by name in the order in which it lists them. -/
inductive FileTree
  | file (bytes : ByteArray)
  | directory (entries : List (String × FileTree))

namespace FileTree

/-- The most bytes that the name of an entry may have. -/
def maxNameBytes : Nat := 255

/-- The most bytes that a path may have. -/
def maxPathBytes : Nat := 4095

/-- Whether a path begins at the root, wherever one stands. -/
def isAbsolute (path : String) : Bool := path.toList.head? == some '/'

/-- The steps of a path that has begun with the given characters, last one first. -/
def stepsFrom (begun : List Char) : List Char → List String
  | [] => [String.ofList begun.reverse]
  | c :: rest =>
    if c = '/' then String.ofList begun.reverse :: stepsFrom [] rest
    else stepsFrom (c :: begun) rest

/-- The steps of a path. -/
def steps (path : String) : List String := stepsFrom [] path.toList

/-- Whether a step stays in its directory: an empty one and a dot do. -/
def staysIn (step : String) : Bool := step == "" || step == "."

/-- Goes along steps, inside the enclosing directories. Two dots go from a directory to the one
around it. -/
def walk (enclosing : List FileTree) (here : FileTree) : List String → Except PathFault FileTree
  | [] => .ok here
  | step :: rest =>
    match here with
    | .file _ => .error .notADirectory
    | .directory entries =>
      if staysIn step then walk enclosing here rest
      else if step = ".." then
        match enclosing with
        | [] => walk [] here rest
        | outer :: more => walk more outer rest
      else if maxNameBytes < step.utf8ByteSize then .error .nameTooLong
      else
        match entries.lookup step with
        | none => .error .missing
        | some next => walk (here :: enclosing) next rest

/-- What stands at a path, which is followed from a working directory unless it is absolute. The
empty path leads nowhere. -/
def findFrom (root : FileTree) (working : List String) (path : String) :
    Except PathFault FileTree :=
  if path = "" then .error .missing
  else if path.toList.contains (Char.ofNat 0) then .error .nullInPath
  else if maxPathBytes < path.utf8ByteSize then .error .nameTooLong
  else root.walk [] (if isAbsolute path then steps path else working ++ steps path)

/-- The bytes of the file at a path, which is followed from a working directory unless it is
absolute. -/
def readFrom (root : FileTree) (working : List String) (path : String) :
    Except PathFault ByteArray := do
  match ← root.findFrom working path with
  | .file bytes => return bytes
  | .directory _ => .error .isADirectory

/-- What stands at a path. -/
def find (root : FileTree) (path : String) : Except PathFault FileTree :=
  root.findFrom [] path

/-- The bytes of the file at a path. -/
def read (root : FileTree) (path : String) : Except PathFault ByteArray :=
  root.readFrom [] path

/-- The entries of the directory at a path. -/
def list (root : FileTree) (path : String) : Except PathFault (List (String × FileTree)) := do
  match ← root.find path with
  | .file _ => .error .notADirectory
  | .directory entries => return entries

/-- Whether a directory is found at a path. None is where the path leads to nothing. -/
def isDirectory (root : FileTree) (path : String) : Bool :=
  match root.find path with
  | .ok (.directory _) => true
  | _ => false

/-- A path followed from the directory at another one, which an absolute path leaves aside. -/
def join (directory path : String) : String :=
  if isAbsolute path || directory == "" then path
  else if directory.toList.getLast? == some '/' then directory ++ path
  else directory ++ "/" ++ path

end FileTree

end Multitape
