import Multitape.Failure
import Multitape.Text.Ascending

/-!
Definitions from texts and files, none of which may be larger than a fixed number of bytes, and the
definitions of a whole directory. An entry of a directory counts if its extension is `tm` and no
directory is found at its path; the entries are told in ascending order of their names.
-/

set_option autoImplicit false
set_option relaxedAutoImplicit false

namespace Multitape.Definition

/-- Whether the extension of a file name is `tm`: what follows the last dot, where there is
something before it. -/
def isDefinitionName (name : String) : Bool :=
  let reversed := name.toList.reverse
  reversed.take 3 == ['m', 't', '.'] && reversed.length > 3

/-- The definition that a text writes, if the text is not too large. -/
def ofText (text : String) : Except Failure Definition :=
  if text.utf8ByteSize > maxDefinitionBytes then .error (.textTooLarge text.utf8ByteSize)
  else (parse text.toList).mapError .definition

/-- The definition that a file holds, given its path and its bytes or why there are none. -/
def ofFile (path : String) : Except PathFault ByteArray → Except Failure Definition
  | .error fault => .error (.unreadableFile path fault)
  | .ok bytes =>
    if bytes.size > maxDefinitionBytes then .error (.fileTooLarge path bytes.size)
    else match String.fromUTF8? bytes with
      | none => .error (.unreadableFile path .notText)
      | some text => (parse text.toList).mapError .definition

/-- The definition in the file at a path. -/
def load (root : FileTree) (path : String) : Except Failure Definition :=
  ofFile path (root.read path)

/-- The names of the entries that count for the directory at a path, in ascending order. An entry that
cannot be looked up is not taken for a directory. -/
def definitionNames (root : FileTree) (path : String) (entries : List (String × FileTree)) :
    List String :=
  Text.ascending <| (entries.map Prod.fst).filter fun name ↦
    !root.isDirectory (FileTree.join path name) && isDefinitionName name

/-- The definitions of a directory with their paths. A file that holds none does not keep the others
from being told. -/
def loadDirectory (root : FileTree) (path : String) : List (Except Failure (String × Definition)) :=
  match root.list path with
  | .error fault => [.error (.unreadableDirectory path fault)]
  | .ok entries => (definitionNames root path entries).map fun name ↦
    let file := FileTree.join path name
    match load root file with
    | .ok d => .ok (file, d)
    | .error cause => .error (.unloadable file cause)

end Multitape.Definition
