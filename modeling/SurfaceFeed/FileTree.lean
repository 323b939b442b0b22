import SurfaceFeed.Fields
import SurfaceFeed.Text.Slashes
import SurfaceFeed.Text.Utf8

/-!
# Files and folders

## Locations and paths

A location is a file or a folder together with the folders around it.  A path is
followed part by part, from the working folder or, if a slash comes first, from
the outermost one.  An empty part and a dot stay, two dots lead to the folder
around, and any other part is a name.  All of them need a folder to start from,
so that nothing may follow a file, not even a slash.
-/

namespace SurfaceFeed

/-- A device can be read like a file and is none. -/
inductive FileTree where
  | file (content : Bytes)
  | device (content : Bytes)
  | folder (entries : List (String × FileTree))

/-- What a path leads to. -/
inductive Entry where
  | file (content : Bytes)
  | device (content : Bytes)
  | directory
  deriving DecidableEq, Repr

/-- Why a path leads nowhere. -/
inductive PathError where
  | nulByte
  | missing
  | denied
  | notDirectory
  | nameTooLong
  deriving DecidableEq, Repr

def PathError.message : PathError -> String
  | nulByte => "file name contained an unexpected NUL byte"
  | missing => "No such file or directory (os error 2)"
  | denied => "Permission denied (os error 13)"
  | notDirectory => "Not a directory (os error 20)"
  | nameTooLong => "File name too long (os error 36)"

namespace Entry

/-- The content of a file, and of nothing else. -/
def content? : Entry -> Option Bytes
  | file content => some content
  | device _ | directory => none

end Entry

namespace FileTree

def entry : FileTree -> Entry
  | file content => .file content
  | device content => .device content
  | folder _ => .directory

def entries : FileTree -> List (String × FileTree)
  | folder entries => entries
  | file _ | device _ => []

/-- Puts a file under a path of names, with the folders that it needs. -/
def put (tree : FileTree) (names : List String) (content : Bytes) : FileTree :=
  match names with
  | [] => file content
  | name :: rest =>
      let inner := (Fields.find? tree.entries name).getD (folder [])
      folder (Fields.insert tree.entries name (put inner rest content))

/-- The names in a path that goes downwards only. -/
def namesOf (path : String) : List String :=
  ((Text.splitSlashes path.toList).map String.ofList).filter fun part =>
    part != "" && part != "."

/-- The folder that holds just the files with these paths. -/
def ofFiles (files : List (String × Bytes)) : FileTree :=
  files.foldl (fun tree file => tree.put (namesOf file.1) file.2) (folder [])

end FileTree

/-! ## Following a path -/

/-- The folders around a location stand with the nearest first. -/
structure Location where
  here : FileTree
  around : List FileTree

namespace Location

/-- The most bytes in a name. -/
def nameLimit : Nat := 255

/-- The most bytes in a path. -/
def pathLimit : Nat := 4095

def outermost (location : Location) : Location :=
  ⟨location.around.getLastD location.here, []⟩

/-- The outermost folder is around itself. -/
def leave (location : Location) : Location :=
  match location.around with
  | [] => location
  | folder :: around => ⟨folder, around⟩

def step (location : Location) (part : String) : Except PathError Location :=
  match location.here with
  | .file _ | .device _ => .error .notDirectory
  | .folder entries =>
      if part = "" ∨ part = "." then .ok location
      else if part = ".." then .ok location.leave
      else if nameLimit < part.utf8ByteSize then .error .nameTooLong
      else
        match Fields.find? entries part with
        | some tree => .ok ⟨tree, location.here :: location.around⟩
        | none => .error .missing

def follow (location : Location) (parts : List String) : Except PathError Location :=
  parts.foldlM step location

/-- What a path leads to from the working folder `location`. -/
def find (location : Location) (path : String) : Except PathError Entry :=
  if path.toList.contains '\x00' then .error .nulByte
  else if path = "" then .error .missing
  else if pathLimit < path.utf8ByteSize then .error .nameTooLong
  else do
    let start := if path.toList.head? = some '/' then location.outermost else location
    let found ← follow start ((Text.splitSlashes path.toList).map String.ofList)
    .ok found.here.entry

end Location
end SurfaceFeed
