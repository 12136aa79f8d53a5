import YoloLang.Files.Basic
import YoloLang.Files.Path

/-!
A tree of folders and files, and how paths lead through it. A path is followed segment by segment
from the root or from the home folder. Each segment needs a folder to be looked up in, so a slash
or a dot at the end of a path demands a folder, and the empty path leads nowhere.
-/

namespace YoloLang

/-- Names from the root inwards. -/
abbrev Location := List (List Char)

inductive Entry where
  | file (bytes : ByteArray)
  | folder

structure Disk where
  entries : List (Location × Entry)
  home : Location

namespace Disk

/-- An empty home folder below the root. -/
def empty : Disk := ⟨[([['h', 'o', 'm', 'e']], .folder)], [['h', 'o', 'm', 'e']]⟩

def entry? (d : Disk) (here : Location) : Option Entry :=
  if here.isEmpty then some .folder else d.entries.lookup here

def put (d : Disk) (here : Location) (entry : Entry) : Disk :=
  { d with entries := (here, entry) :: d.entries.filter (·.1 != here) }

def isFolder (d : Disk) (here : Location) : Bool :=
  match d.entry? here with
  | some .folder => true
  | _ => false

/-- Longest name of a file or folder, in bytes. -/
def nameLimit : Nat := 255

/-- A path has fewer bytes than this. -/
def pathLimit : Nat := 4096

def checkPath (path : String) : Except FileFault Unit :=
  if '\x00' ∈ path.toList then .error .nulInPath
  else if path.isEmpty then .error .notFound
  else if pathLimit ≤ path.utf8ByteSize then .error .nameTooLong
  else .ok ()

def origin (d : Disk) (path : String) : Location :=
  if path.toList.head? = some '/' then [] else d.home

def isTooLong (name : List Char) : Bool := nameLimit < (String.ofList name).utf8ByteSize

def walk (d : Disk) (here : Location) : List (List Char) → Except FileFault Location
  | [] => .ok here
  | segment :: rest =>
      if !d.isFolder here then .error .notADirectory
      else if Path.namesNothing segment then d.walk here rest
      else if segment = ['.', '.'] then d.walk here.dropLast rest
      else if isTooLong segment then .error .nameTooLong
      else if (d.entry? (here ++ [segment])).isSome then d.walk (here ++ [segment]) rest
      else .error .notFound

/-- Where a path leads, something being there. -/
def resolve (d : Disk) (path : String) : Except FileFault Location := do
  checkPath path
  d.walk (d.origin path) (Path.segments path.toList)

/-- Where a file of this path would be written. The folder around it must be there; the file need
not. -/
def destination (d : Disk) (path : String) : Except FileFault Location := do
  checkPath path
  let segments := Path.segments path.toList
  let named := (segments.reverse.dropWhile List.isEmpty).reverse
  match named.getLast? with
  | none => throw .isADirectory
  | some name =>
      let folder ← d.walk (d.origin path) named.dropLast
      if !d.isFolder folder then throw .notADirectory
      else if name = ['.'] ∨ name = ['.', '.'] ∨ named.length < segments.length then
        throw .isADirectory
      else if isTooLong name then throw .nameTooLong
      else if d.isFolder (folder ++ [name]) then throw .isADirectory
      else return folder ++ [name]

def read (d : Disk) (path : String) : Except FileFault String := do
  match d.entry? (← d.resolve path) with
  | some (.file bytes) =>
      match String.fromUTF8? bytes with
      | some text => return text
      | none => throw .notText
  | some .folder => throw .isADirectory
  | none => throw .notFound

def status (d : Disk) (path : String) : Except FileFault Status := do
  return if d.isFolder (← d.resolve path) then .folder else .file

def write (d : Disk) (path text : String) : Except FileFault Disk := do
  return d.put (← d.destination path) (.file text.toUTF8)

instance : Files (StateM Disk) where
  read path d := (d.read path, d)
  status path d := (d.status path, d)
  write path text d :=
    match d.write path text with
    | .ok after => (.ok (), after)
    | .error fault => (.error fault, d)

/-! ### Laying out a disk -/

/-- Follows a path and makes the folders that are missing, as far as files and names leave room. -/
def makeFolders (d : Disk) (here : Location) : List (List Char) → Disk
  | [] => d
  | segment :: rest =>
      if !d.isFolder here then d
      else if Path.namesNothing segment then d.makeFolders here rest
      else if segment = ['.', '.'] then d.makeFolders here.dropLast rest
      else if isTooLong segment then d
      else
        let there := here ++ [segment]
        (if (d.entry? there).isSome then d else d.put there .folder).makeFolders there rest

/-- Puts an entry at a path, and folders on the way to it where there is nothing yet. What cannot be
put there is left out. -/
def place (d : Disk) (path : String) (entry : Entry) : Disk :=
  let segments := Path.segments path.toList
  match entry with
  | .folder => d.makeFolders (d.origin path) segments
  | .file _ =>
      let after := d.makeFolders (d.origin path) (Path.dropIdle segments).dropLast
      match after.destination path with
      | .ok here => after.put here entry
      | .error _ => after

/-- Takes away the entry that a path leads to and all that lies in it. -/
def remove (d : Disk) (path : String) : Disk :=
  match d.resolve path with
  | .ok here => { d with entries := d.entries.filter fun (l, _) => !here.isPrefixOf l }
  | .error _ => d

/-- Every entry below the home folder, by its path from there. -/
def listing (d : Disk) : List (String × Entry) :=
  d.entries.filterMap fun (l, entry) =>
    if d.home.isPrefixOf l && d.home.length < l.length then
      some (String.ofList (Path.joined (l.drop d.home.length)), entry)
    else none

end Disk
end YoloLang
