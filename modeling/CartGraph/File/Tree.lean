import CartGraph.Error
import CartGraph.File.Path

/-!
# File trees

The text files that a command can see, by their places. A directory is there when it is listed or
when a file is below it.
-/
namespace CartGraph

structure FileTree where
  files : List (List String × String) := []
  directories : List (List String) := []
  deriving DecidableEq, Repr

/-- What stands at a place. -/
inductive FileEntry where
  | file (text : String)
  | directory
  deriving DecidableEq, Repr

namespace FileTree

/-- Files given by the texts of their paths. -/
def ofFiles (files : List (String × String)) : FileTree where
  files := files.map fun f => ((Path.ofText f.1).place, f.2)

/-- The working directory and those above it are always there. -/
def isDirectory (t : FileTree) (place : List String) : Bool :=
  (place.all fun part => part == ".." || part == "/") || t.directories.contains place ||
    t.files.any fun f => place.isPrefixOf f.1 && place != f.1

def entryAt (t : FileTree) (place : List String) : Option FileEntry :=
  match t.files.lookup place with
  | some text => some (.file text)
  | none => if t.isDirectory place then some .directory else none

/-- Follows parts from a place. Only a directory leads on. -/
def follow (t : FileTree) (place : List String) : List String → Option FileEntry
  | [] => t.entryAt place
  | part :: rest => if t.isDirectory place then t.follow (Path.step place part) rest else none

/-- What a path leads to. -/
def entry? (t : FileTree) (p : Path) : Option FileEntry := t.follow p.start p.parts

/-- The place of a directory that is made, with those above it, where it is missing. A file can not
become a directory. -/
def makeDirectory (t : FileTree) (place : List String) : List String → Except Error (List String)
  | [] => .ok place
  | part :: rest =>
    let next := Path.step place part
    match t.entryAt next with
    | some (.file _) =>
      if rest.isEmpty then .error (.fileExists (Path.ofPlace next).text)
      else .error (.notDirectory (Path.ofPlace next).text)
    | _ => t.makeDirectory next rest

/-- The place of a file that is written into a directory. -/
def placeOf (t : FileTree) (directory : Path) (name : String) : Except Error (List String) := do
  let place ← t.makeDirectory directory.start directory.parts
  let target := place ++ [name]
  if t.isDirectory target then throw (.isDirectory (Path.ofPlace target).text)
  return target

end FileTree

end CartGraph
