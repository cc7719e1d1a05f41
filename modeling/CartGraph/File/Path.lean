/-!
# Paths and places

A path is kept as its parts, without empty parts and without those that mean "here". Steps up are
kept in a path. The place that a path leads to has no steps up, except at its start where it leaves
the working directory, and starts with a slash if the path does.
-/
namespace CartGraph

structure Path where
  absolute : Bool := false
  parts : List String := []
  deriving DecidableEq, Repr

namespace Path

/-- The parts of a text between slashes, given the part that was begun. -/
def split (part : List Char) : List Char → List String
  | [] => [String.ofList part.reverse]
  | c :: rest =>
    if c == '/' then String.ofList part.reverse :: split [] rest else split (c :: part) rest

def ofText (s : String) : Path where
  absolute := s.toList.head? == some '/'
  parts := (split [] s.toList).filter fun part => !part.isEmpty && part != "."

def text (p : Path) : String :=
  if p.absolute then "/" ++ "/".intercalate p.parts
  else if p.parts.isEmpty then "."
  else "/".intercalate p.parts

def append (p : Path) (name : String) : Path := { p with parts := p.parts ++ [name] }

/-- The place from which the parts lead on. -/
def start (p : Path) : List String := if p.absolute then ["/"] else []

/-- The place that one part leads to. -/
def step (place : List String) (part : String) : List String :=
  if part != ".." then place ++ [part]
  else match place.getLast? with
    | none | some ".." => place ++ [".."]
    | some "/" => place
    | some _ => place.dropLast

/-- The place that a path leads to. -/
def place (p : Path) : List String := p.parts.foldl step p.start

/-- A path without steps up to a place. -/
def ofPlace : List String → Path
  | "/" :: parts => { absolute := true, parts }
  | parts => { parts }

end Path

end CartGraph
