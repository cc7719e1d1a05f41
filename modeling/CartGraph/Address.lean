import CartGraph.Text.Digit

/-!
# Addresses of requests

An address is a path that may carry a query and a fragment. However it is written, its path starts
at the root. Dot segments are resolved before escapes are decoded, so an escaped dot is part of a
name like any other character.
-/
namespace CartGraph

structure Address where
  path : String
  query : List (String × String) := []
  deriving DecidableEq, Repr

namespace Address

def hexByte? (b : UInt8) : Option Nat := Text.hexValue? (Char.ofNat b.toNat)

/-- Decodes the escapes of bytes. A percent sign that starts no escape stands for itself. -/
def unescapeBytes : List UInt8 → List UInt8
  | c :: a :: b :: rest =>
    match hexByte? a, hexByte? b with
    | some high, some low =>
      if c == 0x25 then UInt8.ofNat (16 * high + low) :: unescapeBytes rest
      else c :: unescapeBytes (a :: b :: rest)
    | _, _ => c :: unescapeBytes (a :: b :: rest)
  | bytes => bytes

/-- Decodes the escapes of a text, unless they spell no text. -/
def unescape (s : String) : String :=
  (String.fromUTF8? (unescapeBytes s.toUTF8.toList).toByteArray).getD s

/-- Steps over one segment of a path, given the segments before it. -/
def step (before : List String) (segment : String) : List String :=
  if segment == "." then before
  else if segment == ".." then (if before.length ≤ 1 then before else before.dropLast)
  else before ++ [segment]

/-- The path from the root, without dot segments. -/
def rooted (cs : List Char) : String :=
  let rest := match cs with
    | '/' :: '/' :: rest => rest.dropWhile (· != '/')
    | cs => cs
  let segments := "" :: (String.ofList (rest.dropWhile (· == '/'))).splitOn "/"
  let path := "/".intercalate (segments.foldl step [])
  if path.isEmpty then "/" else path

/-- A value of a query, in which a plus sign stands for a blank. -/
def queryText (cs : List Char) : String :=
  unescape (String.ofList (cs.map fun c => if c == '+' then ' ' else c))

/-- The fields of a query. A field without a value is empty. -/
def queryFields (query : String) : List (String × String) :=
  ((query.splitOn "&").filter fun field => !field.isEmpty).map fun field =>
    (queryText (field.toList.takeWhile (· != '=')),
      queryText ((field.toList.dropWhile (· != '=')).drop 1))

/-- The address that a text denotes. Both sides of a request decode its path. -/
def ofText (s : String) : Address :=
  let cs := s.toList.takeWhile (· != '#')
  { path := unescape (unescape (rooted (cs.takeWhile (· != '?'))))
    query := queryFields (String.ofList ((cs.dropWhile (· != '?')).drop 1)) }

end Address

end CartGraph
