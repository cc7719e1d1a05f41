/-!
# Blanks and trimming

The blanks are the white space of all scripts together with the four information separators. The
zero-width space and the byte order mark are not among them.
-/
namespace CartGraph.Text

def isBlank (c : Char) : Bool :=
  let n := c.toNat
  (9 ≤ n && n ≤ 13) || (28 ≤ n && n ≤ 32) || n == 0x85 || n == 0xa0 || n == 0x1680 ||
    (0x2000 ≤ n && n ≤ 0x200a) || n == 0x2028 || n == 0x2029 || n == 0x202f || n == 0x205f ||
    n == 0x3000

/-- Drops what satisfies `p` from both ends. -/
def trimBy (p : Char → Bool) (cs : List Char) : List Char :=
  ((cs.dropWhile p).reverse.dropWhile p).reverse

def strip (s : String) : String := String.ofList (trimBy isBlank s.toList)

def startsWith (start : String) (s : String) : Bool := start.toList.isPrefixOf s.toList

def endsWith (ending : String) (s : String) : Bool := ending.toList.isSuffixOf s.toList

end CartGraph.Text
