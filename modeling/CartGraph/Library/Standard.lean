import CartGraph.Catalogue.Basic
import CartGraph.Library.Control
import CartGraph.Library.Data
import CartGraph.Library.Console

/-!
# The standard catalogue
-/
namespace CartGraph.Library

def types : List NodeType := control ++ data ++ console

def catalogue : Catalogue where
  types := types
  distinct := by decide

end CartGraph.Library
