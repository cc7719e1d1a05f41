import CartGraph.Catalogue.Basic
import CartGraph.Order

/-!
# Palette search

A query matches a text when its characters occur there in order. The fewer characters of the text
are passed over, the better the match, and a match in the title counts four fifths of one
elsewhere.
-/
namespace CartGraph.Catalogue

/-- The places of the characters of a query in a text whose first character has the place `start`,
each as early as possible. None when one is missing. -/
def places (start : Nat) : List Char → List Char → Option (List Nat)
  | [], _ => some []
  | _ :: _, [] => none
  | q :: query, c :: rest =>
    if c = q then (places (start + 1) query rest).map (start :: ·)
    else places (start + 1) (q :: query) rest

/-- How many characters are passed over before, between and after the given places, in a text that
goes from the place `start` up to the place `stop`. -/
def passedOver (start stop : Nat) : List Nat → Nat
  | [] => stop - start
  | i :: rest => (i - start) + passedOver (i + 1) stop rest

/-- The distance of a query from a text. The empty query is at distance zero from every text, and
nothing matches the empty text. -/
def distance (query candidate : String) : Option Nat :=
  if candidate.isEmpty then none
  else if query.isEmpty then some 0
  else (places 0 query.toList candidate.toList).map (passedOver 0 candidate.length)

inductive FieldKind where
  | title
  | other
  deriving DecidableEq, Repr

/-- The weight of a field in fifths. -/
def FieldKind.fifths : FieldKind → Nat
  | .title => 4
  | .other => 5

/-- A distance in a field of some kind. -/
structure Score where
  distance : Nat
  field : FieldKind
  deriving DecidableEq, Repr

namespace Score

/-- The weighted distance in fifths. Scores are compared by it. -/
def fifths (s : Score) : Nat := s.distance * s.field.fifths

/-- The weighted distance as a double: the distance times the double nearest to the weight. -/
def toBinary64 (s : Score) : Binary64 :=
  let weight : Binary64 := match s.field with
    | .title => .ofDecimal false 8 (-1)
    | .other => .ofDecimal false 1 0
  .ofRatio false (s.distance * weight.ratio.1) weight.ratio.2

end Score

/-- The texts that a search looks at, in lower case. Blank ones are left out. -/
def searchFields (d : Definition) : List (String × FieldKind) :=
  let fields := (d.title, FieldKind.title) :: (d.category, .other) :: (d.description, .other) ::
    d.tags.map fun tag => (tag, .other)
  (fields.filter fun f => !(Text.strip f.1).isEmpty).map fun f => (Text.lower f.1, f.2)

def fieldScore (query : String) (f : String × FieldKind) : Option Score :=
  (distance query f.1).map fun n => ⟨n, f.2⟩

/-- The better of two scores, the first one if they are equal. -/
def betterScore : Option Score → Option Score → Option Score
  | none, b => b
  | some a, none => some a
  | some a, some b => if b.fifths < a.fifths then some b else some a

/-- The best score among fields, given the best so far. Zero can not be beaten, so it ends the
search. -/
def bestScore (query : String) (best : Option Score) : List (String × FieldKind) → Option Score
  | [] => best
  | f :: rest =>
    let better := betterScore best (fieldScore query f)
    if better.any fun s => s.fifths == 0 then better else bestScore query better rest

def score (query : String) (d : Definition) : Option Score := bestScore query none (searchFields d)

def titleKey (d : Definition) : String := Text.lower d.title

/-- What a search compares: the score in fifths, then the title. -/
def rankLE (a b : (Nat × String) × Definition) : Bool :=
  Order.lexLE (fun x y => decide (x ≤ y)) Order.textLE a.1 b.1

/-- The definitions that match, each with what it is compared by. -/
def ranked (c : Catalogue) (wanted : String) : List ((Nat × String) × Definition) :=
  c.definitions.filterMap fun d => (score wanted d).map fun s => ((s.fifths, titleKey d), d)

/-- Definitions that match a query, best first. All definitions by title for a blank query. -/
def search (c : Catalogue) (query : String) : List Definition :=
  let wanted := Text.lower (Text.strip query)
  if wanted.isEmpty then
    Order.sortBy (fun a b => Order.textLE (titleKey a) (titleKey b)) c.definitions
  else (Order.sortBy rankLE (c.ranked wanted)).map (·.2)

end CartGraph.Catalogue
