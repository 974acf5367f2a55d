/-
Tables of facts.

Each table collects the facts of one sort.  A node has the type that was recorded last.  Backings
stand in the order in which their nodes were first recorded, and the writes to a variable stand
together, at the place of the first of them.
-/
import TreeTyping.Fact.Basic

namespace TreeTyping.Fact

def typeAt? (p : Place) : List Fact → Option Ty
  | [] => none
  | .typed q t :: rest => (typeAt? p rest).or (if q = p then some t else none)
  | _ :: rest => typeAt? p rest

/-- The places with a recorded type, in order. -/
def typedPlaces (facts : List Fact) : List Place :=
  (facts.filterMap fun
    | .typed p _ => some p
    | _ => none).eraseDups

/-- The backings after one more record: a node that has one keeps its place in the order. -/
def insertBacking (o : Origin) (b : Backing) : List (Origin × Backing) → List (Origin × Backing)
  | [] => [(o, b)]
  | entry :: rest =>
    if entry.1.place = o.place then (entry.1, b) :: rest else entry :: insertBacking o b rest

def backings (facts : List Fact) : List (Origin × Backing) :=
  facts.foldl (fun table fact => match fact with
    | .backed o b => insertBacking o b table
    | _ => table) []

def backingAt? (p : Place) (facts : List Fact) : Option Backing :=
  ((backings facts).find? fun entry => entry.1.place = p).map Prod.snd

/-- The writes after one more: the writes to one variable stand together. -/
def insertWrite (d : Declaration) (w : Write) :
    List (Declaration × List Write) → List (Declaration × List Write)
  | [] => [(d, [w])]
  | entry :: rest =>
    if entry.1.origin.place = d.origin.place then (entry.1, entry.2 ++ [w]) :: rest
    else entry :: insertWrite d w rest

def writes (facts : List Fact) : List (Declaration × List Write) :=
  facts.foldl (fun table fact => match fact with
    | .wrote d w => insertWrite d w table
    | _ => table) []

def writesAt (p : Place) (facts : List Fact) : List Write :=
  facts.filterMap fun
    | .wrote d w => if d.origin.place = p then some w else none
    | _ => none

def questions (facts : List Fact) : List Question :=
  facts.filterMap fun
    | .asked q => some q
    | _ => none

def notes (facts : List Fact) : List Note :=
  facts.filterMap fun
    | .noted n => some n
    | _ => none

end TreeTyping.Fact
