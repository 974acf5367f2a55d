/-
Remembered answers about satisfaction.

Answers are kept per pair of a type and an interface for as long as the registry does not change.  A
question whose answer needs no members is answered at once and is not counted.  Any other question
is a hit when its pair is there, and otherwise a miss: it is answered from the registry and
remembered.
-/
import TreeTyping.Interface.Satisfaction

namespace TreeTyping

/-- A question: does this type satisfy this interface? -/
structure Question where
  concrete : Ty
  interface : Nominal
deriving DecidableEq, Repr

/-- Remembered answers, and how often they were of use. -/
structure SatisfactionCache where
  answers : List (Question × Option MemberMismatch) := []
  hits : Nat := 0
  misses : Nat := 0
deriving Repr

namespace SatisfactionCache

def find? (c : SatisfactionCache) (q : Question) : Option (Option MemberMismatch) :=
  (c.answers.find? fun a => a.1 = q).map Prod.snd

def store (c : SatisfactionCache) (q : Question) (answer : Option MemberMismatch) :
    SatisfactionCache :=
  { c with answers := c.answers.filter (fun a => a.1 ≠ q) ++ [(q, answer)] }

/-- Answers a question, from memory where possible; a miss counts even when there is no answer. -/
def ask (c : SatisfactionCache) (r : Registry) (q : Question) :
    Except Failure (Option MemberMismatch) × SatisfactionCache :=
  if r.isTrivial q.concrete q.interface then (.ok none, c)
  else
    match c.find? q with
    | some answer => (.ok answer, { c with hits := c.hits + 1 })
    | none =>
      let missed := { c with misses := c.misses + 1 }
      match r.firstMismatch q.concrete q.interface with
      | .ok answer => (.ok answer, missed.store q answer)
      | .error f => (.error f, missed)

def replay (c : SatisfactionCache) (r : Registry) (questions : List Question) : SatisfactionCache :=
  questions.foldl (fun c q => (c.ask r q).2) c

end SatisfactionCache

end TreeTyping
