/-
Notes on the progress of a check.

What happens during a check is noted for whoever wants to follow it.  A note has a level, the part
of the checker it comes from, and a text.
-/
namespace TreeTyping

/-- How much attention a note asks for. -/
inductive Level where
  | debug | info | warning
deriving DecidableEq, Repr

namespace Level

def name : Level → String
  | .debug => "DEBUG"
  | .info => "INFO"
  | .warning => "WARNING"

def rank : Level → Nat
  | .debug => 0
  | .info => 1
  | .warning => 2

end Level

inductive Note where
  | typesRegistered (kept rejected : Nat)
  | methodRegistered (receiver name signature : String)
  | registryFrozen (names : Nat)
  | functionRegistered (signature : String)
  | declared (name type event : String)
  | listLiteral (type : String) (length : Nat)
  | bodyFlow (function flow : String)
  | functionRejected (function message : String)
  | bodiesShared (functions : Nat) (workers : Int)
  | stopped (errors skipped : Nat)
  | cacheStats (hits misses size : Nat)
  | verdict (module : String) (accepted : Bool) (errors warnings : Nat)
deriving DecidableEq, Repr

namespace Note

def level : Note → Level
  | .stopped _ _ => .warning
  | .verdict _ _ _ _ => .info
  | _ => .debug

/-- The part of the checker a note comes from. -/
def channel : Note → String
  | .typesRegistered _ _ | .methodRegistered _ _ _ | .registryFrozen _ => "typecore.registry"
  | .declared _ _ _ => "typecore.inference"
  | .listLiteral _ _ => "typecore.composed"
  | .bodyFlow _ _ => "typecore.verifier"
  | .cacheStats _ _ _ => "typecore.interfaces"
  | .functionRegistered _ | .functionRejected _ _ | .bodiesShared _ _ | .stopped _ _
  | .verdict _ _ _ _ =>
    "typecore.checker"

def text : Note → String
  | .typesRegistered kept rejected =>
    "registered " ++ toString kept ++ " type declaration(s), " ++ toString rejected ++ " rejected"
  | .methodRegistered receiver name signature =>
    "registered method " ++ receiver ++ "." ++ name ++ ": " ++ signature
  | .registryFrozen names => "type registry frozen with " ++ toString names ++ " names"
  | .functionRegistered signature => "registered " ++ signature
  | .declared name type event => "declared " ++ name ++ ": " ++ type ++ " (" ++ event ++ ")"
  | .listLiteral type length => "list literal -> " ++ type ++ " (" ++
      toString length ++ " elements)"
  | .bodyFlow function flow => "function " ++ function ++ ": body " ++ flow
  | .functionRejected function message => "function " ++ function ++ " rejected: " ++ message
  | .bodiesShared functions workers =>
    "checking " ++ toString functions ++ " function(s) on " ++ toString workers ++ " worker(s)"
  | .stopped errors skipped =>
    "stopped after " ++ toString errors ++ " error(s); " ++ toString skipped ++
      " declaration(s) not checked"
  | .cacheStats hits misses size =>
    "interface cache: " ++ toString hits ++ " hits, " ++ toString misses ++ " misses, " ++
      toString size ++ " entries"
  | .verdict module accepted errors warnings =>
    "module " ++ module ++ " " ++ (if accepted then "accepted" else "rejected") ++ ": " ++
      toString errors ++ " error(s), " ++ toString warnings ++ " warning(s)"

def line (n : Note) : String := n.level.name ++ " " ++ n.channel ++ ": " ++ n.text

end Note

end TreeTyping
