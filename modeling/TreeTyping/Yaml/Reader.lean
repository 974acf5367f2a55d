/-
Reading configuration documents.

Documents are written in a part of YAML: comments, block mappings and block sequences, flow mappings
and flow sequences, plain and quoted scalars.  A document may start with a mark of three dashes.  An
empty document is null.  A second document, a tab outside quotes and comments, a key that is itself
a collection, and a mapping inside a value on the line of its key are refused.

A key in a block stands on one line with the colon behind it, and the values of a mapping are
indented more than its keys, except that a sequence may start in the column of the key it belongs
to.

Every two nested calls take a character off the text or go from a node to its first part, so three
times the length of the text is fuel enough.
-/
import TreeTyping.Yaml.Cursor

namespace TreeTyping.Yaml

/-! ### Flow collections -/

def Cursor.step (c : Cursor) : Cursor := c.moveTo c.rest.tail

mutual

/-- A node in a flow collection, and the cursor behind it. -/
def flowNode : (fuel : Nat) → Cursor → Option (Yaml × Cursor)
  | 0, _ => none
  | fuel + 1, c =>
    match c.rest with
    | '[' :: _ => flowItems fuel [] c.step
    | '\x7b' :: _ => flowEntries fuel [] c.step
    | _ => scanScalar true (some 0) c

/-- A value behind the colon of a flow collection; it may be left out. -/
def flowValue : (fuel : Nat) → Cursor → Option (Yaml × Cursor)
  | 0, _ => none
  | fuel + 1, c =>
    let here := c.next.1
    match here.rest with
    | ',' :: _ | ']' :: _ | '\x7d' :: _ => some (.null, c)
    | _ => flowNode fuel here

/-- An item of a flow sequence; a pair with a colon is a mapping of its own. -/
def flowItem : (fuel : Nat) → Cursor → Option (Yaml × Cursor)
  | 0, _ => none
  | fuel + 1, c => do
    let (item, behind) ← flowNode fuel c
    let (here, crossed) := behind.next
    match here.rest with
    | ':' :: _ =>
      if crossed || !item.isKey then none
      else do
        let (value, behind) ← flowValue fuel here.step
        return (.map [(item, value)], behind)
    | _ => return (item, behind)

def flowItems : (fuel : Nat) → List Yaml → Cursor → Option (Yaml × Cursor)
  | 0, _, _ => none
  | fuel + 1, items, c =>
    let here := c.next.1
    match here.rest with
    | ']' :: _ => some (.seq items, here.step)
    | _ => do
      let (item, behind) ← flowItem fuel here
      let here := behind.next.1
      match here.rest with
      | ',' :: _ => flowItems fuel (items ++ [item]) here.step
      | ']' :: _ => some (.seq (items ++ [item]), here.step)
      | _ => none

def flowEntries : (fuel : Nat) → List (Yaml × Yaml) → Cursor → Option (Yaml × Cursor)
  | 0, _, _ => none
  | fuel + 1, entries, c =>
    let here := c.next.1
    match here.rest with
    | '\x7d' :: _ => some (.map entries, here.step)
    | _ => do
      let (key, behind) ← flowNode fuel here
      let (here, crossed) := behind.next
      let (value, behind) ← match here.rest with
        | ':' :: _ => if crossed then none else flowValue fuel here.step
        | _ => some (.null, behind)
      if !key.isKey then none
      else
        let entries := insertEntry key value entries
        let here := behind.next.1
        match here.rest with
        | ',' :: _ => flowEntries fuel entries here.step
        | '\x7d' :: _ => some (.map entries, here.step)
        | _ => none

end

/-! ### Blocks -/

/-- Whether an entry of a block sequence starts here. -/
def startsEntry : List Char → Bool
  | '-' :: rest => separates rest
  | _ => false

/-- A scalar or flow collection, and the cursor behind it. -/
def simpleNode (fuel : Nat) (indent : Option Nat) (c : Cursor) : Option (Yaml × Cursor) :=
  match c.rest with
  | '[' :: _ | '\x7b' :: _ => flowNode fuel c
  | _ => scanScalar false indent c

/-- A key on one line and the cursor behind its colon. -/
def blockKey (fuel : Nat) (c : Cursor) : Option (Yaml × Cursor) := do
  let (key, behind) ← simpleNode fuel none c
  let spaced := behind.rest.dropWhile (· == ' ')
  match spaced with
  | ':' :: rest => if c.crosses spaced || !separates rest then none else some (key, c.moveTo rest)
  | _ => none

mutual

/-- A node of a block with its parts indented by at least `indent`; `fresh` where a line starts. -/
def blockNode : (fuel : Nat) → (indent : Nat) → (fresh : Bool) → Cursor → Option (Yaml × Cursor)
  | 0, _, _, _ => none
  | fuel + 1, indent, fresh, c =>
    if startsEntry c.rest then
      if fresh then blockItems fuel c.column false [] c else none
    else if fresh && (blockKey fuel c).isSome then blockEntries fuel c.column [] c
    else simpleNode fuel (some indent) c

/-- The entries of a block mapping in the given column. -/
def blockEntries : (fuel : Nat) → (column : Nat) → List (Yaml × Yaml) → Cursor →
    Option (Yaml × Cursor)
  | 0, _, _, _ => none
  | fuel + 1, column, entries, c => do
    let (key, colon) ← blockKey fuel c
    let (here, crossed) := colon.next
    let (value, behind) ←
      if here.atEnd then some (.null, colon)
      else if !crossed || column < here.column then blockNode fuel (column + 1) crossed here
      else if column == here.column && startsEntry here.rest then
        blockItems fuel column true [] here
      else some (.null, colon)
    if !key.isKey then none
    else
      let entries := insertEntry key value entries
      let (here, crossed) := behind.next
      if here.atEnd || (crossed && here.column < column) then return (.map entries, behind)
      else if crossed && here.column == column then blockEntries fuel column entries here
      else none

/-- The items of a block sequence in the given column, which may be that of its key. -/
def blockItems : (fuel : Nat) → (column : Nat) → (shared : Bool) → List Yaml → Cursor →
    Option (Yaml × Cursor)
  | 0, _, _, _, _ => none
  | fuel + 1, column, shared, items, c => do
    let dash := c.step
    let (here, crossed) := dash.next
    let (item, behind) ←
      if here.atEnd then some (.null, dash)
      else if !crossed || column < here.column then blockNode fuel (column + 1) true here
      else some (.null, dash)
    let items := items ++ [item]
    let (here, crossed) := behind.next
    if here.atEnd || (crossed && here.column < column) then return (.seq items, behind)
    else if crossed && here.column == column then
      if startsEntry here.rest then blockItems fuel column shared items here
      else if shared then return (.seq items, behind)
      else none
    else none

end

/-! ### Documents -/

def isAllowed (c : Char) : Bool :=
  c == '\t' || c == '\n' || (' ' ≤ c && c ≤ '~') || c.toNat == 0x85
    || (0xa0 ≤ c.toNat && c.toNat ≤ 0xd7ff) || (0xe000 ≤ c.toNat && c.toNat ≤ 0xfffd) ||
      0x10000 ≤ c.toNat

def unifyLineEnds : List Char → List Char
  | '\r' :: '\n' :: rest => '\n' :: unifyLineEnds rest
  | '\r' :: rest => '\n' :: unifyLineEnds rest
  | c :: rest => c :: unifyLineEnds rest
  | [] => []

/-- Whether nothing follows a document but marks of its end. -/
def endsHere : (fuel : Nat) → Cursor → Bool
  | 0, _ => false
  | fuel + 1, c =>
    if c.rest.isEmpty then true
    else if c.atStop then endsHere fuel (c.moveTo (c.rest.drop 3)).next.1
    else false

def content (fuel : Nat) (c : Cursor) : Option (Yaml × Cursor) :=
  let marked := c.atStart
  let c := if marked then c.moveTo (c.rest.drop 3) else c
  let (here, crossed) := c.next
  if here.atEnd then some (.null, c) else blockNode fuel 0 (!marked || crossed) here

def parse? (text : String) : Option Yaml := do
  let cs := unifyLineEnds text.toList
  let cs := if cs.head? == some (Char.ofNat 0xfeff) then cs.tail else cs
  if cs.all isAllowed then
    let fuel := 3 * cs.length + 3
    let start := (Cursor.mk cs 0).next.1
    let (value, behind) ← content fuel start
    let (here, crossed) := behind.next
    if here.rest.isEmpty || ((crossed || here.column == 0) && endsHere fuel here) then
      some value else none
  else none

end TreeTyping.Yaml
