/-
Types.

Primitive, composed and function types are compared by their structure.  Aliases, structs and
interfaces are nominal: each declaration has an identity of its own, a type carries the identity and
the name, and what a nominal type stands for is kept in the registry.  Recursive declarations are
therefore ordinary finite types here.

Lists, maps and sets are abstract: a value of such a type is backed by an array, a hash map or a
hash set, which are types as well.
-/
namespace TreeTyping

inductive PrimitiveKind where
  | signed | unsigned | float | bool | string
deriving DecidableEq, Repr

inductive Width where
  | w8 | w16 | w32 | w64 | machine
deriving DecidableEq, Repr

def Width.bits? : Width → Option Nat
  | .w8 => some 8
  | .w16 => some 16
  | .w32 => some 32
  | .w64 => some 64
  | .machine => none

structure Primitive where
  kind : PrimitiveKind
  width : Width
deriving DecidableEq, Repr

namespace Primitive

def kindName : PrimitiveKind → String
  | .signed => "int"
  | .unsigned => "uint"
  | .float => "float"
  | .bool => "bool"
  | .string => "string"

/-- The name of a primitive type: fixed widths of numbers are part of it. -/
def name (p : Primitive) : String :=
  match p.kind, p.width.bits? with
  | .bool, _ | .string, _ => kindName p.kind
  | _, some bits => kindName p.kind ++ toString bits
  | _, none => kindName p.kind

def isInteger (p : Primitive) : Bool := p.kind == .signed || p.kind == .unsigned

def isNumeric (p : Primitive) : Bool := p.isInteger || p.kind == .float

/-- Whether a primitive type has negative numbers. -/
def isSigned (p : Primitive) : Bool := p.kind == .signed || p.kind == .float

end Primitive

/-- The identity and the name of a nominal type. -/
structure Nominal where
  id : Nat
  name : String
deriving DecidableEq, Repr

inductive Ty where
  | primitive (p : Primitive)
  | alias (n : Nominal)
  | struct (n : Nominal)
  | interface (n : Nominal)
  | array (element : Ty) (length : Option Int)
  | hashMap (key value : Ty)
  | hashSet (element : Ty)
  | list (element : Ty)
  | map (key value : Ty)
  | set (element : Ty)
  | function (params : List Ty) (result : Option Ty)
deriving Repr, Inhabited

namespace Ty

/-! ### Equality -/

mutual

def same : Ty → Ty → Bool
  | .primitive p, .primitive q => p == q
  | .alias m, .alias n => m == n
  | .struct m, .struct n => m == n
  | .interface m, .interface n => m == n
  | .array a m, .array b n => same a b && m == n
  | .hashMap a c, .hashMap b d => same a b && same c d
  | .hashSet a, .hashSet b => same a b
  | .list a, .list b => same a b
  | .map a c, .map b d => same a b && same c d
  | .set a, .set b => same a b
  | .function ps r, .function qs s => sameList ps qs && sameOption r s
  | _, _ => false

def sameList : List Ty → List Ty → Bool
  | [], [] => true
  | a :: as, b :: bs => same a b && sameList as bs
  | _, _ => false

def sameOption : Option Ty → Option Ty → Bool
  | none, none => true
  | some a, some b => same a b
  | _, _ => false

end

mutual

theorem same_iff : ∀ a b : Ty, same a b = true ↔ a = b
  | .primitive _, b => by cases b <;> simp [same]
  | .alias _, b => by cases b <;> simp [same]
  | .struct _, b => by cases b <;> simp [same]
  | .interface _, b => by cases b <;> simp [same]
  | .array a _, b => by cases b <;> simp [same, same_iff a]
  | .hashMap a c, b => by cases b <;> simp [same, same_iff a, same_iff c]
  | .hashSet a, b => by cases b <;> simp [same, same_iff a]
  | .list a, b => by cases b <;> simp [same, same_iff a]
  | .map a c, b => by cases b <;> simp [same, same_iff a, same_iff c]
  | .set a, b => by cases b <;> simp [same, same_iff a]
  | .function ps r, b => by cases b <;> simp [same, sameList_iff ps, sameOption_iff r]

theorem sameList_iff : ∀ as bs : List Ty, sameList as bs = true ↔ as = bs
  | [], bs => by cases bs <;> simp [sameList]
  | a :: as, bs => by cases bs <;> simp [sameList, same_iff a, sameList_iff as]

theorem sameOption_iff : ∀ a b : Option Ty, sameOption a b = true ↔ a = b
  | none, b => by cases b <;> simp [sameOption]
  | some a, b => by cases b <;> simp [sameOption, same_iff a]

end

instance : DecidableEq Ty := fun a b => decidable_of_iff _ (same_iff a b)

/-! ### Names -/

mutual

def name : Ty → String
  | .primitive p => p.name
  | .alias n => n.name
  | .struct n => n.name
  | .interface n => n.name
  | .array e none => "array[" ++ name e ++ "]"
  | .array e (some length) => "array[" ++ name e ++ ", " ++ toString length ++ "]"
  | .hashMap k v => "hashmap[" ++ name k ++ ", " ++ name v ++ "]"
  | .hashSet e => "hashset[" ++ name e ++ "]"
  | .list e => "list[" ++ name e ++ "]"
  | .map k v => "\x7b" ++ name k ++ ": " ++ name v ++ "\x7d"
  | .set e => "\x7b" ++ name e ++ "\x7d"
  | .function params result => "func(" ++ ", ".intercalate (names params) ++ ")" ++
      resultSuffix result

def names : List Ty → List String
  | [] => []
  | t :: rest => name t :: names rest

/-- The result of a function type, behind a colon; a procedure has none. -/
def resultSuffix : Option Ty → String
  | none => ""
  | some t => ": " ++ name t

end

/-- The family of a type, as answers name it. -/
def familyName : Ty → String
  | .primitive _ => "PrimitiveType"
  | .alias _ => "AliasType"
  | .struct _ => "StructType"
  | .interface _ => "InterfaceType"
  | .array _ _ => "ArrayType"
  | .hashMap _ _ => "HashMapType"
  | .hashSet _ => "HashSetType"
  | .list _ => "AbstractComposedType"
  | .map _ _ => "AbstractComposedType"
  | .set _ => "AbstractComposedType"
  | .function _ _ => "FunctionType"

/-! ### Built-in types -/

def int : Ty := .primitive ⟨.signed, .machine⟩

def float : Ty := .primitive ⟨.float, .machine⟩

/-- The type of truth values, one byte wide. -/
def bool : Ty := .primitive ⟨.bool, .w8⟩

/-- The type of strings, a handle of one word. -/
def string : Ty := .primitive ⟨.string, .machine⟩

def any : Ty := .interface ⟨0, "any"⟩

/-- The primitive types, in the order in which the registry lists them. -/
def primitives : List Primitive :=
  [⟨.signed, .machine⟩, ⟨.signed, .w8⟩, ⟨.signed, .w16⟩, ⟨.signed, .w32⟩, ⟨.signed, .w64⟩,
   ⟨.unsigned, .machine⟩, ⟨.unsigned, .w8⟩, ⟨.unsigned, .w16⟩, ⟨.unsigned, .w32⟩, ⟨.unsigned, .w64⟩,
   ⟨.float, .machine⟩, ⟨.float, .w32⟩, ⟨.float, .w64⟩, ⟨.bool, .w8⟩, ⟨.string, .machine⟩]

def builtins : List (String × Ty) :=
  primitives.map (fun p => (p.name, .primitive p)) ++ [("any", any)]

def isBuiltinName (s : String) : Bool := builtins.any fun b => b.1 == s

/-! ### Classes of types -/

def isNominal : Ty → Bool
  | .alias _ | .struct _ | .interface _ => true
  | _ => false

def isAlias : Ty → Bool
  | .alias _ => true
  | _ => false

def isNumeric : Ty → Bool
  | .primitive p => p.isNumeric
  | _ => false

def isInteger : Ty → Bool
  | .primitive p => p.isInteger
  | _ => false

/-- Whether a type is a primitive type with negative numbers. -/
def isSigned : Ty → Bool
  | .primitive p => p.isSigned
  | _ => false

/-- Whether a type is composed of others: an array, hashed backing, list, map or set. -/
def isComposed : Ty → Bool
  | .array _ _ | .hashMap _ _ | .hashSet _ | .list _ | .map _ _ | .set _ => true
  | _ => false

/-- The element type of an array, hash set, list or set. -/
def element? : Ty → Option Ty
  | .array e _ | .hashSet e | .list e | .set e => some e
  | _ => none

def key? : Ty → Option Ty
  | .hashMap k _ | .map k _ => some k
  | _ => none

def value? : Ty → Option Ty
  | .hashMap _ v | .map _ v => some v
  | _ => none

/-- What iterating over a value of a composed type yields: elements, or the keys of a map. -/
def iterated? (t : Ty) : Option Ty := t.element?.or t.key?

/-! ### References -/

mutual

/-- The nominal types a type mentions, in order. -/
def nominals : Ty → List Ty
  | .alias n => [.alias n]
  | .struct n => [.struct n]
  | .interface n => [.interface n]
  | .primitive _ => []
  | .array e _ => nominals e
  | .hashSet e => nominals e
  | .list e => nominals e
  | .set e => nominals e
  | .hashMap k v => nominals k ++ nominals v
  | .map k v => nominals k ++ nominals v
  | .function params result => nominalsOfList params ++ nominalsOfOption result

def nominalsOfList : List Ty → List Ty
  | [] => []
  | t :: rest => nominals t ++ nominalsOfList rest

def nominalsOfOption : Option Ty → List Ty
  | none => []
  | some t => nominals t

end

end Ty

end TreeTyping
