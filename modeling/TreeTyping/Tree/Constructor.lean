/-
Constructors by name.

The constructors of nodes can be called by name, with arguments given by position or by name.
Arguments by position fill the parameters in order.  What is left over goes to a constructor that
takes any number of arguments, and is refused by the others; so is a name that no parameter has,
except where the names are fields of a struct.  A parameter given twice is refused, and one that is
left out takes its default if it has one.
-/
import TreeTyping.Keyed
import TreeTyping.Tree.Make

namespace TreeTyping.Tree

/-- A parameter: its name, and its value when it is left out. -/
abbrev Parameter := String × Option Tree

structure Parameters where
  /-- Those that are given by position or by name. -/
  positional : List Parameter := []
  /-- Whether more arguments may follow by position. -/
  variadic : Bool := false
  /-- Those that are given by name only. -/
  byName : List Parameter := []
  /-- Whether arguments of any other name may be given. -/
  anyName : Bool := false

/-- Arguments that have found their parameters. -/
structure Arguments where
  values : Keyed Tree
  /-- What follows the last parameter by position. -/
  rest : List Tree
  /-- What was given under names that are not those of parameters. -/
  extra : Keyed Tree

def Arguments.get (a : Arguments) (name : String) : Tree := (a.values.find? name).getD .null

namespace Parameters

def all (ps : Parameters) : List Parameter := ps.positional ++ ps.byName

def hasName (ps : Parameters) (name : String) : Bool := ps.all.any fun p => p.1 == name

/-- The arguments of a call, parameter by parameter. -/
def bind (ps : Parameters) (args : List Tree) (named : Keyed Tree) :
    Except MakeError Arguments := do
  let count := ps.positional.length
  let placed : Keyed Tree := (ps.positional.map Prod.fst).zip (args.take count)
  let rest := args.drop count
  let known : Keyed Tree := named.filter fun n => ps.hasName n.1
  let extra : Keyed Tree := named.filter fun n => !ps.hasName n.1
  if !rest.isEmpty && !ps.variadic then
    throw .wrongArguments
  if !extra.isEmpty && !ps.anyName then
    throw .wrongArguments
  if known.any fun n => placed.has n.1 then
    throw .wrongArguments
  let given : Keyed Tree := placed ++ known
  let values ← ps.all.mapM fun (name, default) =>
    match (given.find? name).or default with
    | some t => pure (name, t)
    | none => throw .wrongArguments
  return ⟨values, rest, extra⟩

end Parameters

/-! ### The table of constructors -/

/-- The parameter every constructor has. -/
def spanParam : Parameter := ("span", some .null)

def req (name : String) : Parameter := (name, none)

def opt (name : String) : Parameter := (name, some .null)

/-- A parameter that is an empty list when it is left out. -/
def optList (name : String) : Parameter := (name, some (.list []))

/-- The parameters of a constructor with a fixed number of them. -/
def plainParams (ps : List Parameter) : Parameters := { positional := ps ++ [spanParam] }

/-- The parameters of a constructor that takes any number of further arguments. -/
def variadicParams (ps : List Parameter) : Parameters :=
  { positional := ps, variadic := true, byName := [spanParam] }

open Make in
def constructors : Keyed (Parameters × (Arguments → Made)) :=
  [("type_ref", plainParams [req "t"], fun a => typeRef (a.get "t") (a.get "span")),
   ("lit", plainParams [req "value"], fun a => literal (a.get "value") (a.get "span")),
   ("ident", plainParams [req "name"], fun a => identifier (a.get "name") (a.get "span")),
   ("binop", plainParams [req "left", req "op", req "right"],
     fun a => binary (a.get "left") (a.get "op") (a.get "right") (a.get "span")),
   ("unary", plainParams [req "op", req "operand"],
     fun a => unary (a.get "op") (a.get "operand") (a.get "span")),
   ("call", variadicParams [req "name"], fun a => call (a.get "name") a.rest (a.get "span")),
   ("method_call", variadicParams [req "obj", req "name"],
     fun a => methodCall (a.get "obj") (a.get "name") a.rest (a.get "span")),
   ("member", plainParams [req "obj", req "name"],
     fun a => member (a.get "obj") (a.get "name") (a.get "span")),
   ("index", plainParams [req "obj", req "i"],
     fun a => index (a.get "obj") (a.get "i") (a.get "span")),
   ("cast", plainParams [req "target", req "operand"],
     fun a => cast (a.get "target") (a.get "operand") (a.get "span")),
   ("list_lit", variadicParams [], fun a => listLiteral a.rest (a.get "span")),
   ("map_lit", plainParams [optList "entries"], fun a => mapLiteral (a.get "entries")
     (a.get "span")),
   ("set_lit", variadicParams [], fun a => setLiteral a.rest (a.get "span")),
   ("struct_lit", { positional := [req "type_name", spanParam], anyName := true },
     fun a => structLiteral (a.get "type_name") (a.get "span") a.extra),
   ("var", plainParams [req "name", opt "type_", opt "init"],
     fun a => var (a.get "name") (a.get "type_") (a.get "init") (a.get "span")),
   ("assign", plainParams [req "target", req "value"],
     fun a => assign (a.get "target") (a.get "value") (a.get "span")),
   ("expr_stmt", plainParams [req "expression"],
     fun a => exprStatement (a.get "expression") (a.get "span")),
   ("ret", plainParams [opt "value"], fun a => ret (a.get "value") (a.get "span")),
   ("panic", plainParams [opt "message"], fun a => panic (a.get "message") (a.get "span")),
   ("brk", plainParams [], fun a => bare .breakStatement (a.get "span")),
   ("cont", plainParams [], fun a => bare .continueStatement (a.get "span")),
   ("pass_", plainParams [], fun a => bare .passStatement (a.get "span")),
   ("block", variadicParams [], fun a => block a.rest (a.get "span")),
   ("if_", plainParams [req "condition", req "then", optList "elifs", opt "else_"],
     fun a => ifStatement (a.get "condition") (a.get "then") (a.get "elifs") (a.get "else_")
       (a.get "span")),
   ("elif_", variadicParams [req "condition"],
     fun a => elifBranch (a.get "condition") a.rest (a.get "span")),
   ("match", plainParams [req "subject", req "cases", opt "default"],
     fun a => matchStatement (a.get "subject") (a.get "cases") (a.get "default") (a.get "span")),
   ("case", variadicParams [req "values"],
     fun a => matchCase (a.get "values") a.rest (a.get "span")),
   ("while_", variadicParams [req "condition"],
     fun a => whileStatement (a.get "condition") a.rest (a.get "span")),
   ("for_", variadicParams [req "variable", req "iterable"],
     fun a => forStatement (a.get "variable") (a.get "iterable") a.rest (a.get "span")),
   ("param", plainParams [req "name", req "type_"],
     fun a => parameter (a.get "name") (a.get "type_") (a.get "span")),
   ("func", plainParams [req "name", optList "params", opt "returns", optList "body"],
     fun a => function (a.get "name") (a.get "params") (a.get "returns") (a.get "body")
       (a.get "span")),
   ("method", plainParams [req "receiver", req "name", optList "params", opt "returns",
     optList "body"],
     fun a => method (a.get "receiver") (a.get "name") (a.get "params") (a.get "returns")
       (a.get "body") (a.get "span")),
   ("alias", plainParams [req "name", req "underlying"],
     fun a => typeAlias (a.get "name") (a.get "underlying") (a.get "span")),
   ("struct", plainParams [req "name", optList "fields"],
     fun a => struct (a.get "name") (a.get "fields") (a.get "span")),
   ("interface", variadicParams [req "name"],
     fun a => interface (a.get "name") a.rest (a.get "span")),
   ("field_req", plainParams [req "name", req "type_"],
     fun a => field (a.get "name") (a.get "type_") (a.get "span")),
   ("method_req", plainParams [req "name", optList "params", opt "returns"],
     fun a => methodSig (a.get "name") (a.get "params") (a.get "returns") (a.get "span")),
   ("module", { positional := [], variadic := true, byName := [opt "name", spanParam] },
     fun a => compilationUnit a.rest (a.get "name") (a.get "span"))]

def construct (name : String) (args : List Tree) (named : Keyed Tree) : Make.Made :=
  match constructors.find? name with
  | some (ps, make) => do make (← ps.bind args named)
  | none => .error .unknownConstructor

end TreeTyping.Tree
