/-
Typing derivations against a table of types.

A table gives some places of a tree a type.  The judgments here say that a table is right about an
expression, a statement, a function: at every node the type in the table is the one the rule for
that node asks for, given the types in the table below it.  A rule never mentions what the place of
an expression expects, nor the order in which its parts are looked at.  A number literal may have
any type its kind can take, since which one it has to be is decided by the rule above it.

`HasType` is for expressions that have a value, `CallsProcedure` for calls that have none.
Statements are typed in the scopes that are open, and `StmtTyped` ends with those that are open
afterwards.
-/
import Mathlib.Data.List.Forall2
import TreeTyping.Proofs.Inference
import TreeTyping.Proofs.Syntax.Occurrence
import TreeTyping.Typing.Stmt

namespace TreeTyping

/-! ### Relations between types -/

namespace Registry

/-- A value of type `source` may be stored where `target` is declared. -/
def Assignable (r : Registry) (target source : Ty) : Prop := r.isAssignable target source = .ok true

/-- Following aliases from `t` leads to `w`. -/
def StandsFor (r : Registry) (t w : Ty) : Prop := r.resolveUnderlying t .nowhere = .ok w

/-- The type `t` exposes a field of the given name and type. -/
def HasField (r : Registry) (t : Ty) (name : String) (type : Ty) : Prop :=
  ∃ members member, r.membersOf t = .ok members ∧ members.find? name = some member ∧
    member.kind = .field ∧ member.type = type

/-- The type `t` exposes a method of the given name, parameters and result. -/
def HasMethod (r : Registry) (t : Ty) (name : String) (params : List Ty) (result : Option Ty) :
    Prop :=
  ∃ members member, r.membersOf t = .ok members ∧ members.find? name = some member ∧
    member.kind = .method ∧ member.type = .function params result

/-- A value of `source`, which stands for `found`, converts to `target`, which is `wanted`. -/
inductive Converts (r : Registry) (target source wanted found : Ty) : Prop
  | same (h : source = target)
  | sameUnderlying (h : found = wanted)
  | numbers (hf : found.isNumeric = true) (hw : wanted.isNumeric = true)
  | interface {i : Nominal} (ht : target = .interface i) (h : r.satisfies source i = .ok true)
  | stored (h : r.Assignable wanted found)

/-- A value of type `source` converts to `target`. -/
def Convertible (r : Registry) (target source : Ty) : Prop :=
  ∃ wanted found, r.StandsFor target wanted ∧ r.StandsFor source found ∧
    r.Converts target source wanted found

end Registry

/-- A literal of the given kind can have type `t`. -/
inductive LiteralKind.CanHave (kind : LiteralKind) : Ty → Prop
  | own : CanHave kind kind.type
  | adopted {p : Primitive} (h : kind.adopts p = true) : CanHave kind (.primitive p)

namespace Operator

/-- `op.Joins t w u`: on two operands of type `t`, standing for `w`, the operator has type `u`. -/
inductive Joins : Operator → Ty → Ty → Ty → Prop
  | arithmetic {op : Operator} {t w : Ty} (h : op.family = .arithmetic)
      (hw : w.isNumeric = true ∨ op = .plus ∧ w = .string) : Joins op t w t
  | ordering {op : Operator} {t w : Ty} (h : op.family = .ordering)
      (hw : w.isNumeric = true ∨ w = .string) : Joins op t w .bool
  | equality {op : Operator} {t w : Ty} (h : op.family = .equality) : Joins op t w .bool
  | logical {op : Operator} {w : Ty} (h : op.family = .logical) : Joins op .bool w .bool

/-- `op.Turns t w u`: on one operand of type `t`, standing for `w`, the operator has type `u`. -/
inductive Turns : Operator → Ty → Ty → Ty → Prop
  | not {w : Ty} : Turns .not .bool w .bool
  | minus {t w : Ty} (hn : w.isNumeric = true) (hs : w.isSigned = true) : Turns .minus t w t
  | plus {t w : Ty} (hn : w.isNumeric = true) : Turns .plus t w t

end Operator

/-! ### Expressions -/

mutual

/-- The expression has a value of the given type, and the table says so throughout. -/
inductive HasType (env : Env) (table : TypeTable) : Expr → Ty → Prop
  | literal {o : Origin} {v : Value} {kind : LiteralKind} {t : Ty} (hk : kind.CanHave t)
      (ht : table o.place = some t) : HasType env table (.literal o v (some kind)) t
  | identifier {o : Origin} {name : String} {t : Ty} (hn : env.typeOfName? name = some t)
      (ht : table o.place = some t) : HasType env table (.identifier o name) t
  | binary {o : Origin} {left right : Expr} {op : Operator} {s w t : Ty}
      (hl : HasType env table left s) (hr : HasType env table right s)
      (hw : env.registry.StandsFor s w) (hop : op.Joins s w t) (ht : table o.place = some t) :
      HasType env table (.binary o left (some op) right) t
  | unary {o : Origin} {op : Operator} {operand : Expr} {s w t : Ty}
      (he : HasType env table operand s)
      (hw : env.registry.StandsFor s w) (hop : op.Turns s w t) (ht : table o.place = some t) :
      HasType env table (.unary o (some op) operand) t
  | call {o n : Origin} {name : String} {args : List Expr} {params types : List Ty} {t : Ty}
      (hn : HasType env table (.identifier n name) (.function params (some t)))
      (hs : HaveTypes env table args types) (ha : List.Forall₂ env.registry.Assignable params types)
      (ht : table o.place = some t) : HasType env table (.call o (.identifier n name) args) t
  | conversion {o n : Origin} {name : String} {operand : Expr} {source t : Ty}
      (hn : env.typeOfName? name = none) (hr : env.registry.lookup? name = some t)
      (he : HasType env table operand source) (hc : env.registry.Convertible t source)
      (ht : table o.place = some t) : HasType env table (.call o (.identifier n name) [operand]) t
  | methodCall {o : Origin} {object : Expr} {method : String} {args : List Expr} {s t : Ty}
      {params types : List Ty} (ho : HasType env table object s)
      (hm : env.registry.HasMethod s method params (some t)) (hs : HaveTypes env table args types)
      (ha : List.Forall₂ env.registry.Assignable params types) (ht : table o.place = some t) :
      HasType env table (.methodCall o object method args) t
  | member {o : Origin} {object : Expr} {name : String} {s t : Ty} (ho : HasType env table object s)
      (hf : env.registry.HasField s name t) (ht : table o.place = some t) :
      HasType env table (.member o object name) t
  | indexList {o : Origin} {object i : Expr} {s w n t : Ty} (ho : HasType env table object s)
      (hw : env.registry.StandsFor s w) (he : w.listElement? = some t)
      (hi : HasType env table i n) (hn : n.isInteger = true) (ht : table o.place = some t) :
      HasType env table (.index o object i) t
  | indexMap {o : Origin} {object i : Expr} {s w key found t : Ty} (ho : HasType env table object s)
      (hw : env.registry.StandsFor s w) (he : w.mapEntry? = some (key, t))
      (hi : HasType env table i found) (ha : env.registry.Assignable key found)
      (ht : table o.place = some t) : HasType env table (.index o object i) t
  | cast {o : Origin} {typeExpr : TypeExpr} {operand : Expr} {source t : Ty}
      (hr : env.registry.typeOf typeExpr = .ok t) (he : HasType env table operand source)
      (hc : env.registry.Convertible t source) (ht : table o.place = some t) :
      HasType env table (.cast o typeExpr operand) t
  | list {o : Origin} {elements : List Expr} {types : List Ty} {e t : Ty}
      (hs : HaveTypes env table elements types) (ha : ∀ s ∈ types, env.registry.Assignable e s)
      (hb : t = .list e ∨ t = .array e none ∨ t = .array e (some elements.length))
      (ht : table o.place = some t) : HasType env table (.list o elements) t
  | map {o : Origin} {entries : List (Expr × Expr)} {keys values : List Ty} {k v t : Ty}
      (hk : HaveTypes env table (entries.map Prod.fst) keys)
      (hv : HaveTypes env table (entries.map Prod.snd) values)
      (hak : ∀ s ∈ keys, env.registry.Assignable k s)
      (hav : ∀ s ∈ values, env.registry.Assignable v s)
      (hb : t = .map k v ∨ t = .hashMap k v) (ht : table o.place = some t) :
      HasType env table (.map o entries) t
  | set {o : Origin} {elements : List Expr} {types : List Ty} {e t : Ty}
      (hs : HaveTypes env table elements types) (ha : ∀ s ∈ types, env.registry.Assignable e s)
      (hb : t = .set e ∨ t = .hashSet e) (ht : table o.place = some t) :
      HasType env table (.set o elements) t
  /-- The values go to fields of the struct, and every field of the struct has a value. -/
  | record {o : Origin} {typeName : String} {given : List (String × Expr)} {t : Ty} {n : Nominal}
      {types : List Ty} (hr : env.registry.lookup? typeName = some t)
      (hw : env.registry.StandsFor t (.struct n))
      (hs : HaveTypes env table (given.map Prod.snd) types)
      (ha : List.Forall₂ (fun g s => ∃ field, (env.registry.structFields n).find? g.1 = some field ∧
        env.registry.Assignable field s) given types)
      (hall : ∀ name ∈ (env.registry.structFields n).names, name ∈ given.map Prod.fst)
      (ht : table o.place = some t) : HasType env table (.record o typeName given) t

/-- The expressions have the given types, one by one. -/
inductive HaveTypes (env : Env) (table : TypeTable) : List Expr → List Ty → Prop
  | nil : HaveTypes env table [] []
  | cons {e : Expr} {t : Ty} {rest : List Expr} {types : List Ty} (he : HasType env table e t)
      (hrest : HaveTypes env table rest types) : HaveTypes env table (e :: rest) (t :: types)

end

theorem HaveTypes.length_eq {env : Env} {table : TypeTable} : ∀ {es : List Expr} {types : List Ty},
    HaveTypes env table es types → types.length = es.length
  | _, _, .nil => rfl
  | _, _, .cons _ hrest => congrArg (· + 1) hrest.length_eq

/-- The expression is a call of a procedure, and the table is right about its parts. -/
inductive CallsProcedure (env : Env) (table : TypeTable) : Expr → Prop
  | call {o n : Origin} {name : String} {args : List Expr} {params types : List Ty}
      (hn : HasType env table (.identifier n name) (.function params none))
      (hs : HaveTypes env table args types)
      (ha : List.Forall₂ env.registry.Assignable params types) :
      CallsProcedure env table (.call o (.identifier n name) args)
  | methodCall {o : Origin} {object : Expr} {method : String} {args : List Expr} {s : Ty}
      {params types : List Ty} (ho : HasType env table object s)
      (hm : env.registry.HasMethod s method params none) (hs : HaveTypes env table args types)
      (ha : List.Forall₂ env.registry.Assignable params types) :
      CallsProcedure env table (.methodCall o object method args)

/-! ### Statements -/

/-- The type a variable is declared with; its initializer can be stored in it. -/
inductive Declares (table : TypeTable) (env : Env) (d : VarDecl) : Ty → Prop
  | plain {t : Ty} (hi : d.initializer = none)
      (hd : env.registry.typeOf? d.typeExpr = .ok (some t)) : Declares table env d t
  | initialized {e : Expr} {declared : Option Ty} {found : Ty} (hi : d.initializer = some e)
      (hd : env.registry.typeOf? d.typeExpr = .ok declared) (he : HasType env table e found)
      (ha : env.registry.Assignable (declared.getD found) found) :
      Declares table env d (declared.getD found)

/-- The declaration is right, and leaves the given scopes open. -/
inductive DeclarationTyped (table : TypeTable) (env : Env) (d : VarDecl) (scopes : Scopes) : Prop
  | intro {t : Ty} (hd : Declares table env d t) (ht : table d.origin.place = some t)
      (hs : env.scopes.define ⟨d.name, .variable, t, some d.origin.span, some d.declaration⟩
        = .ok (.inl scopes))

mutual

/-- The statement is right in the environment and its surroundings, and leaves the scopes open. -/
inductive StmtTyped (table : TypeTable) : Env → Surroundings → Stmt → Scopes → Prop
  | declare {env : Env} {around : Surroundings} {d : VarDecl} {scopes : Scopes}
      (h : DeclarationTyped table env d scopes) : StmtTyped table env around (.declare d) scopes
  /-- Only variables, fields and elements are assigned to; a function is no variable. -/
  | assign {env : Env} {around : Surroundings} {o : Origin} {target e : Expr} {t s : Ty}
      (hi : Inference.isTarget target = true)
      (hv : ∀ n name, target = .identifier n name → (env.scopes.lookup? name).isSome = true)
      (ht : HasType env table target t) (he : HasType env table e s)
      (ha : env.registry.Assignable t s) :
      StmtTyped table env around (.assign o target e) env.scopes
  | value {env : Env} {around : Surroundings} {o : Origin} {e : Expr} {t : Ty}
      (he : HasType env table e t) : StmtTyped table env around (.expr o e) env.scopes
  | procedure {env : Env} {around : Surroundings} {o : Origin} {e : Expr}
      (he : CallsProcedure env table e) : StmtTyped table env around (.expr o e) env.scopes
  | returnValue {env : Env} {around : Surroundings} {o : Origin} {e : Expr} {signature : Signature}
      {t s : Ty} (hs : around.signature = some signature) (hr : signature.result = some t)
      (he : HasType env table e s) (ha : env.registry.Assignable t s) :
      StmtTyped table env around (.ret o (some e)) env.scopes
  | returnNothing {env : Env} {around : Surroundings} {o : Origin} {signature : Signature}
      (hs : around.signature = some signature) (hr : signature.result = none) :
      StmtTyped table env around (.ret o none) env.scopes
  | panic {env : Env} {around : Surroundings} {o : Origin} :
      StmtTyped table env around (.panic o none) env.scopes
  | panicWith {env : Env} {around : Surroundings} {o : Origin} {e : Expr}
      (he : HasType env table e .string) : StmtTyped table env around (.panic o (some e)) env.scopes
  | brk {env : Env} {around : Surroundings} {o : Origin} (h : around.inLoop = true) :
      StmtTyped table env around (.brk o) env.scopes
  | cont {env : Env} {around : Surroundings} {o : Origin} (h : around.inLoop = true) :
      StmtTyped table env around (.cont o) env.scopes
  | pass {env : Env} {around : Surroundings} {o : Origin} :
      StmtTyped table env around (.pass o) env.scopes
  | cond {env : Env} {around : Surroundings} {o : Origin} {c : Expr} {body : List Stmt}
      {more : List Branch} {otherwise : Option (List Stmt)} {label label' label'' : String}
      (hc : HasType env table c .bool) (hb : BodyTyped table (env.inside label) around body)
      (hcs : ∀ b ∈ more, HasType env table b.condition .bool)
      (hbs : ∀ b ∈ more, BodyTyped table (env.inside label') around b.body)
      (hlast : ∀ last, otherwise = some last → BodyTyped table (env.inside label'') around last) :
      StmtTyped table env around (.cond o c body more otherwise) env.scopes
  | select {env : Env} {around : Surroundings} {o : Origin} {subject : Expr} {arms : List Case}
      {otherwise : Option (List Stmt)} {t : Ty} {label label' : String}
      (hs : HasType env table subject t) (hvs : ∀ a ∈ arms, ∀ v ∈ a.values, HasType env table v t)
      (hbs : ∀ a ∈ arms, BodyTyped table (env.inside label) around a.body)
      (hlast : ∀ last, otherwise = some last → BodyTyped table (env.inside label') around last) :
      StmtTyped table env around (.select o subject arms otherwise) env.scopes
  | loop {env : Env} {around : Surroundings} {o : Origin} {c : Expr} {body : List Stmt}
      {label : String}
      (hc : HasType env table c .bool)
      (hb : BodyTyped table (env.inside label) around.looping body) :
      StmtTyped table env around (.loop o c body) env.scopes
  | iterate {env : Env} {around : Surroundings} {o : Origin} {name : String} {e : Expr}
      {body : List Stmt} {s w t : Ty} {scopes : Scopes} {label label' : String}
      (he : HasType env table e s) (hw : env.registry.StandsFor s w) (hi : w.iterated? = some t)
      (hd : (env.scopes.push label).define ⟨name, .variable, t, some o.span, some ⟨o, some name⟩⟩
        = .ok (.inl scopes)) (ht : table o.place = some t)
      (hb : BodyTyped table ((env.withScopes scopes).inside label') around.looping body) :
      StmtTyped table env around (.iterate o name e body) env.scopes
  | block {env : Env} {around : Surroundings} {o : Origin} {body : List Stmt} {label : String}
      (hb : BodyTyped table (env.inside label) around body) :
      StmtTyped table env around (.block o body) env.scopes

/-- Statements one after the other, each in the scopes the one before leaves open. -/
inductive BodyTyped (table : TypeTable) : Env → Surroundings → List Stmt → Prop
  | nil {env : Env} {around : Surroundings} : BodyTyped table env around []
  | cons {env : Env} {around : Surroundings} {s : Stmt} {rest : List Stmt} {scopes : Scopes}
      (hs : StmtTyped table env around s scopes)
      (hrest : BodyTyped table (env.withScopes scopes) around rest) :
      BodyTyped table env around (s :: rest)

end

/-! ### Functions -/

/-- Parameters with their types, each in the table, added to the scopes one after the other. -/
inductive ParamsTyped (table : TypeTable) (kind : SymbolKind) :
    Scopes → List Param → List Ty → Scopes → Prop
  | nil {scopes : Scopes} : ParamsTyped table kind scopes [] [] scopes
  | cons {scopes next out : Scopes} {p : Param} {t : Ty} {params : List Param} {types : List Ty}
      (hd : scopes.define ⟨p.name, kind, t, some p.origin.span, some p.declaration⟩ = .ok
        (.inl next))
      (ht : table p.origin.place = some t) (hrest : ParamsTyped table kind next params types out) :
      ParamsTyped table kind scopes (p :: params) (t :: types) out

/-- The function is right: its body is, in one scope with its receiver and its parameters. -/
inductive FunctionTyped (table : TypeTable) (env : Env) (f : FunctionDef) (signature : Signature) :
    Prop
  | intro {label : String} {scopes inner : Scopes}
      (hreceiver : ParamsTyped table .receiver (env.scopes.push label) f.receiver.toList
        signature.receiver.toList scopes)
      (hparams : ParamsTyped table .parameter scopes f.params (signature.params.map Prod.snd) inner)
      (hbody : BodyTyped table (env.withScopes inner) { signature := some signature } f.body)

end TreeTyping
