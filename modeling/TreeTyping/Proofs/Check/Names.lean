/-
Names stand for what the text says.

The check hands a stack of scopes through every statement, and looks names up in it wherever an
expression is met.  In an accepted module this comes to what can be read off the text alone: at
every point the scopes of the check mirror those around the point in the text, name by name, and the
symbol that a name leads to has the type that was recorded where the name is declared.  So a name in
an expression has the type recorded for the declaration it stands for, or is that of a function of
the module.  The one exception is a name that is called to convert to the type of that name.

A scope refuses a name that it has already, so no scope of an accepted function declares a name
twice.
-/
import TreeTyping.Proofs.Check.Module
import TreeTyping.Proofs.Syntax.Nesting
import TreeTyping.Proofs.Typing.Scoping

namespace TreeTyping

variable {table : TypeTable}

/-! ### Scopes of the check and of the text -/

/-- The same names are declared, and each leads to a symbol of the type that is recorded. -/
def Scopes.Mirrors (table : TypeTable) (s : Scopes) (n : Nesting) : Prop :=
  ∀ name, (s.lookup? name).map (fun symbol => some symbol.type) = (n.resolve name).map table

namespace Scopes.Mirrors

variable {s s' : Scopes} {n : Nesting}

theorem push (h : s.Mirrors table n) (label : String) : (s.push label).Mirrors table n.enter := h

theorem define (h : s.Mirrors table n) {symbol : Symbol} {q : Place}
    (hdefine : s.define symbol = .ok (.inl s'))
    (hq : table q = some symbol.type) : s'.Mirrors table (n.declare symbol.name q) := by
  intro name
  rw [define_lookup? hdefine, Nesting.resolve_declare]
  by_cases hname : name = symbol.name
  · rw [if_pos hname, if_pos hname, Option.map_some, Option.map_some, hq]
  · rw [if_neg hname, if_neg hname]
    exact h name

/-- A name of a variable has the type recorded for its declaration. -/
theorem type_eq (h : s.Mirrors table n) {name : String} {symbol : Symbol}
    (hs : s.lookup? name = some symbol) :
    ∃ q, n.resolve name = some q ∧ table q = some symbol.type := by
  have hname := h name
  rw [hs, Option.map_some] at hname
  obtain ⟨q, hq, htype⟩ := Option.map_eq_some_iff.1 hname.symm
  exact ⟨q, hq, htype⟩

theorem resolve_eq_none (h : s.Mirrors table n) {name : String} (hs : s.lookup? name = none) :
    n.resolve name = none := by
  have hname := h name
  rw [hs, Option.map_none] at hname
  exact Option.map_eq_none_iff.1 hname.symm

end Scopes.Mirrors

section Statements

variable {env : Env} {around : Surroundings} {s : Stmt} {scopes : Scopes} {n : Nesting}

theorem DeclarationTyped.mirrors {d : VarDecl} (h : DeclarationTyped table env d scopes)
    (hn : env.scopes.Mirrors table n) : scopes.Mirrors table (n.declare d.name d.origin.place) := by
  obtain ⟨-, ht, hdefine⟩ := h
  exact hn.define hdefine ht

theorem StmtTyped.mirrors (h : StmtTyped table env around s scopes)
    (hn : env.scopes.Mirrors table n) : scopes.Mirrors table (s.behind n) := by
  cases h with
  | declare h => exact h.mirrors hn
  | assign | value | procedure | returnValue | returnNothing | panic | panicWith | brk | cont
  | pass | cond | select
  | loop | iterate | block => exact hn

theorem StmtTyped.within {l : Bool} {body : List Stmt} (h : StmtTyped table env around s scopes)
    (hn : env.scopes.Mirrors table n) (hb : (l, body) ∈ s.blocks) :
    ∃ inner around', BodyTyped table inner around' body ∧ env.Agrees inner ∧
      inner.scopes.Mirrors table (s.within n) := by
  have hinside (label : String) : (env.inside label).scopes.Mirrors table n.enter := hn.push label
  cases h with
  | cond _ hfirst _ hmore hlast =>
    rcases (Stmt.mem_blocks_cond.1 hb).2 with rfl | ⟨b, hmem, rfl⟩ | hb
    · exact ⟨_, _, hfirst, ⟨rfl, rfl⟩, hinside _⟩
    · exact ⟨_, _, hmore b hmem, ⟨rfl, rfl⟩, hinside _⟩
    · exact ⟨_, _, hlast _ hb, ⟨rfl, rfl⟩, hinside _⟩
  | select _ _ harms hlast =>
    rcases (Stmt.mem_blocks_select.1 hb).2 with ⟨a, hmem, rfl⟩ | hb
    · exact ⟨_, _, harms a hmem, ⟨rfl, rfl⟩, hinside _⟩
    · exact ⟨_, _, hlast _ hb, ⟨rfl, rfl⟩, hinside _⟩
  | loop _ hbody | block hbody =>
    obtain ⟨rfl, rfl⟩ := Prod.mk.inj (List.mem_singleton.1 hb)
    exact ⟨_, _, hbody, ⟨rfl, rfl⟩, hinside _⟩
  | iterate _ _ _ hdefine ht hbody =>
    obtain ⟨rfl, rfl⟩ := Prod.mk.inj (List.mem_singleton.1 hb)
    have hheader := (hn.push _).define hdefine ht
    exact ⟨_, _, hbody, ⟨rfl, rfl⟩, hheader.push _⟩
  | declare | assign | value | procedure | returnValue | returnNothing | panic | panicWith | brk
  | cont
  | pass => cases hb

/-- Where an expression stands, its statement is right in scopes that mirror those around it. -/
theorem BodyTyped.stands {body : List Stmt} {inner : Nesting} {e : Expr}
    (h : BodyTyped table env around body)
    (hn : env.scopes.Mirrors table n) (he : Stmt.Stands n body inner e) :
    ∃ env' around' s scopes, env.Agrees env' ∧ env'.scopes.Mirrors table inner ∧
      StmtTyped table env' around' s scopes ∧ e ∈ s.exprs := by
  induction he generalizing env around with
  | here he =>
    cases h with
    | cons hs hrest => exact ⟨env, around, _, _, .refl env, hn, hs, he⟩
  | inside hb _ ih =>
    cases h with
    | cons hs hrest =>
      obtain ⟨inside, around', hbody, hagrees, hmirrors⟩ := hs.within hn hb
      obtain ⟨env', around'', s, scopes, hagrees', hfound⟩ := ih hbody hmirrors
      exact ⟨env', around'', s, scopes, hagrees.trans hagrees', hfound⟩
  | later _ ih =>
    cases h with
    | cons hs hrest =>
      obtain ⟨env', around', s, scopes, hagrees, hfound⟩ := ih hrest (hs.mirrors hn)
      exact ⟨env', around', s, scopes, ⟨hagrees.registry, hagrees.functions⟩, hfound⟩

end Statements

theorem ParamsTyped.mirrors {kind : SymbolKind} {scopes out : Scopes} {params : List Param}
    {types : List Ty}
    {n : Nesting} (h : ParamsTyped table kind scopes params types out)
    (hn : scopes.Mirrors table n) :
    out.Mirrors table (n.withParams params) := by
  induction h generalizing n with
  | nil => exact hn
  | cons hdefine ht _ ih => exact ih (hn.define hdefine ht)

theorem DeclarationsTyped.mirrors {env : Env} {ds : List VarDecl} {scopes : Scopes} {n : Nesting}
    (h : DeclarationsTyped table env ds scopes) (hn : env.scopes.Mirrors table n) :
    scopes.Mirrors table ((ds.map .proper).foldl Nesting.withVariable n) := by
  induction h generalizing n with
  | nil => exact hn
  | cons hd _ ih => exact ih (hd.mirrors hn)

/-! ### Names in expressions -/

/-- What a name in the expression `e` is, where the scopes `n` are around it. -/
inductive Module.Denotes (m : Module) (r : Registry) (table : TypeTable) (n : Nesting) (e : Expr)
    (o : Origin) (name : String) : Prop
  /-- A variable, which has the type recorded for its declaration, -/
  | variable {q : Place} {t : Ty} (hn : n.resolve name = some q) (hq : table q = some t)
      (ho : table o.place = some t)
  /-- or, if there is none, a function of the module, which has the type of its signature. -/
  | function {f : FunctionDef} {signature : Signature} (hn : n.resolve name = none)
      (hf : .proper f ∈ m.functions)
      (hr : f.receiver = none) (hname : f.name = name)
      (hs : Signatures.signatureOf r f = .ok signature)
      (ho : table o.place = some signature.type)
  /-- If there is neither, the name is called to convert to the type of that name. -/
  | conversion {c : Origin} {operand : Expr} {t : Ty} (hn : n.resolve name = none)
      (hf : ∀ f, .proper f ∈ m.functions → f.receiver = none → f.name ≠ name)
      (hr : r.lookup? name = some t)
      (hcall : (Expr.call c (.identifier o name) [operand]).Occurs e)

namespace ModuleTyped

variable {env inner : Env} {m : Module} {n : Nesting} {e : Expr} {o : Origin} {name : String}

theorem name_ne_of_find?_eq_none (h : ModuleTyped table env m)
    (hname : env.functions.find? name = none) :
    ∀ f, .proper f ∈ m.functions → f.receiver = none → f.name ≠ name := by
  rintro f hf hr rfl
  obtain ⟨f', signature, heq, hs, -⟩ := h.functions _ hf
  cases heq
  have hfound := (h.callable f.name signature).2 ⟨f, hf, hs, hr, rfl⟩
  cases hname.symm.trans hfound

theorem denotes_of_hasType (h : ModuleTyped table env m) (hagrees : env.Agrees inner)
    (hn : inner.scopes.Mirrors table n) {t : Ty} (ht : HasType inner table (.identifier o name) t) :
    m.Denotes env.registry table n e o name := by
  cases ht with
  | identifier hname ho =>
    unfold Env.typeOfName? at hname
    rw [hagrees.functions] at hname
    split at hname
    · rename_i symbol hsymbol
      cases hname
      obtain ⟨q, hq, htype⟩ := hn.type_eq hsymbol
      exact .variable hq htype ho
    · rename_i hsymbol
      obtain ⟨signature, hfound, rfl⟩ := Option.map_eq_some_iff.1 hname
      obtain ⟨f, hf, hs, hr, hfname⟩ := (h.callable name signature).1 hfound
      exact .function (hn.resolve_eq_none hsymbol) hf hr hfname hs ho

theorem denotes_of_namesConversion (h : ModuleTyped table env m) (hagrees : env.Agrees inner)
    (hn : inner.scopes.Mirrors table n) {call : Expr} (hcall : call.Occurs e)
    (hc : NamesConversion inner table (.identifier o name) call) :
    m.Denotes env.registry table n e o name := by
  cases hc with
  | intro hname hr _ =>
    unfold Env.typeOfName? at hname
    rw [hagrees.functions] at hname
    rw [hagrees.registry] at hr
    split at hname
    · cases hname
    · rename_i hsymbol
      exact .conversion (hn.resolve_eq_none hsymbol)
        (h.name_ne_of_find?_eq_none (Option.map_eq_none_iff.1 hname)) hr hcall

theorem denotes_of_occurs (h : ModuleTyped table env m) (hagrees : env.Agrees inner)
    (hn : inner.scopes.Mirrors table n) {part : Expr} {t : Ty} (ht : HasType inner table part t)
    (ho : (Expr.identifier o name).Occurs part) (hpart : ∀ a : Expr, a.Occurs part → a.Occurs e) :
    m.Denotes env.registry table n e o name := by
  rcases ht.occurs ho with ⟨t, ht⟩ | ⟨call, hcall, hc⟩
  · exact h.denotes_of_hasType hagrees hn ht
  · exact h.denotes_of_namesConversion hagrees hn (hpart call hcall) hc

/-- **Every name in a body that is right is what the scopes around it say.** -/
theorem denotes (h : ModuleTyped table env m) {around : Surroundings} {body : List Stmt}
    {n' : Nesting} (hbody : BodyTyped table inner around body) (hagrees : env.Agrees inner)
    (hn : inner.scopes.Mirrors table n) (he : Stmt.Stands n body n' e)
    (ho : (Expr.identifier o name).Occurs e) : m.Denotes env.registry table n' e o name := by
  obtain ⟨env', around', s, scopes, hagrees', hmirrors, hs, he⟩ := hbody.stands hn he
  have hagrees := hagrees.trans hagrees'
  rcases hs.exprs he with ⟨t, ht⟩ | ⟨_, -, hcall⟩
  · exact h.denotes_of_occurs hagrees hmirrors ht ho fun _ ha => ha
  · -- a call of a procedure is no name, and its parts have values
    cases ho with
    | self => cases hcall
    | inside hc ho =>
      obtain ⟨t, ht⟩ := hcall.children hc
      exact h.denotes_of_occurs hagrees hmirrors ht ho fun _ ha => .inside hc ha

end ModuleTyped

/-! ### Names that scopes declare -/

/-- A definition changes no other name of the innermost scope. -/
theorem Scopes.define_lookupLocal?_ne {s s' : Scopes} {symbol : Symbol}
    (h : s.define symbol = .ok (.inl s'))
    {name : String} (hname : name ≠ symbol.name) : s'.lookupLocal? name = s.lookupLocal? name := by
  have hcurrent := (chain_eq s').symm.trans (define_chain h).2
  rw [lookupLocal?, Scope.find?, (List.cons.inj hcurrent).1]
  exact Keyed.find?_insert_ne hname _ _

/-- The names are different, and the innermost scope has none of them. -/
def Scopes.Free (s : Scopes) (names : List String) : Prop :=
  names.Nodup ∧ ∀ name ∈ names, s.lookupLocal? name = none

namespace Scopes.Free

theorem nil (s : Scopes) : s.Free [] := ⟨List.nodup_nil, List.forall_mem_nil _⟩

/-- What is free behind a definition was free before it, and so was the name that is defined. -/
theorem cons {s s' : Scopes} {symbol : Symbol} {names : List String}
    (hdefine : s.define symbol = .ok (.inl s'))
    (h : s'.Free names) : s.Free (symbol.name :: names) := by
  obtain ⟨hnodup, hfree⟩ := h
  obtain ⟨hself, -⟩ := define_chain hdefine
  have hnew : symbol.name ∉ names := by
    intro hmem
    cases (define_lookupLocal? hdefine).symm.trans (hfree _ hmem)
  refine ⟨List.nodup_cons.2 ⟨hnew, hnodup⟩, List.forall_mem_cons.2 ⟨hself, fun name hname => ?_⟩⟩
  have hne : name ≠ symbol.name := fun heq => hnew (heq ▸ hname)
  rw [← define_lookupLocal?_ne hdefine hne]
  exact hfree name hname

end Scopes.Free

theorem BodyTyped.free {env : Env} {around : Surroundings} {body : List Stmt}
    (h : BodyTyped table env around body) : env.scopes.Free (Stmt.declaredNames body) := by
  induction body generalizing env with
  | nil => exact .nil _
  | cons s rest ih =>
    cases h with
    | cons hs hrest =>
      have hfree := ih hrest
      cases hs with
      | declare h =>
        obtain ⟨-, -, hdefine⟩ := h
        exact .cons hdefine hfree
      | assign | value | procedure | returnValue | returnNothing | panic | panicWith | brk | cont
      | pass
      | cond | select | loop | iterate | block => exact hfree

theorem ParamsTyped.free {kind : SymbolKind} {scopes out : Scopes} {params : List Param}
    {types : List Ty}
    {names : List String} (h : ParamsTyped table kind scopes params types out)
    (hnames : out.Free names) :
    scopes.Free (params.map Param.name ++ names) := by
  induction h with
  | nil => exact hnames
  | cons hdefine _ _ ih => exact .cons hdefine (ih hnames)

/-- **No scope of a function that is right declares a name twice**, nor one of a block in it. -/
theorem FunctionTyped.declaredNames_nodup {env : Env} {f : FunctionDef} {signature : Signature}
    (h : FunctionTyped table env f signature) : f.declaredNames.Nodup ∧
      ∀ l a, Stmt.OccursIn l a f.body → ∀ block ∈ a.blocks, (Stmt.declaredNames block.2).Nodup := by
  obtain ⟨hreceiver, hparams, hbody⟩ := h
  refine ⟨(hreceiver.free (hparams.free hbody.free)).1, fun l a ha block hblock => ?_⟩
  obtain ⟨inner, out, -, hs⟩ := hbody.occurs ha
  obtain ⟨innermost, -, hinner⟩ := hs.blocks hblock
  exact hinner.free.1

/-! ### Accepted modules -/

theorem ModuleTyped.mirrors {env : Env} {m : Module} (h : ModuleTyped table env m) :
    env.scopes.Mirrors table m.nesting := by
  obtain ⟨ds, scopes, hds, henv, htyped⟩ := h.vars
  have hscopes : scopes.Mirrors table m.nesting := by
    rw [Module.nesting, hds]
    exact htyped.mirrors fun _ => rfl
  intro name
  rw [henv, Scopes.closed_lookup?]
  exact hscopes name

/--
**Names resolve lexically.**  In a function of an accepted module, every expression of the body
stands where the scopes around it can be read off the text, and every name in it has the type
recorded for the declaration it stands for there, else the type of the function of that name, unless
it is called to convert to a type.  No scope of the function declares a name twice.
-/
theorem names_resolve_lexically {s : Settings} {p : Place} {t : Tree} {m : Module} {c : Checked}
    (hlimit : 1 ≤ s.maxErrors) (hk : t.keysDistinct = true) (hm : Module.ofTree? p t = some m)
    (hcheck : m.check s = .ok c) (haccepted : c.accepted = true) (f : FunctionDef)
    (hf : .proper f ∈ m.functions) :
    (∀ l a e, Stmt.OccursIn l a f.body → e ∈ a.exprs →
      ∃ n, Stmt.Stands (f.nesting m.nesting) f.body n e) ∧
    (∀ n e o name, Stmt.Stands (f.nesting m.nesting) f.body n e → (Expr.identifier o name).Occurs
      e → m.Denotes c.env.registry (Fact.table c.facts) n e o name) ∧
    f.declaredNames.Nodup ∧
    (∀ l a, Stmt.OccursIn l a f.body → ∀ block ∈ a.blocks, (Stmt.declaredNames block.2).Nodup) := by
  have htyped : ModuleTyped (Fact.table c.facts) c.env m :=
    (Module.check_establish hlimit hcheck haccepted).table (Module.places_nodup hk hm)
  obtain ⟨f', signature, heq, -, hfunction⟩ := htyped.functions _ hf
  cases heq
  refine ⟨fun l a e ha he => ha.stands he _, fun n e o name he ho => ?_,
    hfunction.declaredNames_nodup⟩
  obtain ⟨hreceiver, hparams, hbody⟩ := hfunction
  have hscopes := hparams.mirrors (hreceiver.mirrors (htyped.mirrors.push _))
  exact htyped.denotes hbody ⟨rfl, rfl⟩ hscopes he ho

/--
A module with the variable `x: int = 1` and a procedure in which `x` is three variables: `func
walk(flags: list<bool>): x = int(x); for x in flags: var y: bool = x; var x: int = 2; walk(flags); x
= x`.
-/
def walkTree : Tree :=
  let name (s : String) : Tree := .node .identifier .nowhere [.text s]
  let number (n : Int) : Tree := .node .literal .nowhere [.int n, .literalKind .int]
  let type (s : String) : Tree := .node .simpleType .nowhere [.text s]
  let var (s t : String) (e : Tree) : Tree := .node .varDecl .nowhere [.text s, type t, e]
  let assign (s : String) (e : Tree) : Tree := .node .assignmentStatement .nowhere [name s, e]
  let call (s : String) (e : Tree) : Tree := .node .functionCall .nowhere [name s, .list [e]]
  let block (body : List Tree) : Tree := .node .block .nowhere [.list body]
  let flags : Tree := .node .parameter .nowhere
    [.text "flags", .node .genericType .nowhere [.text "list", .list [type "bool"], .null]]
  let loop : Tree := .node .forStatement .nowhere [.text "x", name "flags",
    block [var "y" "bool" (name "x"), var "x" "int" (number 2),
      .node .expressionStatement .nowhere [call "walk" (name "flags")], assign "x" (name "x")]]
  let walk : Tree := .node .functionDef .nowhere
    [.text "walk", .list [flags], .null, block [assign "x" (call "int" (name "x")), loop], .null]
  .node .compilationUnit .nowhere
    [.text "walk", .list [], .list [var "x" "int" (number 1)], .list [walk]]

/-- The module of that tree. -/
def walking : Module := (Module.ofTree? (.root 0) walkTree).get rfl

/-- The module is accepted, so the names in its procedure resolve lexically. -/
theorem names_resolve_lexically_walking : ∃ c f, walking.check {} = .ok c ∧ c.accepted = true ∧
    .proper f ∈ walking.functions ∧
    (∀ l a e, Stmt.OccursIn l a f.body → e ∈ a.exprs →
      ∃ n, Stmt.Stands (f.nesting walking.nesting) f.body n e) ∧
    (∀ n e o name, Stmt.Stands (f.nesting walking.nesting) f.body n e →
      (Expr.identifier o name).Occurs e →
      walking.Denotes c.env.registry (Fact.table c.facts) n e o name) ∧
    f.declaredNames = ["flags"] ∧ f.declaredNames.Nodup ∧
    (∀ l a, Stmt.OccursIn l a f.body → ∀ block ∈ a.blocks, (Stmt.declaredNames block.2).Nodup) := by
  have hchecked : (walking.check {}).toOption.map Checked.accepted = some true := by decide +kernel
  obtain ⟨c, hc, haccepted⟩ := Option.map_eq_some_iff.1 hchecked
  have hcheck := Except.toOption_eq_some.1 hc
  obtain ⟨f, hf, hnames⟩ : ∃ f, .proper f ∈ walking.functions ∧ f.declaredNames = ["flags"] :=
    ⟨_, List.mem_cons_self, rfl⟩
  obtain ⟨hstands, hdenotes, hnodup, hblocks⟩ :=
    names_resolve_lexically (t := walkTree) (by decide) rfl rfl hcheck haccepted f hf
  exact ⟨c, f, hcheck, haccepted, hf, hstands, hdenotes, hnames, hnodup, hblocks⟩

end TreeTyping
