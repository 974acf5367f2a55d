/-
Checking intact syntax ends in no fault.

A rule could go wrong by looking for a part that is not there, by writing to a scope that is closed,
or by following a type without end.  In intact syntax no part is missing.  A method has a function
type, and numbers of bytes are whole, so the rules that depend on this find what they look for.  A
block has a scope of its own, which is open, and a statement leaves the innermost scope as open as
it was.  What is left is the last: a default or a size that is never found, since an alias holds
itself.
-/
import TreeTyping.Proofs.Syntax.Intact
import TreeTyping.Proofs.Typing.Remarks
import TreeTyping.Proofs.Typing.Scoping

namespace TreeTyping

open List

/-- The methods have function types, and the word size is a whole number. -/
structure Env.Sound (env : Env) : Prop where
  methods : env.registry.Callable
  bits : ∃ n, env.wordBits = .int n

theorem Env.Sound.withScopes {env : Env} (h : env.Sound) (scopes : Scopes) :
    (env.withScopes scopes).Sound :=
  ⟨h.methods, h.bits⟩

namespace Inference

variable {t : Ty} {span : Span} {name : String} {o : Origin} {around : Surroundings}
  {expected : Option Ty}
  {op : Option Operator} {scopes : Scopes} {what : String} {i : Nominal} {e : Expr}

variable {r : Registry} {env : Env}

theorem spanOf_safe {span? : Option Span} (h : ∃ span, span? = some span) :
    Faultless r (spanOf span?) :=
  spanOf_plain.safe (Option.isSome_iff_exists.2 h)

theorem resolve_safe : Faultless r (lift (r.resolveUnderlying t .nowhere)) :=
  .lift ((r.resolveUnderlying_safe t _).mono fun _ _ => trivial)

theorem listBacking_safe (hr : r.Callable) {types : List Ty} {bits : Int} {constants : List Value} :
    Faultless r (listBacking r (.int bits) types expected constants span) := by
  refine .skip (expectedArray_plain.safe trivial) fun _ =>
    .skip (commonType_idle.safe hr) fun element => ?_
  exact .skip (.lift ((r.size_safe bits element).mono fun _ _ => trivial)) fun _ =>
    .skip .record fun _ => .pure trivial

/-! ### Single rules -/

/-- A method that is called has parameters and a result. -/
theorem methodType_safe (henv : env.Sound) {object : Ty} :
    Faultless env.registry (methodType env object name span) := by
  refine .bind (.lift (Registry.membersOf_safe henv.methods object)) fun members hmembers => ?_
  split
  · exact .complain
  · next member hmember =>
      have hcallable : member.Callable := hmembers _ (Keyed.mem_of_find? hmember)
      split
      · exact .complain
      · exact .pure trivial
      · next hkind hother =>
          obtain ⟨params, result, htype⟩ := hcallable hkind
          exact absurd htype (hother params result)

theorem conclude_safe : Faultless r (conclude o t) :=
  .skip .record fun _ => .pure trivial

theorem concludeCall_safe {result : Option Ty} : Faultless r (concludeCall o name result) := by
  cases result with
  | none => exact .pure trivial
  | some t => exact conclude_safe

/-! ### Expressions -/

attribute [local simp] yieldOf

/-- The expression has a span, and checking it ends in no fault. -/
structure Checks (env : Env) (e : Expr) : Prop where
  span : ∃ span, e.span? = some span
  yields : ∀ expected, Faultless env.registry (yieldOf env expected e)

theorem Checks.infer (h : Checks env e) : Faultless env.registry (infer env expected e) := by
  refine .skip (h.yields expected) fun y => ?_
  cases y with
  | value t => exact .pure trivial
  | nothing procedure => exact .skip (spanOf_safe h.span) fun _ => .complain

theorem items_safe {elements : List Expr} (h : ∀ e ∈ elements, Checks env e) :
    Faultless env.registry (items env expected elements) := by
  induction elements with
  | nil =>
    rw [items]
    exact .pure trivial
  | cons e rest ih =>
    obtain ⟨he, hrest⟩ := forall_mem_cons.1 h
    rw [items]
    exact .skip he.infer fun _ => .skip (ih hrest) fun _ => .pure trivial

theorem entries_safe {pairs : List (Expr × Expr)} (h : ∀ e ∈ pairs, Checks env e.1 ∧ Checks env e.2)
    {expected : Option (Ty × Ty)} : Faultless env.registry (entries env expected pairs) := by
  induction pairs with
  | nil =>
    rw [entries]
    exact .pure trivial
  | cons e rest ih =>
    obtain ⟨k, v⟩ := e
    obtain ⟨⟨hk, hv⟩, hrest⟩ := forall_mem_cons.1 h
    rw [entries]
    exact .skip hk.infer fun _ => .skip hv.infer fun _ => .skip (ih hrest) fun _ => .pure trivial

theorem binary_safe {left right : Expr} (hop : op.isSome = true) (hl : Checks env left)
    (hr : Checks env right) :
    Faultless env.registry (yieldOf env expected (.binary o left op right)) := by
  rw [yieldOf]
  split
  · exact .skip hr.infer fun _ => .skip hl.infer fun _ => .skip (binaryType_plain.safe hop) fun _ =>
      conclude_safe
  · exact .skip hl.infer fun _ => .skip hr.infer fun _ => .skip (binaryType_plain.safe hop) fun _ =>
      conclude_safe

theorem unary_safe {operand : Expr} (hop : op.isSome = true) (hintact : operand.Intact)
    (h : Checks env operand) :
    Faultless env.registry (yieldOf env expected (.unary o op operand)) := by
  cases operand with
  | literal inner v kind =>
    rw [yieldOf]
    exact .skip (literalType_plain.safe (hintact _ .self)) fun _ => .skip .record fun _ =>
      .skip (unaryType_plain.safe hop) fun _ => conclude_safe
  | _ =>
    rw [yieldOf]
    · exact .skip h.infer fun _ => .skip (unaryType_plain.safe hop) fun _ => conclude_safe
    · intro _ _ _ h
      cases h

section Expressions

variable (henv : env.Sound)

include henv

theorem arguments_safe {args : List Expr} (h : ∀ e ∈ args, Checks env e) {params : List Ty} :
    Faultless env.registry (arguments env params args) := by
  induction args generalizing params with
  | nil =>
    rw [arguments]
    · exact .pure trivial
    · intro _ _ _ _ _ h
      cases h
  | cons arg args ih =>
    obtain ⟨harg, hargs⟩ := forall_mem_cons.1 h
    cases params with
    | nil =>
      rw [arguments]
      · exact .pure trivial
      · intro _ _ _ _ h
        cases h
    | cons param params =>
      rw [arguments]
      exact .skip harg.infer fun _ => .skip (spanOf_safe harg.span) fun _ =>
        .skip (requireAssignable_idle.safe henv.methods) fun _ => ih hargs

theorem fields_safe {given : List (String × Expr)} (h : ∀ g ∈ given, Checks env g.2) {struct : Ty}
    {declared : Keyed Ty} : Faultless env.registry (fields env struct declared given) := by
  induction given with
  | nil =>
    rw [fields]
    exact .pure trivial
  | cons g rest ih =>
    obtain ⟨name, e⟩ := g
    obtain ⟨he, hrest⟩ := forall_mem_cons.1 h
    rw [fields]
    split
    · exact .skip (spanOf_safe he.span) fun _ => .complain
    · exact .skip he.infer fun _ => .skip (spanOf_safe he.span) fun _ =>
        .skip (requireAssignable_idle.safe henv.methods) fun _ => ih hrest

theorem call_safe {o : Origin} {callee : Expr} {args : List Expr}
    (hcallee : ∃ span, callee.span? = some span) (h : ∀ e ∈ args, Checks env e) :
    Faultless env.registry (yieldOf env expected (.call o callee args)) := by
  cases callee with
  | identifier n name =>
    rw [yieldOf]
    split
    · exact .skip .record fun _ => .skip (requireCount_plain.safe trivial) fun _ =>
        .skip (arguments_safe henv h) fun _ => concludeCall_safe
    · split
      · next operand =>
          exact .skip (conversionExpected_plain.safe trivial) fun _ =>
            .skip (h operand mem_cons_self).infer fun _ =>
            .skip (requireConvertible_idle.safe henv.methods) fun _ => conclude_safe
      · exact .complain
    · exact .complain
    · exact .complain
  | _ =>
    rw [yieldOf]
    · exact .skip (spanOf_safe hcallee) fun _ => .complain
    · intro _ _ h
      cases h

theorem index_safe {o : Origin} {object i : Expr} (ho : Checks env object)
    (hi : Checks env i) : Faultless env.registry (yieldOf env expected (.index o object i)) := by
  rw [yieldOf]
  refine .skip ho.infer fun _ => .skip resolve_safe fun w => ?_
  split
  · refine .skip hi.infer fun found => ?_
    split
    · exact conclude_safe
    · exact .skip (spanOf_safe hi.span) fun _ => .complain
  · exact .skip hi.infer fun _ => .skip (spanOf_safe hi.span) fun _ =>
      .skip (requireAssignable_idle.safe henv.methods) fun _ => conclude_safe
  · exact .complain

/-- **Checking an intact expression ends in no fault, unless an alias holds itself.** -/
theorem checks (h : e.Intact) : Checks env e := by
  refine ⟨h.span, fun expected => ?_⟩
  induction e using Expr.induction generalizing expected with
  | step e ih =>
    have hown := (Expr.intact_iff.1 h).1
    have part {c} (hc : c ∈ e.children) : Checks env c :=
      ⟨(h.child hc).span, ih c hc (h.child hc)⟩
    cases e with
    | literal o v kind =>
      rw [yieldOf]
      exact .skip (literalType_plain.safe hown) fun _ => conclude_safe
    | identifier o name =>
      rw [yieldOf]
      exact .skip (nameType_plain.safe trivial) fun _ => conclude_safe
    | binary o left op right =>
      exact binary_safe hown (part (by simp [Expr.children])) (part (by simp [Expr.children]))
    | unary o op operand =>
      exact unary_safe hown (h.child mem_cons_self) (part mem_cons_self)
    | call o callee args =>
      exact call_safe henv (h.child mem_cons_self).span fun e he => part (mem_cons_of_mem _ he)
    | methodCall o object method args =>
      rw [yieldOf]
      exact .skip (part mem_cons_self).infer fun _ => .skip (methodType_safe henv) fun _ =>
        .skip (requireCount_plain.safe trivial) fun _ =>
          .skip (arguments_safe henv fun e he => part (mem_cons_of_mem _ he)) fun _ =>
            concludeCall_safe
    | member o object name =>
      rw [yieldOf]
      exact .skip (part mem_cons_self).infer fun _ =>
        .skip (fieldType_plain.safe henv.methods) fun _ => conclude_safe
    | index o object i =>
      exact index_safe henv (part (by simp [Expr.children])) (part (by simp [Expr.children]))
    | cast o target operand =>
      rw [yieldOf]
      exact .skip (.lift (env.registry.typeOf_safe target hown)) fun _ =>
        .skip (conversionExpected_plain.safe trivial) fun _ =>
        .skip (part mem_cons_self).infer fun _ =>
          .skip (requireConvertible_idle.safe henv.methods) fun _ =>
          conclude_safe
    | list o elements =>
      obtain ⟨bits, hbits⟩ := henv.bits
      rw [yieldOf, hbits]
      exact .skip (items_safe fun e he => part he) fun _ =>
        .skip (listBacking_safe henv.methods) fun _ =>
        .skip .record fun _ => conclude_safe
    | map o pairs =>
      have hpairs : ∀ e ∈ pairs, Checks env e.1 ∧ Checks env e.2 := by
        intro e he
        exact ⟨part (mem_flatMap.2 ⟨e, he, by simp⟩), part (mem_flatMap.2 ⟨e, he, by simp⟩)⟩
      rw [yieldOf]
      exact .skip (entries_safe hpairs) fun _ => .skip (mapBacking_idle.safe henv.methods) fun _ =>
        .skip .record fun _ => conclude_safe
    | set o elements =>
      rw [yieldOf]
      exact .skip (items_safe fun e he => part he) fun _ =>
        .skip (setBacking_idle.safe henv.methods) fun _ =>
        .skip .record fun _ => conclude_safe
    | record o typeName given =>
      rw [yieldOf]
      exact .skip (literalStruct_plain.safe trivial) fun _ =>
        .skip (fields_safe henv fun g hg => part (mem_map_of_mem hg)) fun _ =>
          .skip (requireAllFields_plain.safe trivial) fun _ => conclude_safe
    | foreign f => cases hown
    | unreadable => cases hown

end Expressions

/-! ### Single statements -/

theorem define_safe (hopen : scopes.current.frozen = false) {symbol : Symbol} :
    Faultless r (define what scopes symbol span) := by
  have hwrite : TreeTyping.Safe r.Unending (scopes.write symbol) fun _ => True := by
    obtain ⟨inner, global⟩ := scopes
    have hscope {scope : Scope} (h : scope.frozen = false) :
        TreeTyping.Safe r.Unending (scope.define symbol) fun _ => True := by
      rw [Scope.define, h]
      trivial
    cases inner with
    | nil => exact .skip (hscope hopen) fun _ => trivial
    | cons scope rest => exact .skip (hscope hopen) fun _ => trivial
  have hdefine : TreeTyping.Safe r.Unending (scopes.define symbol) fun _ => True := by
    unfold Scopes.define
    split
    · trivial
    · exact .skip hwrite fun _ => trivial
  refine .skip (.lift hdefine) fun outcome => ?_
  cases outcome with
  | inl scopes => exact .pure trivial
  | inr previous => exact .complain

theorem recordBacking_safe : Faultless r (recordBacking o t) := by
  unfold recordBacking
  split
  · exact .record
  · exact .pure trivial

theorem defaultOf_safe : Faultless r (defaultOf r t) := by
  unfold defaultOf
  split
  · exact .pure trivial
  · next f hf => exact r.default_safe hf

theorem defaultWrite_safe {d : VarDecl} {declared : Option Ty} :
    Faultless env.registry (defaultWrite env d declared) := by
  cases declared with
  | none => exact .complain
  | some t => exact .skip defaultOf_safe fun _ => .skip recordBacking_safe fun _ => .pure trivial

theorem recordAssignment_safe {target : Expr} {write : Write} :
    Faultless r (recordAssignment env target write) := by
  unfold recordAssignment
  split
  · split
    · exact .record
    · exact .pure trivial
  · exact .pure trivial

theorem loopScope_safe : Faultless r (loopScope env o name t) :=
  .skip (define_safe rfl) fun _ => .skip .record fun _ => .pure trivial

section Statements

variable (henv : env.Sound)

include henv

theorem initialWrite_safe {d : VarDecl} {declared : Option Ty} (h : e.Intact) :
    Faultless env.registry (initialWrite env d declared e) := by
  refine .skip (checks henv h).infer fun found => ?_
  cases declared with
  | none => exact .pure trivial
  | some t =>
    refine .skip (spanOf_safe h.span) fun _ =>
      .skip (requireAssignable_idle.safe henv.methods) fun _ => ?_
    dsimp only
    split
    · exact .skip recordBacking_safe fun _ => .pure trivial
    · exact .pure trivial

/-- **An intact declaration in an open scope ends in no fault, unless an alias holds itself.** -/
theorem declare_safe {d : VarDecl} (h : d.Intact) (hopen : env.scopes.current.frozen = false) :
    Faultless env.registry (declare env d) := by
  refine .skip ?_ fun w => .skip (define_safe hopen) fun _ => .skip .record fun _ =>
    .skip .record fun _ =>
    .skip .record fun _ => .pure trivial
  refine .skip (.lift (env.registry.typeOf?_safe h.typeExpr)) fun declared => ?_
  split
  · exact defaultWrite_safe
  · next e he => exact initialWrite_safe henv (h.initializer e he)

theorem assign_safe {o : Origin} {target e : Expr} (ht : target.Intact) (he : e.Intact) :
    Faultless env.registry (assign env o target e) :=
  .skip (requireTarget_plain.safe (Option.isSome_iff_exists.2 ht.span)) fun _ =>
    .skip (checks henv ht).infer fun _ => .skip (checks henv he).infer fun _ =>
    .skip (spanOf_safe he.span) fun _ => .skip (requireAssignable_idle.safe henv.methods) fun _ =>
      recordAssignment_safe

theorem giveBack_safe {around : Surroundings} {o : Origin} {e? : Option Expr}
    (h : ∀ e ∈ e?, e.Intact) : Faultless env.registry (giveBack env around o e?) := by
  unfold giveBack
  split
  · exact .complain
  · split
    · exact .pure trivial
    · exact .complain
    · next e _ => exact .skip (spanOf_safe (h e rfl).span) fun _ => .complain
    · next e _ _ =>
        exact .skip (checks henv (h e rfl)).infer fun _ => .skip (spanOf_safe (h e rfl).span)
          fun _ => requireAssignable_idle.safe henv.methods

theorem panicMessage_safe {e? : Option Expr} (h : ∀ e ∈ e?, e.Intact) :
    Faultless env.registry (panicMessage env e?) := by
  unfold panicMessage
  split
  · exact .pure trivial
  · next e =>
      refine .skip (checks henv (h e rfl)).infer fun t => ?_
      split
      · exact .skip (spanOf_safe (h e rfl).span) fun _ => .complain
      · exact .pure trivial

theorem condition_safe (h : e.Intact) : Faultless env.registry (condition env what e) := by
  refine .skip (checks henv h).infer fun t => ?_
  split
  · exact .skip (spanOf_safe h.span) fun _ => .complain
  · exact .pure trivial

theorem armValues_safe {subject : Ty} {values : List Expr} (h : ∀ e ∈ values, e.Intact) :
    Faultless env.registry (armValues env subject values) := by
  induction values with
  | nil => exact .pure trivial
  | cons e rest ih =>
    obtain ⟨he, hrest⟩ := forall_mem_cons.1 h
    rw [armValues]
    refine .skip (checks henv he).infer fun t => ?_
    dsimp only
    split
    · exact .skip (spanOf_safe he.span) fun _ => .skip .complain fun _ => ih hrest
    · exact ih hrest

theorem iterated_safe (h : e.Intact) : Faultless env.registry (iterated env e) := by
  refine .skip (checks henv h).infer fun t => .skip resolve_safe fun w => ?_
  split
  · exact .pure trivial
  · exact .skip (spanOf_safe h.span) fun _ => .complain

end Statements

/-! ### Blocks -/

/-- Where a symbol may be added, the statement ends in no fault, and one may be added after it. -/
def StmtChecks (s : Stmt) : Prop :=
  ∀ env around, env.Sound → env.scopes.current.frozen = false →
    (statement env around s).Safe env.registry.Unending fun scopes => scopes.current.frozen = false

theorem statements_safe {body : List Stmt} (h : ∀ s ∈ body, StmtChecks s) {env : Env}
    (henv : env.Sound)
    (hopen : env.scopes.current.frozen = false) :
    Faultless env.registry (statements env around body) := by
  induction body generalizing env with
  | nil =>
    rw [statements]
    exact .pure trivial
  | cons s rest ih =>
    obtain ⟨hs, hrest⟩ := forall_mem_cons.1 h
    rw [statements]
    refine .bind (hs env around henv hopen) fun scopes hscopes => ?_
    exact ih hrest (henv.withScopes scopes) hscopes

theorem block_safe {body : List Stmt} (h : ∀ s ∈ body, StmtChecks s) {scope : String} {env : Env}
    (henv : env.Sound) : Faultless env.registry (statements (env.inside scope) around body) := by
  have hinside : (env.inside scope).Sound := henv.withScopes _
  exact statements_safe h hinside rfl

theorem optionalBlock_safe {scope : String} {otherwise : Option (List Stmt)} (henv : env.Sound)
    (h : ∀ last, otherwise = some last → ∀ s ∈ last, StmtChecks s) :
    Faultless env.registry (optionalBlock env around scope otherwise) := by
  cases otherwise with
  | none =>
    rw [optionalBlock]
    exact .pure trivial
  | some body =>
    rw [optionalBlock]
    exact .skip (block_safe (h body rfl) henv) fun _ => .pure trivial

theorem branches_safe {more : List Branch} (henv : env.Sound)
    (hconditions : ∀ b ∈ more, b.condition.Intact)
    (h : ∀ b ∈ more, ∀ s ∈ b.body, StmtChecks s) :
    Faultless env.registry (branches env around more) := by
  induction more with
  | nil =>
    rw [branches]
    exact .pure trivial
  | cons b rest ih =>
    obtain ⟨c, body⟩ := b
    obtain ⟨hc, hconditions⟩ := forall_mem_cons.1 hconditions
    obtain ⟨hb, hrest⟩ := forall_mem_cons.1 h
    rw [branches]
    exact .skip (condition_safe henv hc) fun _ => .skip (block_safe hb henv) fun _ =>
      ih hconditions hrest

theorem cases_safe {arms : List Case} {subject : Ty} (henv : env.Sound)
    (hvalues : ∀ a ∈ arms, ∀ e ∈ a.values, e.Intact) (h : ∀ a ∈ arms, ∀ s ∈ a.body, StmtChecks s) :
    Faultless env.registry (cases env around subject arms) := by
  induction arms with
  | nil =>
    rw [Inference.cases]
    exact .pure trivial
  | cons a rest ih =>
    obtain ⟨values, body⟩ := a
    obtain ⟨ha, hvalues⟩ := forall_mem_cons.1 hvalues
    obtain ⟨hb, hrest⟩ := forall_mem_cons.1 h
    rw [Inference.cases]
    exact .skip (armValues_safe henv ha) fun _ => .skip (block_safe hb henv) fun _ =>
      ih hvalues hrest

theorem statement_safe {s : Stmt} (h : s.Intact) (hblocks : ∀ b ∈ s.blocks, ∀ a ∈ b.2, StmtChecks a)
    (henv : env.Sound) (hopen : env.scopes.current.frozen = false) :
    Faultless env.registry (statement env around s) := by
  have hproper := h.own.proper
  cases s with rw [statement]
  | declare d => exact declare_safe henv (h.own.declared d rfl) hopen
  | assign o target e =>
    exact .skip (assign_safe henv (h.expr (by simp [Stmt.exprs])) (h.expr (by simp [Stmt.exprs])))
      fun _ => .pure trivial
  | expr o e =>
    exact .skip ((checks henv (h.expr mem_cons_self)).yields none) fun _ => .pure trivial
  | ret o e? =>
    exact .skip (giveBack_safe henv fun e he => h.expr (Option.mem_toList.2 he)) fun _ =>
      .pure trivial
  | panic o e? =>
    exact .skip (panicMessage_safe henv fun e he => h.expr (Option.mem_toList.2 he)) fun _ =>
      .pure trivial
  | brk o | cont o => exact .skip (requireLoop_plain.safe trivial) fun _ => .pure trivial
  | pass o => exact .pure trivial
  | cond o c body more otherwise =>
    obtain ⟨hbody, hmore, hlast⟩ := Stmt.forall_blocks_cond.1 hblocks
    have hconditions : ∀ b ∈ more, b.condition.Intact :=
      fun b hb => h.expr (mem_cons_of_mem _ (mem_map_of_mem hb))
    exact .skip (condition_safe henv (h.expr mem_cons_self)) fun _ =>
      .skip (block_safe hbody henv) fun _ =>
      .skip (branches_safe henv hconditions hmore) fun _ =>
        .skip (optionalBlock_safe henv hlast) fun _ => .pure trivial
  | select o subject arms otherwise =>
    obtain ⟨harms, hlast⟩ := Stmt.forall_blocks_select.1 hblocks
    have hvalues : ∀ a ∈ arms, ∀ e ∈ a.values, e.Intact :=
      fun a ha e he => h.expr (mem_cons_of_mem _ (mem_flatMap.2 ⟨a, ha, he⟩))
    exact .skip (checks henv (h.expr mem_cons_self)).infer fun t =>
      .skip (cases_safe henv hvalues harms) fun _ => .skip (optionalBlock_safe henv hlast) fun _ =>
        .pure trivial
  | loop o c body =>
    exact .skip (condition_safe henv (h.expr mem_cons_self)) fun _ =>
      .skip (block_safe (hblocks _ mem_cons_self) henv) fun _ => .pure trivial
  | iterate o name e body =>
    exact .skip (iterated_safe henv (h.expr mem_cons_self)) fun t =>
      .skip loopScope_safe fun scopes =>
      .skip (block_safe (hblocks _ mem_cons_self) (henv.withScopes scopes)) fun _ => .pure trivial
  | block o body => exact .skip (block_safe (hblocks _ mem_cons_self) henv) fun _ => .pure trivial
  | foreign f => cases hproper
  | unreadable => cases hproper

/-- **Checking an intact statement ends in no fault, unless an alias holds itself.** -/
theorem stmtChecks {s : Stmt} (h : s.Intact) : StmtChecks s := by
  induction s using Stmt.induction with
  | step s ih =>
    intro env around henv hopen
    have hsafe : Faultless env.registry (statement env around s) :=
      statement_safe h (fun b hb a ha => ih b hb a ha (h.block hb a ha)) henv hopen
    -- a statement does not close the scope it stands in
    refine hsafe.strengthen fun scopes hscopes => ?_
    rw [(statement_grows hscopes).frozen, hopen]

/-! ### Functions -/

theorem define_open (hopen : scopes.current.frozen = false) {symbol : Symbol} :
    (define what scopes symbol span).Safe r.Unending fun scopes' =>
    scopes'.current.frozen = false := by
  refine (define_safe hopen).strengthen fun scopes' hscopes => ?_
  rw [(define_grows hscopes).frozen, hopen]

theorem receiver_safe {param : Option Param} {type : Option Ty}
    (hopen : scopes.current.frozen = false) :
    (receiver scopes param type).Safe r.Unending fun scopes' => scopes'.current.frozen = false := by
  unfold receiver
  split
  · exact .bind (define_open hopen) fun scopes' hscopes => .skip .record fun _ => .pure hscopes
  · exact .pure hopen

theorem parameters_safe {params : List Param} {types : List (String × Ty)}
    (hopen : scopes.current.frozen = false) :
    (parameters scopes params types).Safe r.Unending fun scopes' =>
    scopes'.current.frozen = false := by
  induction params generalizing scopes types with
  | nil => exact .pure hopen
  | cons p params ih =>
    cases types with
    | nil => exact .pure hopen
    | cons entry types =>
      rw [parameters]
      exact .bind (define_open hopen) fun scopes' hscopes => .skip .record fun _ => ih hscopes

/-- **Checking an intact function ends in no fault, unless an alias holds itself.** -/
theorem function_safe (henv : env.Sound) {f : FunctionDef} (h : f.Intact) {signature : Signature} :
    Faultless env.registry (function env f signature) := by
  refine .bind (receiver_safe rfl) fun scopes hscopes =>
    .bind (parameters_safe hscopes) fun scopes' hscopes' => ?_
  exact .skip (statements_safe (fun s hs => stmtChecks (h.body s hs)) (henv.withScopes scopes')
    hscopes') fun _ =>
    .pure trivial

end Inference

end TreeTyping
