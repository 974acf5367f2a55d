/-
What is checked is typed.

When the check of an expression or statement succeeds, any table that holds the types it recorded is
right about it, by the rules of `Proofs/Typing/Derivation.lean`.  The proof follows the syntax: one
lemma for each form says that the whole is right when its parts are, and an induction over
expressions, then one over statements, puts them together.

The type a place expects and the order in which operands are looked at disappear here: a literal
ends up with a type that its kind can have, and two operands with the same type, whichever came
first.
-/
import TreeTyping.Proofs.Typing.Rules

namespace TreeTyping

open List

namespace Inference

variable {table : TypeTable} {env : Env} {o : Origin} {t : Ty} {name : String}
  {around : Surroundings} {op : Option Operator} {e : Expr}

/-! ### Expressions -/

/-- What an expression yields is right: its value has its type, or it is a call of a procedure. -/
def YieldTyped (table : TypeTable) (env : Env) (e : Expr) : Yield → Prop
  | .value t => HasType env table e t
  | .nothing _ => CallsProcedure env table e

/-- Checking the expression concludes what is right, whatever its place expects. -/
def Sound (table : TypeTable) (env : Env) (e : Expr) : Prop :=
  ∀ expected, Ensures table (yieldOf env expected e) (YieldTyped table env e)

theorem Sound.infer (h : Sound table env e) {expected : Option Ty} :
    Ensures table (infer env expected e) (HasType env table e) := by
  refine .bind (h expected) fun y hy => ?_
  cases y with
  | value t => exact .pure hy
  | nothing procedure => exact .skip fun _ => .complain

theorem conclude_ensures (h : table o.place = some t → HasType env table e t) :
    Ensures table (conclude o t) (YieldTyped table env e) :=
  .bind .record fun _ ht => .pure (h ht)

theorem sound_literal {v : Value} {kind : Option LiteralKind} :
    Sound table env (.literal o v kind) := by
  intro expected
  rw [yieldOf]
  refine .bind literalType_ensures fun t ht => ?_
  obtain ⟨k, rfl, hk⟩ := ht
  exact conclude_ensures fun h => .literal hk h

theorem sound_identifier : Sound table env (.identifier o name) := by
  intro expected
  rw [yieldOf]
  exact .bind nameType_ensures fun t ht => conclude_ensures fun h => .identifier ht h

theorem binary_ensures {left right : Expr} {l r : Ty} (hl : HasType env table left l)
    (hr : HasType env table right r) :
    Ensures table (binaryType env.registry op l r o.span >>= conclude o)
      (YieldTyped table env (.binary o left op right)) := by
  refine .bind binaryType_ensures fun t ht => ?_
  obtain ⟨op, w, rfl, rfl, hw, hop⟩ := ht
  exact conclude_ensures fun h => .binary hl hr hw hop h

theorem sound_binary {left right : Expr} (hl : Sound table env left)
    (hr : Sound table env right) : Sound table env (.binary o left op right) := by
  intro expected
  rw [yieldOf]
  split
  · exact .bind hr.infer fun r hr => .bind hl.infer fun l hl => binary_ensures hl hr
  · exact .bind hl.infer fun l hl => .bind hr.infer fun r hr => binary_ensures hl hr

theorem unary_ensures {operand : Expr} (he : HasType env table operand t) :
    Ensures table (unaryType env.registry op t o.span >>= conclude o)
      (YieldTyped table env (.unary o op operand)) := by
  refine .bind unaryType_ensures fun u hu => ?_
  obtain ⟨op, w, rfl, hw, hop⟩ := hu
  exact conclude_ensures fun h => .unary he hw hop h

-- A literal under an operator is typed by a rule of its own, which takes the sign into account.
theorem sound_unary {operand : Expr} (he : Sound table env operand) :
    Sound table env (.unary o op operand) := by
  intro expected
  cases operand with
  | literal inner v kind =>
    rw [yieldOf]
    refine .bind literalType_ensures fun t ht => .bind .record fun _ hrecorded => ?_
    obtain ⟨k, rfl, hk⟩ := ht
    exact unary_ensures (.literal hk hrecorded)
  | _ =>
    rw [yieldOf]
    · exact .bind he.infer fun t ht => unary_ensures ht
    · intro inner v kind h
      cases h

theorem arguments_ensures {params : List Ty} {args : List Expr} (h : ∀ e ∈ args, Sound table env e)
    (hcount : args.length = params.length) :
    Ensures table (arguments env params args) (fun _ =>
      ∃ types, HaveTypes env table args types ∧ List.Forall₂ env.registry.Assignable
        params types) := by
  induction args generalizing params with
  | nil =>
    obtain rfl : params = [] := length_eq_zero_iff.1 hcount.symm
    rw [arguments]
    · exact .pure ⟨[], .nil, .nil⟩
    · intro _ _ _ _ hp
      cases hp
  | cons arg args ih =>
    cases params with
    | nil => cases hcount
    | cons param params =>
      obtain ⟨harg, hargs⟩ := forall_mem_cons.1 h
      rw [arguments]
      refine .bind harg.infer fun t ht => .skip fun _ => ?_
      refine .bind requireAssignable_ensures fun _ hassign => ?_
      refine (ih hargs (Nat.succ.inj hcount)).mono fun _ hrest => ?_
      obtain ⟨types, htypes, hall⟩ := hrest
      exact ⟨t :: types, .cons ht htypes, .cons hassign hall⟩

theorem typeOfName?_of_function {params : List Ty} {result : Option Ty}
    (h : env.calleeOf name = .function params result) :
    env.typeOfName? name = some (.function params result) := by
  unfold Env.calleeOf at h
  split at h
  · next hname =>
      cases h
      exact hname
  · cases h
  · split at h <;> cases h

theorem names_of_conversion (h : env.calleeOf name = .conversion t) :
    env.typeOfName? name = none ∧ env.registry.lookup? name = some t := by
  unfold Env.calleeOf at h
  split at h
  · cases h
  · cases h
  · next hname =>
      split at h
      · next htype =>
          cases h
          exact ⟨hname, htype⟩
      · cases h

theorem sound_call {callee : Expr} {args : List Expr} (h : ∀ e ∈ args, Sound table env e) :
    Sound table env (.call o callee args) := by
  intro expected
  cases callee with
  | identifier n name =>
    rw [yieldOf]
    split
    · next params result hcallee =>
        refine .bind .record fun _ hn => .bind requireCount_ensures fun _ hcount => ?_
        refine .bind (arguments_ensures h hcount) fun _ hargs => ?_
        obtain ⟨types, htypes, hall⟩ := hargs
        have hname := HasType.identifier (typeOfName?_of_function hcallee) hn
        unfold concludeCall
        split
        · exact conclude_ensures fun ht => .call hname htypes hall ht
        · exact .pure (CallsProcedure.call hname htypes hall)
    · next target hcallee =>
        obtain ⟨hname, htype⟩ := names_of_conversion hcallee
        split
        · next operand =>
            refine .skip fun _ => .bind (h operand mem_cons_self).infer fun source hs => ?_
            refine .bind requireConvertible_ensures fun _ hc => ?_
            exact conclude_ensures fun ht => .conversion hname htype hs hc ht
        · exact .complain
    · exact .complain
    · exact .complain
  | _ =>
    rw [yieldOf]
    · exact .skip fun _ => .complain
    · intro _ _ h
      cases h

theorem sound_methodCall {object : Expr} {method : String} {args : List Expr}
    (ho : Sound table env object)
    (h : ∀ e ∈ args, Sound table env e) : Sound table env (.methodCall o object method args) := by
  intro expected
  rw [yieldOf]
  refine .bind ho.infer fun t ht => .bind methodType_ensures fun m hm => ?_
  obtain ⟨params, result⟩ := m
  refine .bind requireCount_ensures fun _ hcount =>
    .bind (arguments_ensures h hcount) fun _ hargs => ?_
  obtain ⟨types, htypes, hall⟩ := hargs
  unfold concludeCall
  split
  · exact conclude_ensures fun h => .methodCall ht hm htypes hall h
  · exact .pure (CallsProcedure.methodCall ht hm htypes hall)

theorem sound_member {object : Expr} (ho : Sound table env object) :
    Sound table env (.member o object name) := by
  intro expected
  rw [yieldOf]
  refine .bind ho.infer fun t ht => .bind fieldType_ensures fun u hu => ?_
  exact conclude_ensures fun h => .member ht hu h

theorem sound_index {object i : Expr} (ho : Sound table env object) (hi : Sound table env i) :
    Sound table env (.index o object i) := by
  intro expected
  rw [yieldOf]
  refine .bind ho.infer fun t ht => .bind .lift fun w hw => ?_
  split
  · next element _ helement =>
      refine .bind hi.infer fun found hfound => ?_
      split
      · next hint => exact conclude_ensures fun h => .indexList ht hw helement hfound hint h
      · exact .skip fun _ => .complain
  · next key v _ hentry =>
      refine .bind hi.infer fun found hfound => .skip fun _ => ?_
      refine .bind requireAssignable_ensures fun _ ha => ?_
      exact conclude_ensures fun h => .indexMap ht hw hentry hfound ha h
  · exact .complain

theorem sound_cast {typeExpr : TypeExpr} {operand : Expr} (he : Sound table env operand) :
    Sound table env (.cast o typeExpr operand) := by
  intro expected
  rw [yieldOf]
  refine .bind .lift fun target htarget => .skip fun _ => .bind he.infer fun source hs => ?_
  refine .bind requireConvertible_ensures fun _ hc => ?_
  exact conclude_ensures fun h => .cast htarget hs hc h

theorem items_ensures {expected : Option Ty} {elements : List Expr}
    (h : ∀ e ∈ elements, Sound table env e) :
    Ensures table (items env expected elements)
      (fun types => HaveTypes env table elements types) := by
  induction elements with
  | nil =>
    rw [items]
    exact .pure .nil
  | cons e rest ih =>
    obtain ⟨he, hrest⟩ := forall_mem_cons.1 h
    rw [items]
    exact .bind he.infer fun t ht => .bind (ih hrest) fun ts hts => .pure (.cons ht hts)

theorem sound_list {elements : List Expr} (h : ∀ e ∈ elements, Sound table env e) :
    Sound table env (.list o elements) := by
  intro expected
  rw [yieldOf]
  refine .bind (items_ensures h) fun types htypes =>
    .bind (.of_result fun _ => listBacking_result) fun b hb =>
    .skip fun _ => conclude_ensures fun ht => ?_
  obtain ⟨e, length, _, rfl, ha, hlength, -⟩ := hb
  refine .list htypes ha ?_ ht
  rw [htypes.length_eq] at hlength
  unfold listType
  split
  · rcases length with _ | n
    · exact .inr (.inl rfl)
    · exact .inr (.inr (by rw [hlength n rfl]))
  · exact .inl rfl

theorem sound_set {elements : List Expr} (h : ∀ e ∈ elements, Sound table env e) :
    Sound table env (.set o elements) := by
  intro expected
  rw [yieldOf]
  refine .bind (items_ensures h) fun types htypes =>
    .bind (.of_result fun _ => setBacking_result) fun b hb =>
    .skip fun _ => conclude_ensures fun ht => ?_
  obtain ⟨e, rfl, ha, -⟩ := hb
  refine .set htypes ha ?_ ht
  unfold setType
  split
  · exact .inr rfl
  · exact .inl rfl

theorem entries_ensures {expected : Option (Ty × Ty)} {pairs : List (Expr × Expr)}
    (h : ∀ e ∈ pairs, Sound table env e.1 ∧ Sound table env e.2) :
    Ensures table (entries env expected pairs) (fun types =>
      HaveTypes env table (pairs.map Prod.fst) (types.map Prod.fst) ∧
      HaveTypes env table (pairs.map Prod.snd) (types.map Prod.snd)) := by
  induction pairs with
  | nil =>
    rw [entries]
    exact .pure ⟨.nil, .nil⟩
  | cons e rest ih =>
    obtain ⟨k, v⟩ := e
    obtain ⟨⟨hk, hv⟩, hrest⟩ := forall_mem_cons.1 h
    rw [entries]
    refine .bind hk.infer fun key hkey => .bind hv.infer fun val hval =>
      .bind (ih hrest) fun ts hts => ?_
    exact .pure ⟨.cons hkey hts.1, .cons hval hts.2⟩

theorem sound_map {pairs : List (Expr × Expr)}
    (h : ∀ e ∈ pairs, Sound table env e.1 ∧ Sound table env e.2) :
    Sound table env (.map o pairs) := by
  intro expected
  rw [yieldOf]
  refine .bind (entries_ensures h) fun types htypes =>
    .bind (.of_result fun _ => mapBacking_result) fun b hb =>
    .skip fun _ => conclude_ensures fun ht => ?_
  obtain ⟨k, v, rfl, hk, hv, -⟩ := hb
  refine .map htypes.1 htypes.2 hk hv ?_ ht
  unfold mapType
  split
  · exact .inr rfl
  · exact .inl rfl

theorem fields_ensures {struct : Ty} {declared : Keyed Ty} {given : List (String × Expr)}
    (h : ∀ g ∈ given, Sound table env g.2) :
    Ensures table (fields env struct declared given) (fun _ =>
      ∃ types, HaveTypes env table (given.map Prod.snd) types ∧ List.Forall₂ (fun g s =>
        ∃ field, declared.find? g.1 = some field ∧ env.registry.Assignable field s)
          given types) := by
  induction given with
  | nil =>
    rw [fields]
    exact .pure ⟨[], .nil, .nil⟩
  | cons g rest ih =>
    obtain ⟨name, e⟩ := g
    obtain ⟨he, hrest⟩ := forall_mem_cons.1 h
    rw [fields]
    split
    · exact .skip fun _ => .complain
    · next field hfield =>
        refine .bind he.infer fun found hfound => .skip fun _ => ?_
        refine .bind requireAssignable_ensures fun _ ha => (ih hrest).mono fun _ hothers => ?_
        obtain ⟨types, htypes, hall⟩ := hothers
        exact ⟨found :: types, .cons hfound htypes, .cons ⟨field, hfield, ha⟩ hall⟩

theorem sound_record {typeName : String} {given : List (String × Expr)}
    (h : ∀ g ∈ given, Sound table env g.2) : Sound table env (.record o typeName given) := by
  intro expected
  rw [yieldOf]
  refine .bind literalStruct_ensures fun s hs => ?_
  obtain ⟨struct, declared⟩ := s
  obtain ⟨n, hlookup, hstruct, rfl⟩ := hs
  refine .bind (fields_ensures h) fun _ hfields => .bind requireAllFields_ensures fun _ hnames => ?_
  obtain ⟨types, htypes, hall⟩ := hfields
  exact conclude_ensures fun ht => .record hlookup hstruct htypes hall hnames ht

/-- **Whatever the check of an expression concludes is right.** -/
theorem sound (table : TypeTable) (env : Env) (e : Expr) : Sound table env e := by
  induction e using Expr.byForm with
  | literal o v kind => exact sound_literal
  | identifier o name => exact sound_identifier
  | binary o left op right hl hr => exact sound_binary hl hr
  | unary o op operand h => exact sound_unary h
  | call o callee args _ hargs => exact sound_call hargs
  | methodCall o object method args ho hargs => exact sound_methodCall ho hargs
  | member o object name ho => exact sound_member ho
  | index o object i ho hi => exact sound_index ho hi
  | cast o target operand h => exact sound_cast h
  | list o elements h => exact sound_list h
  | map o entries h => exact sound_map h
  | set o elements h => exact sound_set h
  | record o typeName fields h => exact sound_record h
  | foreign f =>
    intro expected
    rw [yieldOf]
    exact .complain
  | unreadable =>
    intro expected
    rw [yieldOf]
    exact .faulty

theorem infer_ensures {expected : Option Ty} :
    Ensures table (infer env expected e) (HasType env table e) :=
  (sound table env e).infer

/-! ### Single statements -/

theorem define_ensures {what : String} {scopes : Scopes} {symbol : Symbol} {span : Span} :
    Ensures table (define what scopes symbol span)
      (fun out => scopes.define symbol = .ok (.inl out)) := by
  unfold define
  refine .bind .lift fun outcome houtcome => ?_
  cases outcome with
  | inl out => exact .pure houtcome
  | inr previous => exact .complain

theorem defaultWrite_ensures {d : VarDecl} {declared : Option Ty} (hi : d.initializer = none)
    (hd : env.registry.typeOf? d.typeExpr = .ok declared) :
    Ensures table (defaultWrite env d declared) (fun w => Declares table env d w.1) := by
  cases declared with
  | none => exact .complain
  | some t => exact .skip fun _ => .skip fun _ => .pure (.plain hi hd)

theorem initialWrite_ensures {d : VarDecl} {declared : Option Ty} (hi : d.initializer = some e)
    (hd : env.registry.typeOf? d.typeExpr = .ok declared) :
    Ensures table (initialWrite env d declared e) (fun w => Declares table env d w.1) := by
  unfold initialWrite
  refine .bind infer_ensures fun found hfound => ?_
  cases declared with
  | none => exact .pure (.initialized hi hd hfound (Registry.assignable_refl found))
  | some t =>
    refine .skip fun _ => .bind requireAssignable_ensures fun _ ha => ?_
    have hdeclares : Declares table env d t := .initialized hi hd hfound ha
    dsimp only
    split
    · exact .skip fun _ => .pure hdeclares
    · exact .pure hdeclares

theorem declare_ensures {d : VarDecl} :
    Ensures table (declare env d) (DeclarationTyped table env d) := by
  unfold declare
  refine .bind (P := fun w => Declares table env d w.1) ?_ fun w hw => ?_
  · refine .bind .lift fun declared hdeclared => ?_
    split
    · next hi => exact defaultWrite_ensures hi hdeclared
    · next e hi => exact initialWrite_ensures hi hdeclared
  · obtain ⟨t, write⟩ := w
    refine .bind define_ensures fun scopes hscopes => .bind .record fun _ ht => ?_
    exact .skip fun _ => .skip fun _ => .pure (.intro hw ht hscopes)

theorem requireTarget_ensures {target : Expr} : Ensures table (requireTarget env target) (fun _ =>
    isTarget target = true ∧ ∀ n name, target = .identifier n name →
      env.functions.has name = true → (env.scopes.lookup? name).isSome = true) := by
  unfold requireTarget
  by_cases htarget : isTarget target = true
  · simp only [htarget, Bool.not_true, Bool.false_eq_true, if_false]
    split
    · split
      · exact .complain
      · next hfree =>
          refine .pure ⟨trivial, fun n name h hfunction => ?_⟩
          obtain ⟨-, rfl⟩ := Expr.identifier.inj h
          simpa [hfunction, Option.isSome_iff_ne_none] using hfree
    · next hother => exact .pure ⟨trivial, fun n name h => absurd h (hother n name)⟩
  · simp only [htarget, Bool.not_false, if_true]
    exact .skip fun _ => .bind (P := fun _ => False) .complain fun _ h => h.elim

theorem isVariable_of_hasType {n : Origin} (h : HasType env table (.identifier n name) t)
    (hfree : env.functions.has name = true → (env.scopes.lookup? name).isSome = true) :
    (env.scopes.lookup? name).isSome = true := by
  cases h with
  | identifier hn ht =>
    unfold Env.typeOfName? at hn
    split at hn
    · next hlookup => rw [hlookup, Option.isSome_some]
    · next hlookup =>
        obtain ⟨signature, hfound, -⟩ := Option.map_eq_some_iff.1 hn
        exact hfree (by rw [Keyed.has, hfound, Option.isSome_some])

theorem assign_ensures {target e : Expr} :
    Ensures table (assign env o target e)
      (fun _ => StmtTyped table env around (.assign o target e) env.scopes) := by
  unfold assign
  refine .bind requireTarget_ensures fun _ htarget => .bind infer_ensures fun t ht => ?_
  refine .bind infer_ensures fun found hfound => .skip fun _ =>
    .bind requireAssignable_ensures fun _ ha => ?_
  refine .of_result fun _ _ => .assign htarget.1 (fun n name h => ?_) ht hfound ha
  subst h
  exact isVariable_of_hasType ht (htarget.2 n name rfl)

theorem giveBack_ensures {e? : Option Expr} :
    Ensures table (giveBack env around o e?)
      (fun _ => StmtTyped table env around (.ret o e?) env.scopes) := by
  unfold giveBack
  split
  · exact .complain
  · next signature hs =>
      split
      · next hr => exact .pure (.returnNothing hs hr)
      · exact .complain
      · exact .skip fun _ => .complain
      · next e t hr =>
          refine .bind infer_ensures fun found hfound => .skip fun _ => ?_
          exact requireAssignable_ensures.mono fun _ ha => .returnValue hs hr hfound ha

theorem panicMessage_ensures {e? : Option Expr} :
    Ensures table (panicMessage env e?)
      (fun _ => StmtTyped table env around (.panic o e?) env.scopes) := by
  unfold panicMessage
  split
  · exact .pure .panic
  · refine .bind infer_ensures fun t ht => ?_
    split
    · exact .skip fun _ => .complain
    · next h => exact .pure (.panicWith (Decidable.not_not.1 h ▸ ht))

theorem requireLoop_ensures {keyword : String} :
    Ensures table (requireLoop around keyword o) (fun _ => around.inLoop = true) := by
  unfold requireLoop
  split
  · next h => exact .pure h
  · exact .complain

theorem condition_ensures {what : String} :
    Ensures table (condition env what e) (fun _ => HasType env table e .bool) := by
  unfold condition
  refine .bind infer_ensures fun t ht => ?_
  split
  · exact .skip fun _ => .complain
  · next h => exact .pure (Decidable.not_not.1 h ▸ ht)

theorem armValues_ensures {subject : Ty} {values : List Expr} :
    Ensures table (armValues env subject values)
      (fun _ => ∀ v ∈ values, HasType env table v subject) := by
  induction values with
  | nil => exact .pure fun _ h => nomatch h
  | cons e rest ih =>
    rw [armValues]
    refine .bind infer_ensures fun t ht => ?_
    dsimp only
    split
    · exact .skip fun _ => .bind (P := fun _ => False) .complain fun _ h => h.elim
    · next h =>
        obtain rfl : t = subject := Decidable.not_not.1 h
        exact ih.mono fun _ hrest => forall_mem_cons.2 ⟨ht, hrest⟩

theorem iterated_ensures : Ensures table (iterated env e) (fun t =>
    ∃ s w, HasType env table e s ∧ env.registry.StandsFor s w ∧ w.iterated? = some t) := by
  unfold iterated
  refine .bind infer_ensures fun s hs => .bind .lift fun w hw => ?_
  split
  · next t ht => exact .pure ⟨s, w, hs, hw, ht⟩
  · exact .skip fun _ => .complain

theorem loopScope_ensures :
    Ensures table (loopScope env o name t) (fun scopes => table o.place = some t ∧
      (env.scopes.push "for loop").define ⟨name, .variable, t, some o.span, some ⟨o, some name⟩⟩
        = .ok (.inl scopes)) := by
  unfold loopScope
  exact .bind define_ensures fun scopes hd => .bind .record fun _ ht => .pure ⟨ht, hd⟩

/-! ### Blocks -/

/-- Checking the statement concludes what is right, wherever it stands. -/
def StmtSound (table : TypeTable) (s : Stmt) : Prop :=
  ∀ env around, Ensures table (statement env around s) (StmtTyped table env around s)

theorem statements_ensures {body : List Stmt} (h : ∀ s ∈ body, StmtSound table s) {env : Env} :
    Ensures table (statements env around body) (fun _ => BodyTyped table env around body) := by
  induction body generalizing env with
  | nil =>
    rw [statements]
    exact .pure .nil
  | cons s rest ih =>
    obtain ⟨hs, hrest⟩ := forall_mem_cons.1 h
    rw [statements]
    refine .bind (hs env around) fun scopes hscopes => ?_
    exact (ih hrest).mono fun _ hbody => .cons hscopes hbody

theorem optionalBlock_ensures {scope : String} {otherwise : Option (List Stmt)}
    (h : ∀ last, otherwise = some last → ∀ s ∈ last, StmtSound table s) :
    Ensures table (optionalBlock env around scope otherwise) (fun _ =>
      ∀ last, otherwise = some last → BodyTyped table (env.inside scope) around last) := by
  cases otherwise with
  | none =>
    rw [optionalBlock]
    exact .pure fun _ h => nomatch h
  | some body =>
    rw [optionalBlock]
    refine .bind (statements_ensures (h body rfl)) fun _ hbody => .pure fun last hlast => ?_
    exact Option.some.inj hlast ▸ hbody

theorem branches_ensures {more : List Branch} (h : ∀ b ∈ more, ∀ s ∈ b.body, StmtSound table s) :
    Ensures table (branches env around more)
      (fun _ => (∀ b ∈ more, HasType env table b.condition .bool) ∧
      ∀ b ∈ more, BodyTyped table (env.inside "elif branch") around b.body) := by
  induction more with
  | nil =>
    rw [branches]
    exact .pure ⟨nofun, nofun⟩
  | cons b rest ih =>
    obtain ⟨c, body⟩ := b
    obtain ⟨hb, hrest⟩ := forall_mem_cons.1 h
    rw [branches]
    refine .bind condition_ensures fun _ hc => .bind (statements_ensures hb) fun _ hbody => ?_
    refine (ih hrest).mono fun _ hothers => ?_
    exact ⟨forall_mem_cons.2 ⟨hc, hothers.1⟩, forall_mem_cons.2 ⟨hbody, hothers.2⟩⟩

theorem cases_ensures {arms : List Case} {subject : Ty}
    (h : ∀ a ∈ arms, ∀ s ∈ a.body, StmtSound table s) :
    Ensures table (cases env around subject arms) (fun _ =>
      (∀ a ∈ arms, ∀ v ∈ a.values, HasType env table v subject) ∧
      ∀ a ∈ arms, BodyTyped table (env.inside "match case") around a.body) := by
  induction arms with
  | nil =>
    rw [Inference.cases]
    exact .pure ⟨nofun, nofun⟩
  | cons a rest ih =>
    obtain ⟨values, body⟩ := a
    obtain ⟨ha, hrest⟩ := forall_mem_cons.1 h
    rw [Inference.cases]
    refine .bind armValues_ensures fun _ hvalues => .bind (statements_ensures ha) fun _ hbody => ?_
    refine (ih hrest).mono fun _ hothers => ?_
    exact ⟨forall_mem_cons.2 ⟨hvalues, hothers.1⟩, forall_mem_cons.2 ⟨hbody, hothers.2⟩⟩

/-- **Whatever the check of a statement lets pass is right.** -/
theorem stmtSound (table : TypeTable) (s : Stmt) : StmtSound table s := by
  induction s using Stmt.byForm with (intro env around; rw [statement])
  | declare d => exact declare_ensures.mono fun _ h => .declare h
  | assign o target e => exact .bind assign_ensures fun _ h => .pure h
  | expr o e =>
    refine .bind (sound table env e none) fun y hy => .pure ?_
    cases y with
    | value t => exact .value hy
    | nothing procedure => exact .procedure hy
  | ret o e? => exact .bind giveBack_ensures fun _ h => .pure h
  | panic o e? => exact .bind panicMessage_ensures fun _ h => .pure h
  | brk o => exact .bind requireLoop_ensures fun _ h => .pure (.brk h)
  | cont o => exact .bind requireLoop_ensures fun _ h => .pure (.cont h)
  | pass o => exact .pure .pass
  | cond o c body more otherwise hbody hmore hlast =>
    refine .bind condition_ensures fun _ hc => .bind (statements_ensures hbody) fun _ hbody => ?_
    refine .bind (branches_ensures hmore) fun _ hmore =>
      .bind (optionalBlock_ensures hlast) fun _ hlast => ?_
    exact .pure (.cond hc hbody hmore.1 hmore.2 hlast)
  | select o subject arms otherwise harms hlast =>
    refine .bind infer_ensures fun t ht => .bind (cases_ensures harms) fun _ harms => ?_
    exact .bind (optionalBlock_ensures hlast) fun _ hlast =>
      .pure (.select ht harms.1 harms.2 hlast)
  | loop o c body hbody =>
    refine .bind condition_ensures fun _ hc => ?_
    exact .bind (statements_ensures hbody) fun _ hbody => .pure (.loop hc hbody)
  | iterate o name e body hbody =>
    refine .bind iterated_ensures fun t ht => .bind loopScope_ensures fun scopes hscopes => ?_
    obtain ⟨s, w, hs, hw, hi⟩ := ht
    refine .bind (statements_ensures hbody) fun _ hbody => ?_
    exact .pure (.iterate hs hw hi hscopes.2 hscopes.1 hbody)
  | block o body hbody => exact .bind (statements_ensures hbody) fun _ hbody => .pure (.block hbody)
  | foreign f => exact .complain
  | unreadable => exact .faulty

theorem body_ensures {body : List Stmt} :
    Ensures table (statements env around body) (fun _ => BodyTyped table env around body) :=
  statements_ensures fun s _ => stmtSound table s

/-! ### Functions -/

theorem parameters_ensures {params : List Param} {types : List (String × Ty)} {scopes : Scopes}
    (h : params.length = types.length) : Ensures table (parameters scopes params types)
      (ParamsTyped table .parameter scopes params (types.map Prod.snd)) := by
  induction params generalizing scopes types with
  | nil =>
    obtain rfl : types = [] := length_eq_zero_iff.1 h.symm
    exact .pure .nil
  | cons p params ih =>
    cases types with
    | nil => cases h
    | cons entry types =>
      rw [parameters]
      refine .bind define_ensures fun next hnext => .bind .record fun _ ht => ?_
      exact (ih (Nat.succ.inj h)).mono fun _ hrest => .cons hnext ht hrest

theorem receiver_ensures {param : Option Param} {type : Option Ty} {scopes : Scopes}
    (h : param.isSome = type.isSome) : Ensures table (receiver scopes param type)
      (ParamsTyped table .receiver scopes param.toList type.toList) := by
  cases param with
  | none =>
    obtain rfl : type = none := Option.isSome_eq_false_iff.1 h.symm |> Option.isNone_iff_eq_none.1
    exact .pure .nil
  | some p =>
    obtain ⟨t, rfl⟩ := Option.isSome_iff_exists.1 h.symm
    refine .bind define_ensures fun next hnext => .bind .record fun _ ht => ?_
    exact .pure (.cons hnext ht .nil)

/-- The body of a function is right, whatever its signature says about its parameters. -/
theorem function_body_ensures {f : FunctionDef} {signature : Signature} :
    Ensures table (function env f signature) (fun _ =>
      ∃ scopes, BodyTyped table (env.withScopes scopes) { signature := some signature } f.body) :=
  .skip fun _ => .skip fun scopes => .bind body_ensures fun _ hbody => .pure ⟨scopes, hbody⟩

/-- **Whatever the check of a function lets pass is right**, if its signature has its parameters. -/
theorem function_ensures {f : FunctionDef} {signature : Signature}
    (hr : f.receiver.isSome = signature.receiver.isSome)
    (hp : f.params.length = signature.params.length) :
    Ensures table (function env f signature) (fun _ => FunctionTyped table env f signature) := by
  refine .bind (receiver_ensures hr) fun scopes hscopes =>
    .bind (parameters_ensures hp) fun inner hinner => ?_
  exact .bind body_ensures fun _ hbody => .pure (.intro hscopes hinner hbody)

end Inference

end TreeTyping
