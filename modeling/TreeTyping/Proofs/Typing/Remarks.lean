/-
What rules leave behind.

The facts that an inference leaves are followed step by step: `Leaves P` says that all of them have
the property `P`, whether the inference comes to something or fails.  What comes after a step may
rely on what the step concluded.

The rules about types find nothing out about a node.  Most of them are plain: they leave nothing at
all.  The others compare types and are idle: they leave remarks, that is, the questions they put to
the registry and notes for whoever follows the check.

With the same steps it is seen that they end in no fault.  A plain rule may depend on a part of the
syntax that is there, and one that compares types on methods that have function types.
-/
import TreeTyping.Proofs.Composed.Endless
import TreeTyping.Proofs.Inference
import TreeTyping.Typing.Stmt

namespace TreeTyping

open List

/-- A fact that is not about a node: a question or a note. -/
def Fact.isRemark : Fact → Bool
  | .asked _ | .noted _ => true
  | _ => false

theorem Fact.recorded_of_remarks {facts : List Fact} (h : ∀ fact ∈ facts, fact.isRemark = true) :
    recorded facts = [] := by
  refine filterMap_eq_nil_iff.2 fun fact hfact => ?_
  have hremark := h fact hfact
  cases fact with
  | typed p t => cases hremark
  | _ => rfl

namespace Registry

variable {r : Registry} {allowed : Fault → Prop}

theorem firstMismatch_safe (h : r.Callable) (t : Ty) (i : Nominal) :
    Safe allowed (r.firstMismatch t i) fun _ => True := by
  unfold firstMismatch
  split
  · trivial
  · exact .bind (membersOf_safe h t) fun _ _ => trivial

theorem isAssignable_safe (h : r.Callable) (target source : Ty) :
    Safe allowed (r.isAssignable target source) fun _ => True := by
  unfold isAssignable
  split
  · trivial
  · split
    · exact .bind (firstMismatch_safe h source _) fun _ _ => trivial
    · split
      · trivial
      · split <;> trivial

theorem sameUnderlying_safe (a b : Ty) : Safe allowed (r.sameUnderlying a b) fun _ => True := by
  unfold sameUnderlying
  split
  · exact .bind (r.resolveUnderlying_safe a _) fun _ _ =>
      .bind (r.resolveUnderlying_safe b _) fun _ _ => trivial
  · trivial

end Registry

namespace Inference

variable {α β : Type} {P Q : Fact → Prop} {span : Span} {types : List Ty} {name : String}
  {x : Inference α}
  {expected : Option Ty} {f : α → Inference β} {target source : Ty} {i : Nominal} {C : Prop}

/-! ### The judgment -/

/-- Every fact that an inference leaves has the property. -/
def Leaves (P : Fact → Prop) (x : Inference α) : Prop := ∀ fact ∈ x.log, P fact

namespace Leaves

theorem bind (hx : Leaves P x) (hf : ∀ a, x.result = .ok a → Leaves P (f a)) :
    Leaves P (x >>= f) := by
  rcases hr : x.result with e | a
  · rw [Leaves, log_bind_of_error hr]
    exact hx
  · rw [Leaves, log_bind_of_ok hr]
    exact forall_mem_append.2 ⟨hx, hf a hr⟩

/-- A step whose conclusion does not matter, before another. -/
theorem skip (hx : Leaves P x) (hf : ∀ a, Leaves P (f a)) : Leaves P (x >>= f) :=
  hx.bind fun a _ => hf a

theorem pure {a : α} : Leaves P (Pure.pure a : Inference α) := forall_mem_nil _

theorem lift {x : Except Failure α} : Leaves P (Inference.lift x) := forall_mem_nil _

theorem fail {f : Failure} : Leaves P (Inference.fail f : Inference α) := forall_mem_nil _

theorem complain {cause : Cause} {span : Span} {h : cause.kind?.isSome = true} :
    Leaves P (Inference.complain cause span h : Inference α) :=
  fail

theorem record {fact : Fact} (h : P fact) : Leaves P (Inference.record fact) :=
  forall_mem_singleton.2 h

theorem mono (h : Leaves P x) (hPQ : ∀ fact, P fact → Q fact) : Leaves Q x :=
  fun fact hfact => hPQ fact (h fact hfact)

end Leaves

/-- An inference that leaves remarks only. -/
abbrev Quiet (x : Inference α) : Prop := Leaves (fun fact => fact.isRemark = true) x

theorem Quiet.note {n : Note} : Quiet (Inference.record (.noted n)) := .record rfl

theorem Quiet.typeAt?_eq_none (h : Quiet x) (q : Place) : Fact.typeAt? q x.log = none := by
  refine Fact.typeAt?_eq_none ?_
  rw [Fact.recorded_of_remarks h]
  exact not_mem_nil

/-- An inference that records no type. -/
abbrev Silent (r : Registry) (x : Inference α) : Prop := Records r x []

/-- An inference that asks nothing and leaves nothing.  Under the condition it ends in no fault. -/
def Plain (C : Prop) (x : Inference α) : Prop :=
  ∃ result, x = .done result ∧ (C → TreeTyping.Safe (fun _ => False) result fun _ => True)

namespace Plain

theorem pure {a : α} : Plain C (Pure.pure a : Inference α) := ⟨_, rfl, fun _ => trivial⟩

theorem lift {x : Except Failure α} (h : C → TreeTyping.Safe (fun _ => False) x fun _ => True) :
    Plain C (Inference.lift x) :=
  ⟨x, rfl, h⟩

theorem complain {cause : Cause} {span : Span} {h : cause.kind?.isSome = true} :
    Plain C (Inference.complain cause span h : Inference α) :=
  ⟨_, rfl, fun _ => trivial⟩

theorem faulty {f : Fault} (h : ¬C) : Plain C (Inference.faulty f : Inference α) := ⟨_, rfl, h⟩

theorem skip (hx : Plain C x) (hf : ∀ a, Plain C (f a)) : Plain C (x >>= f) := by
  obtain ⟨result, rfl, hsafe⟩ := hx
  cases result with
  | ok a => exact hf a
  | error e => exact ⟨_, rfl, fun hC => (hsafe hC).of_error rfl⟩

theorem resolve {r : Registry} {t : Ty} :
    Plain C (Inference.lift (r.resolveUnderlying t .nowhere)) :=
  .lift fun _ => (r.resolveUnderlying_safe t _).mono fun _ _ => trivial

theorem leaves (h : Plain C x) : Leaves P x := by
  obtain ⟨result, rfl, -⟩ := h
  exact .lift

theorem silent {r : Registry} (h : Plain C x) : Silent r x := by
  obtain ⟨result, rfl, -⟩ := h
  exact .lift

theorem safe {allowed : Fault → Prop} (h : Plain C x) (hC : C) : x.Safe allowed fun _ => True := by
  obtain ⟨result, rfl, hsafe⟩ := h
  exact (hsafe hC).allow

end Plain

/-- An inference that leaves remarks only, and puts its questions to the registry. -/
structure Idle (r : Registry) (x : Inference α) : Prop where
  quiet : Quiet x
  asks : x.Asks r

namespace Idle

variable {r : Registry}

theorem of_plain (h : Plain C x) : Idle r x := ⟨h.leaves, h.silent.asks⟩

theorem pure {a : α} : Idle r (Pure.pure a : Inference α) := of_plain (.pure : Plain False _)

theorem lift {x : Except Failure α} : Idle r (Inference.lift x) := of_plain (.lift False.elim)

theorem complain {cause : Cause} {span : Span} {h : cause.kind?.isSome = true} :
    Idle r (Inference.complain cause span h : Inference α) :=
  of_plain (.complain : Plain False _)

theorem note {n : Note} : Idle r (Inference.record (.noted n)) := ⟨.note, trivial⟩

theorem inquire {q : Question} :
    Idle r (Inference.inquire q (r.firstMismatch q.concrete q.interface)) := by
  refine ⟨?_, rfl, fun _ => trivial⟩
  show ∀ fact ∈ (run _).log, _
  rcases h : r.firstMismatch q.concrete q.interface with e | a <;> exact forall_mem_singleton.2 rfl

theorem skip (hx : Idle r x) (hf : ∀ a, Idle r (f a)) : Idle r (x >>= f) :=
  ⟨hx.quiet.skip fun a => (hf a).quiet, hx.asks.bind fun a => (hf a).asks⟩

theorem silent (h : Idle r x) : Silent r x := by
  refine .of_log (Fact.recorded_of_remarks h.quiet) (fun fact hfact => ?_) h.asks
  have hremark := h.quiet fact hfact
  cases fact with
  | backed | wrote => cases hremark
  | _ => trivial

end Idle

/-- An inference ends in no fault, unless an alias holds itself. -/
abbrev Faultless (r : Registry) (x : Inference α) : Prop := x.Safe r.Unending fun _ => True

/-- An idle inference that ends in no fault where methods have function types. -/
structure Compares (r : Registry) (x : Inference α) : Prop extends Idle r x where
  safe : r.Callable → Faultless r x

namespace Compares

variable {r : Registry}

theorem of_plain (h : Plain r.Callable x) : Compares r x := ⟨.of_plain h, h.safe⟩

theorem skip (hx : Compares r x) (hf : ∀ a, Compares r (f a)) : Compares r (x >>= f) :=
  ⟨.skip hx.toIdle fun a => (hf a).toIdle, fun hr => .skip (hx.safe hr) fun a => (hf a).safe hr⟩

theorem pure {a : α} : Compares r (Pure.pure a : Inference α) := of_plain .pure

theorem complain {cause : Cause} {span : Span} {h : cause.kind?.isSome = true} :
    Compares r (Inference.complain cause span h : Inference α) :=
  of_plain .complain

theorem lift {x : Except Failure α}
    (h : r.Callable → TreeTyping.Safe (fun _ => False) x fun _ => True) :
    Compares r (Inference.lift x) :=
  of_plain (.lift h)

end Compares

/-! ### Rules about types -/

-- A rule is made of steps that are plain or idle, so looking at its branches is all there is to a
-- proof.
attribute [local grind .] Plain.pure Plain.complain Plain.resolve Compares.pure Compares.complain
attribute [local grind ←] Plain.skip Plain.faulty Compares.skip

variable {r : Registry} {env : Env}

theorem spanOf_plain {span? : Option Span} : Plain (span?.isSome = true) (spanOf span?) := by
  unfold spanOf
  grind

theorem mismatch_idle {t : Ty} : Compares r (mismatch r t i) := by
  unfold mismatch
  split
  · exact .pure
  · exact ⟨.inquire, fun hr => .inquire (r.firstMismatch_safe hr t i)⟩

theorem satisfies_idle {t : Ty} : Compares r (satisfies r t i) :=
  .skip mismatch_idle fun _ => .pure

theorem requireSatisfies_idle {t : Ty} : Compares r (requireSatisfies r t i span) := by
  unfold requireSatisfies
  grind [mismatch_idle]

theorem resolve_idle {t : Ty} : Compares r (lift (r.resolveUnderlying t .nowhere)) :=
  .of_plain .resolve

theorem isAssignable_idle : Compares r (lift (r.isAssignable target source)) :=
  .lift fun hr => r.isAssignable_safe hr target source

theorem sameUnderlying_idle : Compares r (lift (r.sameUnderlying target source)) :=
  .lift fun _ => r.sameUnderlying_safe target source

theorem assignable_idle : Compares r (assignable r target source) := by
  unfold assignable
  grind [satisfies_idle, isAssignable_idle]

theorem refuse_idle : Compares r (refuse r target source span) := by
  unfold refuse
  grind [requireSatisfies_idle, sameUnderlying_idle]

theorem requireAssignable_idle : Compares r (requireAssignable r target source span) := by
  unfold requireAssignable
  grind [assignable_idle, refuse_idle]

theorem requireConvertible_idle : Compares r (requireConvertible r target source span) := by
  unfold requireConvertible satisfiesTarget
  grind [satisfies_idle, assignable_idle, resolve_idle]

theorem requireAllAssignable_idle {expected : Ty} :
    Compares r (requireAllAssignable r expected span types) := by
  induction types with
  | nil => exact .pure
  | cons t rest ih =>
    unfold requireAllAssignable
    grind [assignable_idle, requireSatisfies_idle]

theorem allSatisfy_idle : Compares r (allSatisfy r i types) := by
  induction types with
  | nil => exact .pure
  | cons t rest ih =>
    unfold allSatisfy
    grind [satisfies_idle]

theorem sharedInterface?_idle {candidates : List Ty} :
    Compares r (sharedInterface? r types candidates) := by
  induction candidates with
  | nil => exact .pure
  | cons t rest ih =>
    unfold sharedInterface?
    grind [allSatisfy_idle]

theorem commonType_idle {what : String} : Compares r (commonType r types expected span what) := by
  unfold commonType sharedType
  grind [requireAllAssignable_idle, sharedInterface?_idle]

theorem expectedArray_plain {found : Nat} : Plain True (expectedArray expected found span) := by
  unfold expectedArray
  grind

theorem listBacking_idle {bits : Number} {constants : List Value} :
    Idle r (listBacking r bits types expected constants span) :=
  .skip (.of_plain expectedArray_plain) fun _ => .skip commonType_idle.toIdle fun _ =>
    .skip .lift fun _ =>
    .skip .note fun _ => .pure

theorem mapBacking_idle {keys values : List Ty} :
    Compares r (mapBacking r keys values expected span) :=
  .skip commonType_idle fun _ => .skip commonType_idle fun _ => .pure

theorem setBacking_idle : Compares r (setBacking r types expected span) :=
  .skip commonType_idle fun _ => .pure

theorem literalType_plain {bits : Number} {negated : Bool} {v : Value} {kind : Option LiteralKind} :
    Plain (kind.isSome = true) (literalType bits expected negated v kind span) := by
  unfold literalType requireFits requireInRange
  grind

theorem binaryType_plain {op : Option Operator} {left right : Ty} :
    Plain (op.isSome = true) (binaryType r op left right span) := by
  unfold binaryType
  grind

theorem unaryType_plain {op : Option Operator} {operand : Ty} :
    Plain (op.isSome = true) (unaryType r op operand span) := by
  unfold unaryType
  grind

/-! ### Rules about names and members -/

theorem nameType_plain : Plain True (nameType env name span) := by
  unfold nameType
  grind

theorem requireCount_plain {params : List Ty} {args : List Expr} :
    Plain True (requireCount name params args span) := by
  unfold requireCount
  grind

theorem methodType_plain {object : Ty} : Plain False (methodType env object name span) := by
  unfold methodType
  grind [Plain.lift]

theorem fieldType_plain {object : Ty} :
    Plain env.registry.Callable (fieldType env object name span) := by
  have hmembers : Plain env.registry.Callable (lift (env.registry.membersOf object)) :=
    .lift fun hr => (Registry.membersOf_safe hr object).mono fun _ _ => trivial
  unfold fieldType
  grind

theorem conversionExpected_plain {target : Ty} {operand : Expr} :
    Plain True (conversionExpected env target operand) :=
  .skip .resolve fun _ => .pure

theorem literalStruct_plain : Plain True (literalStruct env name span) := by
  have hresolve : Plain True (lift (env.registry.resolve name span)) :=
    .lift fun _ => (env.registry.resolve_safe name span).mono fun _ _ => trivial
  unfold literalStruct
  grind

theorem requireAllFields_plain {struct : Ty} {declared : Keyed Ty} {given : List String} :
    Plain True (requireAllFields struct declared given span) := by
  unfold requireAllFields
  grind

/-! ### Rules about variables -/

theorem define_plain {what : String} {scopes : Scopes} {symbol : Symbol} :
    Plain False (define what scopes symbol span) := by
  unfold define
  grind [Plain.lift]

theorem defaultOf_plain {t : Ty} : Plain False (defaultOf r t) := by
  unfold defaultOf
  grind

theorem requireTarget_plain {target : Expr} :
    Plain (target.span?.isSome = true) (requireTarget env target) := by
  unfold requireTarget
  grind [spanOf_plain]

theorem requireLoop_plain {around : Surroundings} {keyword : String} {o : Origin} :
    Plain True (requireLoop around keyword o) := by
  unfold requireLoop
  grind

end Inference

end TreeTyping
