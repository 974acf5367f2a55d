/-
What a check finds out, and where.

Checking a piece of syntax records types for the places of that syntax and for no others, and for
each of them at most once, whether the check succeeds or not.  So the check of one declaration never
changes what was recorded for another, and the type that is recorded first is the one that stays.
All its questions about interfaces go to the registry it is checked against.

What is recorded is also accounted for by the literals of the syntax.  Both are followed in one pass
over the syntax, with its places and the literals there.  The rules that compare types leave remarks
only, so what counts are the expressions themselves and the statements that declare a variable, and
these record their own place after their parts.
-/
import TreeTyping.Proofs.Fact.Tables
import TreeTyping.Proofs.Typing.Constants

namespace TreeTyping

open List

/-- What is said of a fact among spots: it is true of remarks, and stays so among more spots. -/
class Fact.Steady (P : List Spot → Fact → Prop) : Prop where
  remark {spots : List Spot} {fact : Fact} : fact.isRemark = true → P spots fact
  mono {spots more : List Spot} {fact : Fact} : spots ⊆ more → P spots fact → P more fact

/-- What entering a function or a loop finds out: types of its variables. -/
def Fact.OfParam (spots : List Spot) : Fact → Prop
  | .typed q _ => (q, none) ∈ spots
  | fact => fact.isRemark = true

instance : Fact.Steady Fact.OfParam where
  remark {_ fact} h := by
    cases fact with
    | asked | noted => rfl
    | _ => cases h
  mono {_ _ fact} hsub h := by
    cases fact with
    | typed => exact hsub h
    | _ => exact h

instance {wordBits : Number} : Fact.Steady (Fact.OfExpr wordBits) where
  remark {_ fact} h := by
    cases fact with
    | asked | noted => trivial
    | _ => cases h
  mono {_ _ fact} hsub h := by
    cases fact with
    | typed q t =>
      obtain ⟨l?, hl, hfits⟩ := h
      exact ⟨l?, hsub hl, hfits⟩
    | backed o b => exact fun layout hlayout v hv => (h layout hlayout v hv).mono hsub
    | _ => exact h

instance {wordBits : Number} : Fact.Steady (Fact.OfStmt wordBits) where
  remark h := Fact.OfExpr.ofStmt (Fact.Steady.remark h)
  mono {spots more fact} hsub h := by
    have hexpr (h : fact.OfExpr wordBits spots) : fact.OfExpr wordBits more :=
      Fact.Steady.mono hsub h
    cases fact with
    | wrote d w => exact Value.Among.mono h hsub
    | _ => exact hexpr h

theorem Fact.OfParam.ofExpr {wordBits : Number} {spots : List Spot} {fact : Fact}
    (h : fact.OfParam spots) : fact.OfExpr wordBits spots := by
  cases fact with
  | typed q t => exact ⟨none, h, fun _ hl => absurd hl (Option.not_mem_none _)⟩
  | _ => exact Fact.Steady.remark h

theorem Fact.OfParam.marks {spots : List Spot} {fact : Fact} (h : fact.OfParam spots) :
    fact.Marks [] := by
  cases fact with
  | backed | wrote => cases h
  | _ => trivial

/-- The type of a value; a procedure yields none. -/
def Yield.type? : Yield → Option Ty
  | .value t => some t
  | .nothing _ => none

namespace Inference

variable {α β : Type} {P Q : List Spot → Fact → Prop} {r : Registry} {x : Inference α}
  {f : α → Inference β}
  {spots more first second around : List Spot} {wordBits : Number} {d : VarDecl} {e : Expr}

/-! ### The judgment -/

/--
An inference about the places of some spots.  It records them and marks those around them, asks the
registry, and leaves facts with the given property.
-/
structure Accounts (P : List Spot → Fact → Prop) (r : Registry) (x : Inference α)
    (spots around : List Spot) : Prop where
  tracks : Tracks r x (spots.map Prod.fst) (around.map Prod.fst)
  leaves : Leaves (P around) x

/-- An inference that says all it says about the places of the spots. -/
abbrev Told (P : List Spot → Fact → Prop) (r : Registry) (x : Inference α) (spots : List Spot) :
    Prop :=
  Accounts P r x spots spots

/-- What is found out about an expression is about the spots, and borne out by the literals. -/
abbrev ExprTold (env : Env) (x : Inference α) (spots : List Spot) : Prop :=
  Told (Fact.OfExpr env.wordBits) env.registry x spots

/-- What is found out about a statement is about the spots, and borne out by the literals. -/
abbrev StmtTold (env : Env) (x : Inference α) (spots : List Spot) : Prop :=
  Told (Fact.OfStmt env.wordBits) env.registry x spots

theorem Plain.idle {C : Prop} (h : Plain C x) : Idle r x := .of_plain h

theorem Idle.leaves [Fact.Steady P] (h : Idle r x) : Leaves (P spots) x :=
  h.quiet.mono fun _ => Fact.Steady.remark

namespace Accounts

/-- One inference after another.  What it leaves may depend on what the first concludes. -/
theorem bind_result (hx : Accounts P r x first around)
    (ht : ∀ a, Tracks r (f a) (second.map Prod.fst) (around.map Prod.fst))
    (hl : ∀ a, x.result = .ok a → Leaves (P around) (f a)) : Accounts P r (x >>= f)
      (first ++ second) around := by
  refine ⟨?_, hx.leaves.bind hl⟩
  rw [map_append]
  exact hx.tracks.bind ht

theorem bind (hx : Accounts P r x first around) (hf : ∀ a, Accounts P r (f a) second around) :
    Accounts P r (x >>= f) (first ++ second) around :=
  hx.bind_result (fun a => (hf a).tracks) fun a _ => (hf a).leaves

theorem imp (h : Accounts P r x spots around) (hPQ : ∀ fact, P around fact → Q around fact) :
    Accounts Q r x spots around :=
  ⟨h.tracks, h.leaves.mono hPQ⟩

theorem ofStmt (h : Accounts (Fact.OfExpr wordBits) r x spots around) :
    Accounts (Fact.OfStmt wordBits) r x spots around :=
  h.imp fun _ => Fact.OfExpr.ofStmt

theorem ofExpr (h : Accounts Fact.OfParam r x spots around) :
    Accounts (Fact.OfExpr wordBits) r x spots around :=
  h.imp fun _ => Fact.OfParam.ofExpr

variable [Fact.Steady P]

theorem of_idle (h : Idle r x) : Accounts P r x spots around := ⟨.of_silent h.silent, h.leaves⟩

/-- A step that leaves remarks only, before another. -/
theorem skip (hx : Idle r x) (hf : ∀ a, Accounts P r (f a) spots around) :
    Accounts P r (x >>= f) spots around :=
  (of_idle hx : Accounts P r x [] around).bind hf

/-- A step that leaves remarks only, with what it concludes, before another. -/
theorem given (hx : Idle r x) (ht : ∀ a, Tracks r (f a) (spots.map Prod.fst) (around.map Prod.fst))
    (hf : ∀ a, x.result = .ok a → Accounts P r (f a) spots around) : Accounts P r (x >>= f)
      spots around :=
  (of_idle hx : Accounts P r x [] around).bind_result ht fun a ha => (hf a ha).leaves

/-- A step before another that leaves remarks only. -/
theorem last (hx : Accounts P r x spots around) (hf : ∀ a, Idle r (f a)) :
    Accounts P r (x >>= f) spots around := by
  have h := hx.bind fun a => (of_idle (hf a) : Accounts P r (f a) [] around)
  rwa [append_nil] at h

theorem mono (h : Accounts P r x spots around) {wider : List Spot}
    (hle : ∀ q, (spots.map Prod.fst).count q ≤ (more.map Prod.fst).count q)
    (hsub : around ⊆ wider) :
    Accounts P r x more wider :=
  ⟨h.tracks.mono hle (map_subset _ hsub), h.leaves.mono fun _ => Fact.Steady.mono hsub⟩

end Accounts

namespace Told

theorem records (h : Told P r x spots) {places : List Place}
    (hplaces : spots.map Prod.fst = places) : Records r x places :=
  hplaces ▸ h.tracks

variable [Fact.Steady P]

/-- What is said may depend on what the first inference concludes. -/
theorem bind_result (hx : Told P r x first)
    (ht : ∀ a, Tracks r (f a) (second.map Prod.fst) ((first ++ second).map Prod.fst))
    (hl : ∀ a, x.result = .ok a → Leaves (P (first ++ second)) (f a)) :
    Told P r (x >>= f) (first ++ second) :=
  Accounts.bind_result (hx.mono (fun _ => Nat.le_refl _) (subset_append_left _ _)) ht hl

theorem bind (hx : Told P r x first) (hf : ∀ a, Told P r (f a) second) :
    Told P r (x >>= f) (first ++ second) := by
  have hsecond (a : α) : Accounts P r (f a) second (first ++ second) :=
    (hf a).mono (fun _ => Nat.le_refl _) (subset_append_right _ _)
  exact hx.bind_result (fun a => (hsecond a).tracks) fun a _ => (hsecond a).leaves

theorem skip (hx : Idle r x) (hf : ∀ a, Told P r (f a) spots) : Told P r (x >>= f) spots :=
  Accounts.skip hx hf

theorem last (hx : Told P r x spots) (hf : ∀ a, Idle r (f a)) : Told P r (x >>= f) spots :=
  Accounts.last hx hf

theorem pure {a : α} : Told P r (Pure.pure a : Inference α) spots := .of_idle .pure

theorem complain {cause : Cause} {span : Span} {h : cause.kind?.isSome = true} :
    Told P r (Inference.complain cause span h : Inference α) spots :=
  .of_idle .complain

theorem faulty {fault : Fault} : Told P r (Inference.faulty fault : Inference α) spots :=
  .of_idle (.of_plain (.faulty id : Plain False _))

theorem perm (h : Told P r x spots) (hperm : spots.Perm more) : Told P r x more :=
  h.mono (fun q => Nat.le_of_eq ((hperm.map _).count_eq q)) hperm.subset

/-- The place of a node may be recorded after its parts. -/
theorem parts_first {spot : Spot} (h : Told P r x (spots ++ [spot])) : Told P r x (spot :: spots) :=
  h.perm (perm_append_singleton spot spots)

end Told

/-! ### Expressions -/

variable {env : Env} {expected : Option Ty} {o : Origin} {t : Ty}

theorem typed_told {q : Place} {l? : Option SignedLiteral} (h : ∀ l ∈ l?, l.Fits wordBits t) :
    Told (Fact.OfExpr wordBits) r (record (.typed q t)) [(q, l?)] :=
  ⟨.record, .record ⟨l?, mem_singleton_self _, h⟩⟩

theorem unsigned {wordBits : Number} {t : Ty} :
    ∀ l ∈ (none : Option SignedLiteral), l.Fits wordBits t :=
  fun l hl => absurd hl (Option.not_mem_none l)

theorem conclude_records : Records r (conclude o t) [o.place] :=
  .last .record fun _ => .pure

theorem conclude_told {l? : Option SignedLiteral} (h : ∀ l ∈ l?, l.Fits wordBits t) :
    Told (Fact.OfExpr wordBits) r (conclude o t) [(o.place, l?)] :=
  .last (typed_told h) fun _ => .pure

theorem value_told {span? : Option Span} {y : Inference Yield}
    (h : Told (Fact.OfExpr wordBits) r y spots) :
    Told (Fact.OfExpr wordBits) r (value span? y) spots := by
  refine .last h fun y => ?_
  cases y with
  | value t => exact .pure
  | nothing procedure => exact .skip spanOf_plain.idle fun _ => .complain

theorem backed_records {b : Backing} :
    Records r (record (.backed o b) >>= fun _ => conclude o t) [o.place] :=
  .mark rfl (mem_singleton_self _) fun _ => conclude_records

theorem backed_leaves {b : Backing} (ho : (o.place, none) ∈ spots)
    (h : Fact.OfExpr wordBits spots (.backed o b)) :
    Leaves (Fact.OfExpr wordBits spots) (record (.backed o b) >>= fun _ => conclude o t) :=
  .skip (.record h) fun _ => .skip (.record ⟨none, ho, unsigned⟩) fun _ => .pure

theorem backed_told {b : Backing} (h : b.layout = none) :
    Told (Fact.OfExpr wordBits) r (record (.backed o b) >>= fun _ => conclude o t)
      [(o.place, none)] :=
  ⟨backed_records, backed_leaves (mem_singleton_self _) (backed_ofExpr h)⟩

/-! ### The type of an expression is recorded last -/

/-- What is recorded for the place is what the inference comes to. -/
def Settles (q : Place) (x : Inference Yield) : Prop :=
  Fact.typeAt? q x.log = x.result.toOption.bind Yield.type?

namespace Settles

/-- A step that records no type for the place, before another. -/
theorem behind {q : Place} {f : α → Inference Yield} (hnone : Fact.typeAt? q x.log = none)
    (hf : ∀ a, Settles q (f a)) : Settles q (x >>= f) := by
  rcases hresult : x.result with e | a
  · rw [Settles, log_bind_of_error hresult, result_bind_of_error hresult, hnone]
    rfl
  · rw [Settles, log_bind_of_ok hresult, result_bind_of_ok hresult, Fact.typeAt?_append, hnone,
      Option.or_none]
    exact hf a

theorem conclude : Settles o.place (Inference.conclude o t) := by
  show (none : Option Ty).or (if o.place = o.place then some t else none) = some t
  rw [if_pos rfl, Option.none_or]

theorem backed {b : Backing} :
    Settles o.place (record (.backed o b) >>= fun _ => Inference.conclude o t) := conclude

end Settles

theorem Told.typeAt?_eq_none (h : Told P r x spots) {q : Place} (hq : q ∉ spots.map Prod.fst) :
    Fact.typeAt? q x.log = none :=
  Fact.typeAt?_eq_none (h.tracks.not_recorded hq)

/-- The parts of an expression come first, then its own type, recorded exactly if it is found. -/
structure Concludes (env : Env) (o : Origin) (l? : Option SignedLiteral) (x : Inference Yield)
    (parts : List Spot) : Prop where
  told : ExprTold env x (parts ++ [(o.place, l?)])
  settles : o.place ∉ parts.map Prod.fst → Settles o.place x

namespace Concludes

variable {l? : Option SignedLiteral} {f : α → Inference Yield} {parts : List Spot}

theorem bind (hx : ExprTold env x first) (hf : ∀ a, Concludes env o l? (f a) second) :
    Concludes env o l? (x >>= f) (first ++ second) := by
  refine ⟨?_, fun hq => ?_⟩
  · rw [append_assoc]
    exact hx.bind fun a => (hf a).told
  · obtain ⟨hfirst, hsecond⟩ := not_or.1 (mt mem_append.2 (map_append ▸ hq))
    exact .behind (hx.typeAt?_eq_none hfirst) fun a => (hf a).settles hsecond

theorem last (hx : ExprTold env x parts) (hf : ∀ a, Concludes env o l? (f a) []) :
    Concludes env o l? (x >>= f) parts := by
  have h := bind hx hf
  rwa [append_nil] at h

theorem skip (hx : Idle env.registry x) (hf : ∀ a, Concludes env o l? (f a) parts) :
    Concludes env o l? (x >>= f) parts :=
  bind (.of_idle hx : ExprTold env x []) hf

/-- A step that leaves remarks only, with what it concludes, right before the type. -/
theorem given (hx : Idle env.registry x) (hr : ∀ a, Records env.registry (f a) [o.place])
    (hs : ∀ a, Settles o.place (f a))
    (hf : ∀ a, x.result = .ok a → ExprTold env (f a) [(o.place, l?)]) :
    Concludes env o l? (x >>= f) [] :=
  ⟨.given hx hr hf, fun _ => .behind (hx.quiet.typeAt?_eq_none _) hs⟩

theorem complain {cause : Cause} {span : Span} {h : cause.kind?.isSome = true} :
    Concludes env o l? (Inference.complain cause span h) parts :=
  ⟨.complain, fun _ => rfl⟩

theorem conclude : Concludes env o none (Inference.conclude o t) [] :=
  ⟨conclude_told unsigned, fun _ => .conclude⟩

theorem concludeCall {name : String} {result : Option Ty} :
    Concludes env o none (Inference.concludeCall o name result) [] := by
  cases result with
  | none => exact ⟨.pure, fun _ => rfl⟩
  | some t => exact conclude

theorem perm {x : Inference Yield} (h : Concludes env o l? x parts) (hperm : parts.Perm more) :
    Concludes env o l? x more :=
  ⟨h.told.perm (hperm.append_right _), fun hq => h.settles (mt (hperm.map _).mem_iff.1 hq)⟩

theorem unseen {x : Inference Yield} (h : Concludes env o l? x parts) :
    Concludes env o l? x (more ++ parts) :=
  bind (.pure : ExprTold env (Pure.pure ()) more) fun _ => h

end Concludes

/-- In any environment an expression speaks of its own places only, and of its own type last. -/
def Framed (e : Expr) : Prop :=
  ∀ env expected, ExprTold env (yieldOf env expected e) e.spots ∧
    ∀ o, e.origin? = some o → e.places.Nodup → Settles o.place (yieldOf env expected e)

theorem Framed.of_concludes {l? : Option SignedLiteral} {parts : List Spot}
    (ho : e.origin? = some o) (hspots : e.spots = (o.place, l?) :: parts)
    (h : ∀ env expected, Concludes env o l? (yieldOf env expected e) parts) : Framed e := by
  refine fun env expected => ⟨hspots ▸ (h env expected).told.parts_first, fun o' ho' hnodup => ?_⟩
  rw [← Expr.spots_places, hspots] at hnodup
  obtain rfl := Option.some.inj (ho.symm.trans ho')
  exact (h env expected).settles (nodup_cons.1 hnodup).1

theorem Framed.infer (h : Framed e) : ExprTold env (infer env expected e) e.spots :=
  value_told (h env expected).1

theorem items_told {elements : List Expr} (h : ∀ e ∈ elements, Framed e) :
    ExprTold env (items env expected elements) (Expr.spotsOfAll elements) := by
  induction elements with
  | nil => exact .pure
  | cons e rest ih =>
    obtain ⟨he, hrest⟩ := forall_mem_cons.1 h
    exact .bind he.infer fun _ => .last (ih hrest) fun _ => .pure

theorem entries_told {pairs : List (Expr × Expr)} (h : ∀ e ∈ pairs, Framed e.1 ∧ Framed e.2)
    {entry : Option (Ty × Ty)} :
    ExprTold env (entries env entry pairs) (Expr.spotsOfEntries pairs) := by
  induction pairs with
  | nil => exact .pure
  | cons pair rest ih =>
    obtain ⟨⟨hk, hv⟩, hrest⟩ := forall_mem_cons.1 h
    exact .bind hk.infer fun _ => .bind hv.infer fun _ => .last (ih hrest) fun _ => .pure

theorem arguments_told {args : List Expr} (h : ∀ e ∈ args, Framed e) {params : List Ty} :
    ExprTold env (arguments env params args) (Expr.spotsOfAll args) := by
  induction args generalizing params with
  | nil => cases params <;> exact .pure
  | cons arg rest ih =>
    obtain ⟨he, hrest⟩ := forall_mem_cons.1 h
    cases params with
    | nil => exact .pure
    | cons param params =>
      exact .bind he.infer fun _ => .skip spanOf_plain.idle fun _ =>
        .skip requireAssignable_idle.toIdle fun _ => ih hrest

theorem fields_told {given : List (String × Expr)} (h : ∀ g ∈ given, Framed g.2) {struct : Ty}
    {declared : Keyed Ty} :
    ExprTold env (fields env struct declared given) (Expr.spotsOfFields given) := by
  induction given with
  | nil => exact .pure
  | cons g rest ih =>
    obtain ⟨name, e⟩ := g
    obtain ⟨he, hrest⟩ := forall_mem_cons.1 h
    rw [fields]
    split
    · exact .skip spanOf_plain.idle fun _ => .complain
    · exact .bind he.infer fun _ => .skip spanOf_plain.idle fun _ =>
        .skip requireAssignable_idle.toIdle fun _ => ih hrest

-- The literal of the two operands may come second, so the places need not come in the order of the
-- tree.
theorem framed_binary {left right : Expr} {op : Option Operator} (hl : Framed left)
    (hr : Framed right) : Framed (.binary o left op right) := by
  refine .of_concludes rfl rfl fun env expected => ?_
  rw [yieldOf]
  split
  · exact (Concludes.bind hr.infer fun _ => .last hl.infer fun _ =>
      .skip binaryType_plain.idle fun _ => .conclude).perm perm_append_comm
  · exact .bind hl.infer fun _ => .last hr.infer fun _ => .skip binaryType_plain.idle fun _ =>
      .conclude

theorem framed_unary {op : Option Operator} {operand : Expr} (h : Framed operand) :
    Framed (.unary o op operand) := by
  cases operand with
  | literal inner v kind =>
    refine .of_concludes rfl rfl fun env expected => ?_
    rw [yieldOf]
    refine ⟨.given literalType_plain.idle (fun t => ?_) fun t ht => ?_, fun hq => ?_⟩
    · exact Tracks.bind .record fun _ => .skip unaryType_plain.silent fun _ =>
        conclude_records.within (by simp)
    · refine Told.bind (typed_told fun l hl => ?_) fun _ => .skip unaryType_plain.idle fun _ =>
        conclude_told unsigned
      cases hl
      exact literalType_fits ht
    · refine .behind (Quiet.typeAt?_eq_none literalType_plain.leaves _) fun t => ?_
      have hinner : ExprTold env (record (.typed inner.place t)) [(inner.place, none)] :=
        typed_told unsigned
      exact .behind (hinner.typeAt?_eq_none hq) fun _ =>
        .behind (Quiet.typeAt?_eq_none unaryType_plain.leaves _) fun _ => .conclude
  | _ =>
    exact .of_concludes rfl rfl fun _ _ => .last h.infer fun _ =>
      .skip unaryType_plain.idle fun _ => .conclude

theorem framed_call {callee : Expr} {args : List Expr} (h : ∀ e ∈ args, Framed e) :
    Framed (.call o callee args) := by
  refine .of_concludes rfl rfl fun env expected => ?_
  cases callee with
  | identifier n name =>
    rw [yieldOf]
    split
    · exact .bind (typed_told unsigned) fun _ => .skip requireCount_plain.idle fun _ =>
        .last (arguments_told h) fun _ => .concludeCall
    · split
      · next operand =>
          -- nothing is recorded for the name of the type
          rw [Expr.spotsOfAll, Expr.spotsOfAll, append_nil]
          exact .unseen (.skip conversionExpected_plain.idle fun _ => .last
            (h operand mem_cons_self).infer
            fun _ => .skip requireConvertible_idle.toIdle fun _ => .conclude)
      · exact .complain
    · exact .complain
    · exact .complain
  | _ => exact .skip spanOf_plain.idle fun _ => .complain

theorem framed_index {object i : Expr} (ho : Framed object) (hi : Framed i) :
    Framed (.index o object i) := by
  refine .of_concludes rfl rfl fun env expected => ?_
  rw [yieldOf]
  refine .bind ho.infer fun _ => .skip .lift fun w => ?_
  split
  · refine .last hi.infer fun found => ?_
    split
    · exact .conclude
    · exact .skip spanOf_plain.idle fun _ => .complain
  · exact .last hi.infer fun _ => .skip spanOf_plain.idle fun _ =>
      .skip requireAssignable_idle.toIdle fun _ =>
      .conclude
  · exact .complain

theorem framed_list {elements : List Expr} (h : ∀ e ∈ elements, Framed e) :
    Framed (.list o elements) := by
  refine .of_concludes rfl rfl fun env expected => ?_
  rw [yieldOf]
  refine ⟨.bind_result (items_told h) (fun _ => ?_) fun types htypes => ?_, fun hq => ?_⟩
  · exact .skip listBacking_idle.silent fun _ => backed_records.within (by simp)
  · refine .bind listBacking_idle.leaves fun b hb => backed_leaves (by simp) fun layout hmem => ?_
    obtain ⟨e, _, _, rfl, he, -⟩ := listBacking_result hb
    obtain rfl := Option.some.inj hmem
    exact items_among htypes he (subset_append_left _ _)
  · exact .behind ((items_told h).typeAt?_eq_none hq) fun _ =>
      .behind (listBacking_idle.quiet.typeAt?_eq_none _) fun _ => .backed

/--
**All that is found out about an expression is about its places, and accounted for by its
literals**; its own type comes last.
-/
theorem framed (e : Expr) : Framed e := by
  induction e using Expr.byForm with
  | literal o v kind =>
    refine .of_concludes rfl rfl fun _ _ => .given literalType_plain.idle
      (fun _ => conclude_records) (fun _ => .conclude) fun t ht => conclude_told fun l hl => ?_
    cases hl
    exact literalType_fits ht
  | identifier o name =>
    exact .of_concludes rfl rfl fun _ _ => .skip nameType_plain.idle fun _ => .conclude
  | binary o left op right hl hr => exact framed_binary hl hr
  | unary o op operand h => exact framed_unary h
  | call o callee args _ hargs => exact framed_call hargs
  | methodCall o object method args ho hargs =>
    exact .of_concludes rfl rfl fun _ _ => .bind ho.infer fun _ =>
      .skip methodType_plain.idle fun _ =>
      .skip requireCount_plain.idle fun _ => .last (arguments_told hargs) fun _ => .concludeCall
  | member o object name ho =>
    exact .of_concludes rfl rfl fun _ _ => .last ho.infer fun _ =>
      .skip fieldType_plain.idle fun _ => .conclude
  | index o object i ho hi => exact framed_index ho hi
  | cast o target operand h =>
    exact .of_concludes rfl rfl fun _ _ => .skip .lift fun _ =>
      .skip conversionExpected_plain.idle fun _ =>
      .last h.infer fun _ => .skip requireConvertible_idle.toIdle fun _ => .conclude
  | list o elements h => exact framed_list h
  | map o entries h =>
    refine .of_concludes rfl rfl fun _ _ => .last (entries_told h) fun _ => .given
      mapBacking_idle.toIdle (fun _ => backed_records) (fun _ => .backed) fun _ hb => backed_told ?_
    obtain ⟨_, _, rfl, -⟩ := mapBacking_result hb
    rfl
  | set o elements h =>
    refine .of_concludes rfl rfl fun _ _ => .last (items_told h) fun _ => .given
      setBacking_idle.toIdle (fun _ => backed_records) (fun _ => .backed) fun _ hb => backed_told ?_
    obtain ⟨_, rfl, -⟩ := setBacking_result hb
    rfl
  | record o typeName fields h =>
    exact .of_concludes rfl rfl fun _ _ => .skip literalStruct_plain.idle fun _ =>
      .last (fields_told h) fun _ =>
      .skip requireAllFields_plain.idle fun _ => .conclude
  | foreign f => exact fun _ _ => ⟨.complain, fun _ ho => by cases ho⟩
  | unreadable => exact fun _ _ => ⟨.faulty, fun _ ho => by cases ho⟩

theorem infer_told : ExprTold env (infer env expected e) e.spots :=
  (framed e).infer

theorem infer_records : Records env.registry (infer env expected e) e.places :=
  infer_told.records e.spots_places

/-! ### Single statements -/

theorem recordBacking_accounts (hd : d.origin.place ∈ around.map Prod.fst) :
    Accounts (Fact.OfExpr wordBits) r (recordBacking d.origin t) [] around := by
  refine ⟨?_, recordBacking_ofExpr⟩
  unfold recordBacking
  split
  · exact .record_other rfl hd
  · exact .of_silent .pure

theorem initialWrite_accounts {declared : Option Ty}
    (hd : d.origin.place ∈ around.map Prod.fst) (he : e.spots ⊆ around) :
    Accounts (Fact.OfExpr env.wordBits) env.registry (initialWrite env d declared e)
      e.spots around := by
  rw [← append_nil e.spots]
  refine .bind (infer_told.mono (fun _ => Nat.le_refl _) he) fun found => ?_
  cases declared with
  | none => exact .of_idle .pure
  | some t =>
    refine .skip spanOf_plain.idle fun _ => .skip requireAssignable_idle.toIdle fun _ => ?_
    cases e.isComposedLiteral with
    | true => exact .of_idle .pure
    | false => exact .last (recordBacking_accounts hd) fun _ => .pure

theorem declaredWrite_accounts (hd : d.origin.place ∈ around.map Prod.fst)
    (hinit : Expr.spotsOf? d.initializer ⊆ around) :
    Accounts (Fact.OfExpr env.wordBits) env.registry (declaredWrite env d)
      (Expr.spotsOf? d.initializer) around := by
  refine .skip .lift fun declared => ?_
  split
  · next hnone =>
      rw [hnone]
      cases declared with
      | none => exact .of_idle .complain
      | some t =>
        exact .skip defaultOf_plain.idle fun _ => .last (recordBacking_accounts hd) fun _ => .pure
  · next e he =>
      rw [he] at hinit ⊢
      exact initialWrite_accounts hd hinit

/-- Before the variable gets its type, all is about the initializer, or marks the variable. -/
theorem declaredWrite_own : Accounts (Fact.OfExpr env.wordBits) env.registry (declaredWrite env d)
    (Expr.spotsOf? d.initializer) (Stmt.declare d).spots :=
  declaredWrite_accounts mem_cons_self (subset_cons_self _ _)

-- The backing of a variable is recorded before its type, so its place is marked before it is
-- recorded.
theorem declare_told : StmtTold env (declare env d) (Stmt.declare d).spots := by
  have hmarked : d.origin.place ∈ (Expr.spotsOf? d.initializer ++ [(d.origin.place, none)]).map
    Prod.fst := by simp
  have hsub := subset_append_left (Expr.spotsOf? d.initializer) [(d.origin.place, none)]
  refine .parts_first (Accounts.bind_result (declaredWrite_accounts hmarked hsub).ofStmt
    (fun w => ?_) fun w hw => ?_)
  · refine .skip define_plain.silent fun _ => .last .record fun _ => ?_
    exact .last (.record_other rfl (.inr hmarked)) fun _ => .skip .note fun _ => .of_silent .pure
  · refine .skip define_plain.leaves fun _ => .skip (.record ⟨none, by simp, unsigned⟩) fun _ => ?_
    exact .skip (.record (declaredWrite_among hsub hw)) fun _ =>
      .skip (.record trivial) fun _ => .pure

theorem recordAssignment_silent {target : Expr} {write : Write} (hkind : write.kind = .assignment) :
    Silent r (recordAssignment env target write) := by
  unfold recordAssignment
  split
  · split
    · exact .record_other rfl (.inl hkind)
    · exact .pure
  · exact .pure

theorem recordAssignment_leaves {target : Expr} {write : Write}
    (h : write.value.Among wordBits spots write.type) :
    Leaves (Fact.OfStmt wordBits spots) (recordAssignment env target write) := by
  unfold recordAssignment
  split
  · split
    · exact .record h
    · exact .pure
  · exact .pure

theorem assign_told {target e : Expr} :
    StmtTold env (assign env o target e) (target.spots ++ e.spots) := by
  refine .skip requireTarget_plain.idle fun _ => .bind infer_told.ofStmt fun t => ?_
  rw [← append_nil e.spots]
  refine .bind_result infer_told.ofStmt (fun found => ?_) fun found hfound => ?_
  · exact .skip spanOf_plain.silent fun _ => .skip requireAssignable_idle.silent fun _ =>
      .of_silent (recordAssignment_silent rfl)
  · exact .skip spanOf_plain.leaves fun _ => .skip requireAssignable_idle.leaves fun _ =>
      recordAssignment_leaves ((constant_among hfound).mono (subset_append_left _ _))

theorem giveBack_told {surroundings : Surroundings} {e? : Option Expr} :
    ExprTold env (giveBack env surroundings o e?) (Expr.spotsOf? e?) := by
  unfold giveBack
  split
  · exact .complain
  · split
    · exact .pure
    · exact .complain
    · exact .skip spanOf_plain.idle fun _ => .complain
    · exact .last infer_told fun _ => .skip spanOf_plain.idle fun _ => requireAssignable_idle.toIdle

theorem panicMessage_told {e? : Option Expr} :
    ExprTold env (panicMessage env e?) (Expr.spotsOf? e?) := by
  cases e? with
  | none => exact .pure
  | some e =>
    refine .last infer_told fun t => ?_
    split
    · exact .skip spanOf_plain.idle fun _ => .complain
    · exact .pure

theorem condition_told {what : String} : ExprTold env (condition env what e) e.spots := by
  refine .last infer_told fun t => ?_
  split
  · exact .skip spanOf_plain.idle fun _ => .complain
  · exact .pure

theorem armValues_told {subject : Ty} {values : List Expr} :
    ExprTold env (armValues env subject values) (Expr.spotsOfAll values) := by
  induction values with
  | nil => exact .pure
  | cons e rest ih =>
    refine .bind infer_told fun t => ?_
    dsimp only
    split
    · exact .skip spanOf_plain.idle fun _ => .skip .complain fun _ => ih
    · exact ih

theorem iterated_told : ExprTold env (iterated env e) e.spots := by
  refine .last infer_told fun t => .skip .lift fun w => ?_
  split
  · exact .pure
  · exact .skip spanOf_plain.idle fun _ => .complain

theorem param_told {q : Place} : Told Fact.OfParam r (record (.typed q t)) [(q, none)] :=
  ⟨.record, .record (mem_singleton_self _)⟩

theorem loopScope_told {name : String} :
    Told Fact.OfParam r (loopScope env o name t) [(o.place, none)] :=
  .skip define_plain.idle fun _ => .last param_told fun _ => .pure

/-! ### Blocks -/

/-- The statement says nothing but what is about its own places, wherever it stands. -/
def StmtFramed (s : Stmt) :
    Prop := ∀ env surroundings, StmtTold env (statement env surroundings s) s.spots

section Blocks

variable {surroundings : Surroundings}

-- The scopes change from statement to statement; the rest of the environment does not.
theorem statements_told {body : List Stmt} (h : ∀ s ∈ body, StmtFramed s) {scopes : Scopes} :
    StmtTold env (statements (env.withScopes scopes) surroundings body)
      (Stmt.spotsOfAll body) := by
  induction body generalizing scopes with
  | nil => exact .pure
  | cons s rest ih =>
    obtain ⟨hs, hrest⟩ := forall_mem_cons.1 h
    exact .bind (hs (env.withScopes scopes) surroundings) fun _ => ih hrest

theorem optionalBlock_told {scope : String} {otherwise : Option (List Stmt)}
    (h : ∀ last, otherwise = some last → ∀ s ∈ last, StmtFramed s) :
    StmtTold env (optionalBlock env surroundings scope otherwise)
      (Stmt.spotsOfBlock? otherwise) := by
  cases otherwise with
  | none => exact .pure
  | some body => exact .last (statements_told (h body rfl)) fun _ => .pure

theorem branches_told {more : List Branch} (h : ∀ b ∈ more, ∀ s ∈ b.body, StmtFramed s) :
    StmtTold env (branches env surroundings more) (Stmt.spotsOfBranches more) := by
  induction more with
  | nil => exact .pure
  | cons b rest ih =>
    obtain ⟨c, body⟩ := b
    obtain ⟨hb, hrest⟩ := forall_mem_cons.1 h
    exact .bind condition_told.ofStmt fun _ => .bind (statements_told hb) fun _ => ih hrest

theorem cases_told {arms : List Case} {subject : Ty} (h : ∀ a ∈ arms, ∀ s ∈ a.body, StmtFramed s) :
    StmtTold env (cases env surroundings subject arms) (Stmt.spotsOfCases arms) := by
  induction arms with
  | nil => exact .pure
  | cons a rest ih =>
    obtain ⟨values, body⟩ := a
    obtain ⟨ha, hrest⟩ := forall_mem_cons.1 h
    exact .bind armValues_told.ofStmt fun _ => .bind (statements_told ha) fun _ => ih hrest

end Blocks

/-- **What is found out about a statement is about its places, and borne out by its literals.** -/
theorem stmtFramed (s : Stmt) : StmtFramed s := by
  induction s using Stmt.byForm with (intro env surroundings)
  | declare d => exact declare_told
  | assign o target e => exact .last assign_told fun _ => .pure
  | expr o e => exact .last (framed e env none).1.ofStmt fun _ => .pure
  | ret o e? => exact .last giveBack_told.ofStmt fun _ => .pure
  | panic o e? => exact .last panicMessage_told.ofStmt fun _ => .pure
  | brk o | cont o => exact .skip requireLoop_plain.idle fun _ => .pure
  | pass o => exact .pure
  | cond o c body more otherwise hbody hmore hlast =>
    refine .bind condition_told.ofStmt fun _ => .bind (statements_told hbody) fun _ => ?_
    exact .bind (branches_told hmore) fun _ => .last (optionalBlock_told hlast) fun _ => .pure
  | select o subject arms otherwise harms hlast =>
    refine .bind infer_told.ofStmt fun t => ?_
    exact .bind (cases_told harms) fun _ => .last (optionalBlock_told hlast) fun _ => .pure
  | loop o c body hbody =>
    exact .bind condition_told.ofStmt fun _ => .last (statements_told hbody) fun _ => .pure
  | iterate o name e body hbody =>
    exact (Told.bind iterated_told.ofStmt fun t => .bind loopScope_told.ofExpr.ofStmt fun scopes =>
      .last (statements_told hbody) fun _ => .pure).perm perm_middle
  | block o body hbody => exact .last (statements_told hbody) fun _ => .pure
  | foreign f => exact .complain
  | unreadable => exact .faulty

/-! ### Functions -/

theorem parameters_told {params : List Param} {types : List (String × Ty)} {scopes : Scopes} :
    Told Fact.OfParam r (parameters scopes params types)
      (params.map fun p => (p.origin.place, none)) := by
  induction params generalizing scopes types with
  | nil => exact .pure
  | cons p params ih =>
    cases types with
    | nil => exact .pure
    | cons entry types => exact .skip define_plain.idle fun _ => .bind param_told fun _ => ih

theorem receiver_told {param : Option Param} {type : Option Ty} {scopes : Scopes} :
    Told Fact.OfParam r (receiver scopes param type)
      (param.toList.map fun p => (p.origin.place, none)) := by
  unfold receiver
  split
  · exact .skip define_plain.idle fun _ => .last param_told fun _ => .pure
  · exact .pure

/-- **What is found out about a function is about its places, and borne out by its literals.** -/
theorem function_told {f : FunctionDef} {signature : Signature} :
    StmtTold env (function env f signature) f.spots := by
  have hbody := (Told.bind receiver_told.ofExpr.ofStmt fun _ =>
    .bind parameters_told.ofExpr.ofStmt fun _ =>
      .last (statements_told fun s _ => stmtFramed s) fun _ => .pure :
    StmtTold env (function env f signature) _)
  refine hbody.perm (perm_append_comm.trans ?_)
  rw [append_assoc]
  exact .refl _

/-- **A function records the places of its parameters, its body and its receiver at most.** -/
theorem function_records {f : FunctionDef} {signature : Signature} :
    Records env.registry (function env f signature) f.places :=
  function_told.records f.spots_places

theorem assign_records {target e : Expr} :
    Records env.registry (assign env o target e) (target.places ++ e.places) := by
  refine assign_told.records ?_
  rw [map_append, target.spots_places, e.spots_places]

theorem declare_records : Records env.registry (declare env d) (Stmt.declare d).places :=
  declare_told.records (Stmt.declare d).spots_places

end Inference

end TreeTyping
