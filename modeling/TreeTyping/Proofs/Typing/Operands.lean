/-
Operands the other way round.

The operands of a binary operator have to agree on a type, and it does not matter which of them
stands first.  The rules for the two are not alike, though.  The left operand is looked at first and
the right one at a place that asks for its type, unless the left one is a literal and the right one
is not; then it is the other way round.

All that comes to is that a literal beside something else takes its type from there, and that every
other operand is looked at on its own.  Among operands that are no composed literals only literals
see what is asked for, and one literal beside another asks it for the type it has anyway.  Said like
this the rule is the same from both sides.  What is left of the order is the order in which the
facts are established, and where no node is part of both operands that makes no difference to the
types that are recorded.
-/
import TreeTyping.Proofs.Typing.Frame

namespace TreeTyping

/-- Facts in the other order tell the same about a place that only some of them are about. -/
theorem Fact.typeAt?_append_comm {p : Place} {a b : List Fact}
    (h : typeAt? p a = none ∨ typeAt? p b = none) : typeAt? p (a ++ b) = typeAt? p (b ++ a) := by
  rw [typeAt?_append, typeAt?_append]
  rcases h with h | h <;> simp [h]

namespace Inference

variable {env : Env} {l r : Expr}

/-! ### Places of operands -/

/-- What the place of an operand asks for: a literal beside another thing takes its type. -/
def operandPlace (e other : Expr) (t : Ty) :
    Option Ty := if e.isLiteral && !other.isLiteral then some t else none

/-- The operand at its place, beside another that has the given type. -/
def operand (env : Env) (e other : Expr) (t : Ty) :
    Inference Ty := infer env (operandPlace e other t) e

theorem operand_of_first {e other : Expr} (h : (e.isLiteral && !other.isLiteral) = false) (t : Ty) :
    operand env e other t = infer env none e := by
  rw [operand, operandPlace, h]
  rfl

/-- The operand that is looked at last comes to what it comes to at its place. -/
theorem operand_of_last {e other : Expr} (hcomposed : e.isComposedLiteral = false) {t : Ty}
    (h : (infer env none other).result = .ok t) : infer env (some t) e = operand env e other t := by
  rw [operand, operandPlace]
  cases hliteral : e.isLiteral with
  | false => exact infer_of_unguided hliteral hcomposed _
  | true =>
    cases hother : other.isLiteral with
    | false => rfl
    | true =>
      obtain ⟨kind, rfl⟩ := infer_literal_kind hother h
      exact infer_literal hliteral kind.type_leavesLiterals

/-- Both operands have the type, each at its place. -/
structure Agree (env : Env) (l r : Expr) (t : Ty) : Prop where
  left : (operand env l r t).result = .ok t
  right : (operand env r l t).result = .ok t

theorem Agree.symm {t : Ty} (h : Agree env l r t) : Agree env r l t := ⟨h.right, h.left⟩

/-! ### Operators -/

/-- An operator has a type only if its operands agree on one, wherever it stands. -/
theorem binaryType_result {registry : Registry} {op : Option Operator} {left right t : Ty}
    {span : Span} :
    (binaryType registry op left right span).result = .ok t ↔ left = right ∧ ∃ operator resolved,
      op = some operator ∧ registry.resolveUnderlying left .nowhere = .ok resolved ∧
        operator.binaryResult? left resolved = some t := by
  constructor
  · intro h
    cases op with
    | none => cases h
    | some operator =>
      rw [binaryType] at h
      split at h
      · cases h
      · next hsame =>
          obtain ⟨resolved, hresolved, h⟩ := bind_result_eq_ok.1 h
          refine ⟨Decidable.not_not.1 hsame, operator, resolved, rfl, hresolved, ?_⟩
          split at h
          · next hop => rw [hop, Except.ok.inj h]
          · cases h
  · rintro ⟨rfl, operator, resolved, rfl, hresolved, hop⟩
    rw [binaryType, if_neg (not_not_intro rfl)]
    refine bind_result_eq_ok.2 ⟨resolved, hresolved, ?_⟩
    rw [hop]
    rfl

section InOrder

variable {first last : Expr} {f : Ty → Ty → Inference Ty} {o : Origin} {t : Ty}

/-- One operand is looked at, then the other where its type is asked for, then the operator. -/
def inOrder (env : Env) (first last : Expr) (f : Ty → Ty → Inference Ty) (o : Origin) :
    Inference Yield := do
  let s ← infer env none first
  let s' ← infer env (some s) last
  conclude o (← f s s')

/-- The operand looked at first is on its own; the last one comes to what it does at its place. -/
theorem inOrder_result (hlast : last.isComposedLiteral = false)
    (horder : (first.isLiteral && !last.isLiteral) = false)
    (hf : ∀ s s' t, (f s s').result = .ok t → s = s') :
    (inOrder env first last f o).result = .ok (.value t) ↔
      ∃ s, Agree env first last s ∧ (f s s).result = .ok t := by
  constructor
  · intro h
    obtain ⟨s, hs, h⟩ := bind_result_eq_ok.1 h
    obtain ⟨s', hs', h⟩ := bind_result_eq_ok.1 h
    have htype := conclude_result.1 h
    obtain rfl := hf s s' t htype
    refine ⟨s, ⟨?_, ?_⟩, htype⟩
    · rw [operand_of_first horder]
      exact hs
    · rw [← operand_of_last hlast hs]
      exact hs'
  · rintro ⟨s, hagree, htype⟩
    have hs := hagree.left
    rw [operand_of_first horder] at hs
    have hs' := hagree.right
    rw [← operand_of_last hlast hs] at hs'
    exact bind_result_eq_ok.2 ⟨s, hs, bind_result_eq_ok.2 ⟨s, hs', conclude_result.2 htype⟩⟩

theorem inOrder_log (hlast : last.isComposedLiteral = false)
    (horder : (first.isLiteral && !last.isLiteral) = false)
    {s : Ty} (hagree : Agree env first last s) (hf : (f s s).result = .ok t) :
    (inOrder env first last f o).log = (operand env first last s).log ++
      ((operand env last first s).log ++ ((f s s).log ++ [.typed o.place t])) := by
  have hs := hagree.left
  have hs' := hagree.right
  rw [operand_of_first horder] at hs ⊢
  rw [← operand_of_last hlast hs] at hs' ⊢
  rw [inOrder, log_bind_of_ok hs, log_bind_of_ok hs', log_bind_of_ok hf]
  rfl

end InOrder

/-- Which operand is looked at first depends on which of them are literals. -/
theorem yieldOf_binary (env : Env) (expected : Option Ty) (o : Origin) (l : Expr)
    (op : Option Operator) (r : Expr) : yieldOf env expected (.binary o l op r) =
      if l.isLiteral && !r.isLiteral then
        inOrder env r l (fun s s' => binaryType env.registry op s' s o.span) o
      else inOrder env l r (fun s s' => binaryType env.registry op s s' o.span) o := by
  rw [yieldOf]
  rfl

theorem order_of_gives_way (h : (l.isLiteral && !r.isLiteral) = true) :
    (r.isLiteral && !l.isLiteral) = false := by
  revert h
  cases l.isLiteral <;> cases r.isLiteral <;> decide

section Binary

variable (hl : l.isComposedLiteral = false) (hr : r.isComposedLiteral = false) {o : Origin}
  {op : Option Operator} {expected : Option Ty} {t : Ty}

include hl hr

/-- **An operator has a type exactly if its operands agree on one, each at its place.** -/
theorem binary_result : (infer env expected (.binary o l op r)).result = .ok t ↔
    ∃ s, Agree env l r s ∧ (binaryType env.registry op s s o.span).result = .ok t := by
  rw [infer_result, yieldOf_binary]
  split
  · next hway =>
      rw [inOrder_result hl (order_of_gives_way hway) fun s s' t h =>
        (binaryType_result.1 h).1.symm]
      exact exists_congr fun s => and_congr_left fun _ => ⟨Agree.symm, Agree.symm⟩
  · next hway =>
      exact inOrder_result hr (Bool.eq_false_iff.2 hway) fun s s' t h => (binaryType_result.1 h).1

/-- The operands are recorded, in one order or the other, and then the type of the operator. -/
theorem binary_log (expected : Option Ty) {s : Ty} (hagree : Agree env l r s)
    (ht : (binaryType env.registry op s s o.span).result = .ok t) :
    ∃ a b, (a = (operand env l r s).log ∧ b = (operand env r l s).log ∨
        a = (operand env r l s).log ∧ b = (operand env l r s).log) ∧
      (infer env expected (.binary o l op r)).log =
        a ++ (b ++ ((binaryType env.registry op s s o.span).log ++ [.typed o.place t])) := by
  have htype : (infer env expected (.binary o l op r)).result = .ok t :=
    (binary_result hl hr).2 ⟨s, hagree, ht⟩
  have hlog : (infer env expected (.binary o l op r)).log =
      (yieldOf env expected (.binary o l op r)).log := by
    rw [infer, value, log_bind_of_ok (infer_result.1 htype)]
    exact List.append_nil _
  rw [hlog, yieldOf_binary]
  split
  · next hway =>
      exact ⟨_, _, .inr ⟨rfl, rfl⟩, inOrder_log hl (order_of_gives_way hway) hagree.symm ht⟩
  · next hway => exact ⟨_, _, .inl ⟨rfl, rfl⟩, inOrder_log hr (Bool.eq_false_iff.2 hway) hagree ht⟩

end Binary

/-! ### The other way round -/

/-- An operand records types inside itself only. -/
theorem operand_typeAt? {e other : Expr} {t : Ty} {q : Place} (hq : q ∉ e.places) :
    Fact.typeAt? q (operand env e other t).log = none :=
  Fact.typeAt?_eq_none (infer_records.not_recorded hq)

theorem operand_typeAt?_or {s : Ty} {q : Place} (hone : q ∈ l.places → q ∉ r.places) :
    Fact.typeAt? q (operand env l r s).log = none ∨
      Fact.typeAt? q (operand env r l s).log = none := by
  by_cases hql : q ∈ l.places
  · exact .inr (operand_typeAt? (hone hql))
  · exact .inl (operand_typeAt? hql)

/-- The types recorded besides that of the operator are those that the operands record. -/
theorem binary_typeAt? (hl : l.isComposedLiteral = false) (hr : r.isComposedLiteral = false)
    {o : Origin} {op : Option Operator} {expected : Option Ty} {s t : Ty} (hagree : Agree env l r s)
    (ht : (binaryType env.registry op s s o.span).result = .ok t) {q : Place} (hq : q ≠ o.place)
    (hone : q ∈ l.places → q ∉ r.places) (before : List Fact) :
    Fact.typeAt? q (before ++ (infer env expected (.binary o l op r)).log) =
      Fact.typeAt? q (before ++ ((operand env l r s).log ++ (operand env r l s).log)) := by
  obtain ⟨a, b, horder, hlog⟩ := binary_log hl hr expected hagree ht
  have hown : Fact.typeAt? q ((binaryType env.registry op s s o.span).log ++ [.typed o.place t]) =
      none := by
    rw [Fact.typeAt?_append, Quiet.typeAt?_eq_none binaryType_plain.leaves, Option.or_none]
    exact if_neg hq.symm
  have hparts : Fact.typeAt? q (a ++ b) = Fact.typeAt? q
      ((operand env l r s).log ++ (operand env r l s).log) := by
    rcases horder with ⟨rfl, rfl⟩ | ⟨rfl, rfl⟩
    · rfl
    · exact Fact.typeAt?_append_comm (operand_typeAt?_or hone).symm
  rw [hlog, ← List.append_assoc a, Fact.typeAt?_append, Fact.typeAt?_append, hown, Option.none_or,
    hparts, ← Fact.typeAt?_append]

/--
**It does not matter which operand stands first.**  Of two operators with the same operands, none of
them a composed literal, in one order and in the other, both have a type or none has, and they have
the same type.  After whatever was recorded before, every node that is part of one of the operands,
and not of both, then has the same type.
-/
theorem operands_swapped (env : Env) (expected : Option Ty) (o o' : Origin) (op : Option Operator)
    {l r : Expr} (hl : l.isComposedLiteral = false) (hr : r.isComposedLiteral = false) (t : Ty) :
    ((infer env expected (.binary o l op r)).result = .ok t ↔
      (infer env expected (.binary o' r op l)).result = .ok t) ∧
    ((infer env expected (.binary o l op r)).result = .ok t → ∀ before q, q ≠ o.place →
      q ≠ o'.place → (q ∈ l.places → q ∉ r.places) →
        Fact.typeAt? q (before ++ (infer env expected (.binary o l op r)).log) =
          Fact.typeAt? q (before ++ (infer env expected (.binary o' r op l)).log)) := by
  have hspan (s : Ty) : (binaryType env.registry op s s o.span).result = .ok t ↔
      (binaryType env.registry op s s o'.span).result = .ok t :=
    binaryType_result.trans binaryType_result.symm
  constructor
  · rw [binary_result hl hr, binary_result hr hl]
    exact exists_congr fun s => and_congr ⟨Agree.symm, Agree.symm⟩ (hspan s)
  · intro h before q hq hq' hone
    obtain ⟨s, hagree, ht⟩ := (binary_result hl hr).1 h
    have hone' : q ∈ r.places → q ∉ l.places := fun hqr hql => hone hql hqr
    rw [binary_typeAt? hl hr hagree ht hq hone, binary_typeAt? hr hl hagree.symm
      ((hspan s).1 ht) hq' hone',
      Fact.typeAt?_append, Fact.typeAt?_append_comm (operand_typeAt?_or hone),
        ← Fact.typeAt?_append]

/-- An environment with a variable `x` of one byte. -/
def byteEnv : Env :=
  { bareEnv with scopes := { global := { name := "global", symbols :=
    [("x", ⟨"x", .variable, .primitive ⟨.signed, .w8⟩, none, none⟩)] } } }

/-- The constant `-128`, which only just fits a byte. -/
def leastByte : Expr :=
  .unary ⟨⟨0, [.field "a"]⟩, .nowhere⟩ (some .minus)
    (.literal ⟨⟨0, [.field "operand", .field "a"]⟩, .nowhere⟩ (.int 128) (some .int))

theorem operands_swapped_leastByte :
    let x : Expr := .identifier ⟨⟨0, [.field "b"]⟩, .nowhere⟩ "x"
    let before := (infer byteEnv none (.binary ⟨⟨0, []⟩, .nowhere⟩ leastByte (some .plus) x))
    let after := (infer byteEnv none (.binary ⟨⟨0, []⟩, .nowhere⟩ x (some .plus) leastByte))
    before.result = .ok (.primitive ⟨.signed, .w8⟩) ∧ after.result = .ok
      (.primitive ⟨.signed, .w8⟩) ∧ Fact.typeAt? ⟨0, [.field "operand", .field "a"]⟩ before.log =
        Fact.typeAt? ⟨0, [.field "operand", .field "a"]⟩ after.log := by
  intro x before after
  have hbefore : before.result.toOption = some (.primitive ⟨.signed, .w8⟩) := by decide +kernel
  rw [Except.toOption_eq_some] at hbefore
  obtain ⟨hiff, htypes⟩ := operands_swapped byteEnv none ⟨⟨0, []⟩, .nowhere⟩ ⟨⟨0, []⟩, .nowhere⟩
    (some .plus) (l := leastByte) (r := x) rfl rfl (.primitive ⟨.signed, .w8⟩)
  exact ⟨hbefore, hiff.1 hbefore, htypes hbefore [] ⟨0, [.field "operand", .field "a"]⟩ (by decide)
    (by decide) (by decide)⟩

end Inference

end TreeTyping
