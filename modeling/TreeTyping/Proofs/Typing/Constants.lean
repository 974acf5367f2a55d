/-
Constants fit their types.

A number literal takes its type from its place, and its value, together with a minus directly before
it, has to be in the range of that type.  Three pieces of code have a part in this.  The rule for
literals tests the range, the rule for unary operators tells it about the minus, and the constants
of initializers, assignments and list literals are worked out from the expressions once more.  What
ties them together is an account of every fact: a type that is recorded is recorded at a place of
the syntax, and if a literal stands there it fits; a constant in a write or in a layout is one of
the literals, and it fits too.

Elements of a list literal have types of their own, but where the element type is a number type they
are all of that type: nothing else can be stored there.
-/
import TreeTyping.Proofs.Syntax.Literals
import TreeTyping.Proofs.Typing.Expected
import TreeTyping.Proofs.Typing.Remarks

namespace TreeTyping

/-! ### Ranges -/

namespace Primitive

/-- The number of bits of a primitive type, with the number of bits of a machine word. -/
def bitsOf (word : Int) (p : Primitive) : Nat := p.width.bits?.getD word.toNat

/-- The number is one of those that an integer type of so many bits has room for. -/
def InRange (word : Int) (p : Primitive) (n : Int) : Prop :=
  if p.kind = .unsigned then 0 ≤ n ∧ n ≤ Int.pow 2 (p.bitsOf word) - 1
  else -Int.pow 2 (p.bitsOf word - 1) ≤ n ∧ n ≤ Int.pow 2 (p.bitsOf word - 1) - 1

/-- Whether a number is within the bounds of an integer type. -/
def admits (wordBits : Number) (p : Primitive) (n : Int) : Bool :=
  (p.bounds wordBits).1.atMostInt n && (p.bounds wordBits).2.atLeastInt n

/-- With a whole word size the bounds of a type are those of its range. -/
theorem admits_iff {word : Int} {p : Primitive} {n : Int} :
    p.admits (.int word) n = true ↔ p.InRange word n := by
  obtain ⟨kind, width⟩ := p
  cases kind <;> cases width <;>
    simp [admits, bounds, InRange, bitsOf, Width.bits?, integerBounds, Number.atMostInt,
      Number.atLeastInt]

theorem inRange_zero (word : Int) (p : Primitive) : p.InRange word 0 := by
  have hpow (k : Nat) : 0 < Int.pow 2 k := Int.pow_pos (by decide)
  have := hpow (p.bitsOf word)
  have := hpow (p.bitsOf word - 1)
  unfold InRange
  split <;> omega

end Primitive

/-- If the type is an integer type, the literal with its minus is a whole number in bounds. -/
def SignedLiteral.Fits (wordBits : Number) (l : SignedLiteral) (t : Ty) : Prop :=
  ∀ p, t = .primitive p → p.isInteger = true → l.kind = some .int ∧
    ∀ n, l.value.integer? = some n → p.admits wordBits (if l.negated then -n else n) = true

/-- If the type is an integer type, the constant is unknown, zero, or a literal that fits. -/
def Value.Among (wordBits : Number) (spots : List Spot) (t : Ty) (v : Value) : Prop :=
  ∀ p, t = .primitive p → p.isInteger = true →
    v = .none ∨ v = .int 0 ∨ ∃ q l, (q, some l) ∈ spots ∧ v = l.constant ∧ l.Fits wordBits t

theorem Value.Among.mono {wordBits : Number} {spots more : List Spot} {t : Ty} {v : Value}
    (h : v.Among wordBits spots t) (hsub : spots ⊆ more) : v.Among wordBits more t := by
  intro p hp hinteger
  refine (h p hp hinteger).imp_right (Or.imp_right ?_)
  rintro ⟨q, l, hl, hv, hfits⟩
  exact ⟨q, l, hsub hl, hv, hfits⟩

/--
What expressions find out: types at their places, which fit the literals there, and layouts, whose
constants are among the literals.  They write to no variable.
-/
def Fact.OfExpr (wordBits : Number) (spots : List Spot) : Fact → Prop
  | .typed q t => ∃ l?, (q, l?) ∈ spots ∧ ∀ l ∈ l?, l.Fits wordBits t
  | .backed _ b => ∀ layout ∈ b.layout, ∀ v ∈ layout.elements, v.Among wordBits spots
      layout.elementType
  | .wrote _ _ => False
  | .asked _ | .noted _ => True

/-- What statements find out: what expressions do, and writes of constants among the literals. -/
def Fact.OfStmt (wordBits : Number) (spots : List Spot) : Fact → Prop
  | .wrote _ w => w.value.Among wordBits spots w.type
  | fact => fact.OfExpr wordBits spots

theorem Fact.OfExpr.ofStmt {wordBits : Number} {spots : List Spot} {fact : Fact}
    (h : fact.OfExpr wordBits spots) : fact.OfStmt wordBits spots := by
  cases fact with
  | wrote => exact h.elim
  | _ => exact h

namespace Inference

variable {α : Type} {env : Env} {expected : Option Ty} {spots : List Spot} {wordBits : Number}
  {span : Span} {t : Ty} {o : Origin} {r : Registry}

/-! ### Literals -/

theorem typeFor_integer {kind : LiteralKind} {expected : Option Ty} {p : Primitive}
    (h : kind.typeFor expected = .primitive p) (hp : p.isInteger = true) : kind = .int := by
  unfold LiteralKind.typeFor at h
  split at h
  · split at h
    · next hadopts =>
        cases h
        cases kind <;> simp_all [LiteralKind.adopts, Primitive.isInteger]
    · cases kind <;> cases h <;> first | rfl | cases hp
  · cases kind <;> cases h <;> first | rfl | cases hp

theorem requireInRange_result {n : Int} {p : Primitive} {a : Unit}
    (h : (requireInRange wordBits n p span).result = .ok a) : p.admits wordBits n = true := by
  unfold requireInRange at h
  dsimp only at h
  split at h
  · next hadmits => exact hadmits
  · cases h

/-- **A literal has a type only if its value fits.** -/
theorem literalType_fits {negated : Bool} {v : Value} {kind : Option LiteralKind}
    (h : (literalType wordBits expected negated v kind span).result = .ok t) :
    SignedLiteral.Fits wordBits ⟨v, kind, negated⟩ t := by
  cases kind with
  | none => cases h
  | some kind =>
    obtain ⟨_, hfits, h⟩ := bind_result_eq_ok.1 h
    obtain rfl := Except.ok.inj h
    intro p hp hinteger
    refine ⟨congrArg some (typeFor_integer hp hinteger), fun n hn => ?_⟩
    simp only [requireFits, hp, show v.integer? = some n from hn, hinteger, if_true] at hfits
    exact requireInRange_result hfits

/-- The known value of an expression of an integer type is that of a literal, which fits. -/
theorem constant_among {e : Expr} (h : (infer env expected e).result = .ok t) :
    e.constant.Among env.wordBits e.spots t := by
  intro p hp hinteger
  rw [infer_result] at h
  cases e with
  | literal o v kind =>
    exact .inr (.inr ⟨o.place, _, List.mem_singleton.2 rfl, rfl,
      literalType_fits (conclude_result.1 h)⟩)
  | unary o op operand =>
    cases operand with
    | literal inner v kind =>
      rw [yieldOf] at h
      obtain ⟨s, hs, h⟩ := bind_result_eq_ok.1 h
      obtain ⟨_, -, h⟩ := bind_result_eq_ok.1 h
      have hfits := literalType_fits hs
      rcases unaryType_result (conclude_result.1 h) with rfl | rfl
      · -- a sign keeps the type of the literal, and of the signs only a minus gives a known value
        obtain ⟨rfl, -⟩ := hfits p hp hinteger
        cases op with
        | none => exact .inl rfl
        | some op =>
          cases op with
          | minus =>
            exact .inr (.inr ⟨inner.place, _, List.mem_cons_of_mem _ (List.mem_singleton.2 rfl),
              rfl, hfits⟩)
          | _ => exact .inl rfl
      · cases hp
        cases hinteger
    | _ => exact .inl rfl
  | _ => exact .inl rfl

/-! ### Backings and writes -/

/-- Where numbers are stored, only numbers of the same type are. -/
theorem eq_of_assignable_primitive {p : Primitive} (h : r.Assignable (.primitive p) t) :
    t = .primitive p := by
  rcases Registry.assignable_iff.1 h with h | ⟨i, h, -⟩ | h | h
  · exact h.symm
  · cases h
  · cases h
  · cases t <;> cases h

theorem items_among {elements : List Expr} {types : List Ty}
    (h : (items env expected elements).result = .ok types)
    (ht : ∀ s ∈ types, env.registry.Assignable t s) (hsub : Expr.spotsOfAll elements ⊆ spots) :
    ∀ v ∈ elements.map Expr.constant, v.Among env.wordBits spots t := by
  induction elements generalizing types with
  | nil => exact List.forall_mem_nil _
  | cons e rest ih =>
    obtain ⟨s, hs, h⟩ := bind_result_eq_ok.1 h
    obtain ⟨ss, hss, h⟩ := bind_result_eq_ok.1 h
    cases h
    obtain ⟨hts, htss⟩ := List.forall_mem_cons.1 ht
    obtain ⟨hsube, hsubrest⟩ := List.append_subset.1 hsub
    refine List.forall_mem_cons.2 ⟨fun p hp hinteger => ?_, ih hss htss hsubrest⟩
    subst hp
    obtain rfl := eq_of_assignable_primitive hts
    exact (constant_among hs).mono hsube p rfl hinteger

/-- A backing without a layout holds no constants. -/
theorem backed_ofExpr {b : Backing} (h : b.layout = none) :
    Fact.OfExpr wordBits spots (.backed o b) := by
  intro layout hlayout
  rw [h] at hlayout
  cases hlayout

theorem recordBacking_ofExpr : Leaves (Fact.OfExpr wordBits spots) (recordBacking o t) := by
  unfold recordBacking
  split
  · next b hb =>
      have hlayout : b.layout = none := by
        unfold Backing.ofType? at hb
        split at hb
        · cases hb
          rfl
        · obtain ⟨abstract, -, rfl⟩ := Option.map_eq_some_iff.1 hb
          rfl
      exact .record (backed_ofExpr hlayout)
  · exact .pure

/-- The default of an integer type is zero. -/
theorem default_among {v : Value} (h : r.default t = .ok v) : v.Among wordBits spots t := by
  intro p hp hinteger
  subst hp
  rw [Registry.default, Registry.defaultInside] at h
  obtain rfl := Except.ok.inj h
  obtain ⟨kind, width⟩ := p
  cases kind <;> first | exact .inr (.inl rfl) | cases hinteger

/-- The constant of a first write is a default or that of the initializer. -/
theorem declaredWrite_among {d : VarDecl} {w : Write} (hsub : Expr.spotsOf? d.initializer ⊆ spots)
    (h : (declaredWrite env d).result = .ok (t, w)) : w.value.Among env.wordBits spots w.type := by
  obtain ⟨declared, -, ⟨-, h⟩ | ⟨e, hinit, h⟩⟩ := declaredWrite_result h
  · obtain ⟨-, v, hv, rfl⟩ := defaultWrite_result h
    exact default_among hv
  · obtain ⟨found, hfound, rfl, -⟩ := initialWrite_result h
    rw [hinit] at hsub
    exact (constant_among hfound).mono hsub

end Inference

end TreeTyping
