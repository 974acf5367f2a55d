/-
What the type a place asks for changes.

The type a place asks for reaches three forms of expression only.  Number literals and signed ones
may take a width from it, and composed literals are guided by it, as are their elements.  All other
forms do not see it.

What is asked for never turns a type that fits into an error.  Take an expression that has a type on
its own, and a place whose type can store a value of that type.  A literal then keeps its type: the
place asks for the same type or for an interface, and neither gives a literal another width.  A
composed literal of the kind that is asked for gets the type that is asked for.  Its elements have a
type in common on its own, and the place asks for elements of just that type, so the argument starts
over with every element.
-/
import TreeTyping.Proofs.Assignability
import TreeTyping.Proofs.Syntax.Occurrence
import TreeTyping.Proofs.Typing.Following
import TreeTyping.Proofs.Typing.Scoping

namespace TreeTyping

open List

/-- Whether an expression is a composed literal of the kind of a type. -/
def Expr.composesAs : Expr → Ty → Bool
  | .list _ _, t => t.listElement?.isSome
  | .map _ _, t => t.mapEntry?.isSome
  | .set _ _, t => t.setElement?.isSome
  | _, _ => false

/-- A place that asks for the type leaves every literal the type of its kind. -/
def Ty.LeavesLiterals (t : Ty) : Prop := ∀ kind : LiteralKind, kind.typeFor (some t) = kind.type

theorem LiteralKind.type_leavesLiterals (kind : LiteralKind) : kind.type.LeavesLiterals := by
  intro other
  cases kind <;> cases other <;> rfl

theorem Ty.leavesLiterals_interface (i : Nominal) : (Ty.interface i).LeavesLiterals :=
  fun _ => rfl

namespace Inference

attribute [local simp] yieldOf

variable {env : Env} {expected : Option Ty} {t : Ty} {r : Registry} {d : VarDecl}
  {e : Expr} {o : Origin}

/-! ### Expressions that do not see what is asked for -/

theorem yieldOf_of_unguided (hliteral : e.isLiteral = false)
    (hcomposed : e.isComposedLiteral = false)
    (expected : Option Ty) : yieldOf env expected e = yieldOf env none e := by
  cases e with
  | literal o v kind => cases hliteral
  | list o elements => cases hcomposed
  | map o pairs => cases hcomposed
  | set o elements => cases hcomposed
  | unary o op operand =>
    cases operand with
    | literal inner v kind => cases hliteral
    | _ => rfl
  | call o callee args =>
    cases callee with
    | identifier name callee => rw [yieldOf, yieldOf]
    | _ => rfl
  | _ => rfl

theorem infer_of_unguided (hliteral : e.isLiteral = false) (hcomposed : e.isComposedLiteral = false)
    (expected : Option Ty) : infer env expected e = infer env none e := by
  rw [infer, infer, yieldOf_of_unguided hliteral hcomposed]

/-! ### Literals -/

theorem literalType_leaves (ht : t.LeavesLiterals) (wordBits : Number) (negated : Bool) (v : Value)
    (kind : Option LiteralKind) (span : Span) :
    literalType wordBits (some t) negated v kind span = literalType wordBits none negated v
      kind span := by
  cases kind with
  | none => rfl
  | some kind =>
    rw [literalType, literalType, ht kind]
    rfl

/-- A literal and a signed literal keep their types where the place leaves literals theirs. -/
theorem infer_literal (he : e.isLiteral = true) (ht : t.LeavesLiterals) :
    infer env (some t) e = infer env none e := by
  rw [infer, infer]
  cases e with
  | literal o v kind => rw [yieldOf, yieldOf, literalType_leaves ht]
  | unary o op operand =>
    cases operand with
    | literal inner v kind =>
      rw [yieldOf, yieldOf]
      cases op.any Operator.isSign with
      | true => rw [if_pos rfl, if_pos rfl, literalType_leaves ht]
      | false => rfl
    | _ => cases he
  | _ => cases he

theorem literalType_alone {wordBits : Number} {negated : Bool} {v : Value}
    {kind : Option LiteralKind} {span : Span}
    (h : (literalType wordBits none negated v kind span).result = .ok t) :
    ∃ k : LiteralKind, t = k.type := by
  cases kind with
  | none => cases h
  | some kind =>
    obtain ⟨_, -, h⟩ := bind_result_eq_ok.1 h
    exact ⟨kind, (Except.ok.inj h).symm⟩

theorem value_result {span? : Option Span} {x : Inference Yield} :
    (value span? x).result = .ok t ↔ x.result = .ok (.value t) := by
  rw [value, bind_result_eq_ok]
  constructor
  · rintro ⟨y, hy, h⟩
    cases y with
    | value s =>
      cases h
      exact hy
    | nothing procedure =>
      obtain ⟨_, -, h⟩ := bind_result_eq_ok.1 h
      cases h
  · exact fun h => ⟨_, h, rfl⟩

theorem infer_result : (infer env expected e).result = .ok t ↔
    (yieldOf env expected e).result = .ok (.value t) :=
  value_result

theorem conclude_result {x : Inference Ty} :
    (x >>= conclude o).result = .ok (.value t) ↔ x.result = .ok t := by
  rw [bind_result_eq_ok]
  constructor
  · rintro ⟨s, hs, h⟩
    cases h
    exact hs
  · exact fun h => ⟨t, h, rfl⟩

/-- A sign does not change the type of its operand, and a negation has the type of truth values. -/
theorem unaryType_result {op : Option Operator} {operand : Ty} {span : Span}
    (h : (unaryType r op operand span).result = .ok t) : t = operand ∨ t = .bool := by
  obtain ⟨resolved, -, h⟩ := bind_result_eq_ok.1 h
  cases op with
  | none => cases h
  | some op =>
    dsimp only at h
    cases hresult : op.unaryResult? operand resolved with
    | none =>
      rw [hresult] at h
      cases h
    | some s =>
      rw [hresult] at h
      cases h
      cases op <;> grind [Operator.unaryResult?]

/-- On its own a literal, also behind an operator, has a type that leaves literals theirs. -/
theorem infer_literal_kind (he : e.isLiteral = true) (h : (infer env none e).result = .ok t) :
    ∃ k : LiteralKind, t = k.type := by
  rw [infer_result] at h
  cases e with
  | literal o v kind => exact literalType_alone (conclude_result.1 h)
  | unary o op operand =>
    cases operand with
    | literal inner v kind =>
      rw [yieldOf, ite_self] at h
      obtain ⟨s, hs, h⟩ := bind_result_eq_ok.1 h
      obtain ⟨_, -, h⟩ := bind_result_eq_ok.1 h
      rcases unaryType_result (conclude_result.1 h) with rfl | rfl
      · exact literalType_alone hs
      · exact ⟨.bool, rfl⟩
    | _ => cases he
  | _ => cases he

/-! ### Composed literals -/

/-- An expression with a type on its own has a type wherever a value of that type can be stored. -/
def Adapts (env : Env) (e : Expr) : Prop :=
  ∀ expected t, (infer env none e).result = .ok t → env.registry.Assignable expected t →
    (infer env (some expected) e).result = .ok (if e.composesAs expected then expected else t)

/-- What an expression has at such a place can be stored there as well. -/
theorem Adapts.stored (h : Adapts env e) {expected : Ty} (ht : (infer env none e).result = .ok t)
    (ha : env.registry.Assignable expected t) :
    ∃ found, (infer env (some expected) e).result = .ok found ∧
      env.registry.Assignable expected found := by
  refine ⟨_, h expected t ht ha, ?_⟩
  split
  · exact Registry.assignable_refl expected
  · exact ha

theorem items_adapt {elements : List Expr} (h : ∀ e ∈ elements, Adapts env e) {expected : Ty}
    {types : List Ty} (htypes : (items env none elements).result = .ok types)
    (ha : ∀ t ∈ types, env.registry.Assignable expected t) :
    ∃ found, (items env (some expected) elements).result = .ok found ∧
      ∀ t ∈ found, env.registry.Assignable expected t := by
  induction elements generalizing types with
  | nil => exact ⟨[], rfl, forall_mem_nil _⟩
  | cons e rest ih =>
    obtain ⟨he, hrest⟩ := forall_mem_cons.1 h
    obtain ⟨t, ht, htypes⟩ := bind_result_eq_ok.1 htypes
    obtain ⟨ts, hts, htypes⟩ := bind_result_eq_ok.1 htypes
    cases htypes
    obtain ⟨hat, hats⟩ := forall_mem_cons.1 ha
    obtain ⟨found, hfound, hafound⟩ := he.stored ht hat
    obtain ⟨more, hmore, hamore⟩ := ih hrest hts hats
    refine ⟨found :: more, ?_, forall_mem_cons.2 ⟨hafound, hamore⟩⟩
    exact bind_result_eq_ok.2 ⟨found, hfound, bind_result_eq_ok.2 ⟨more, hmore, rfl⟩⟩

theorem entries_adapt {pairs : List (Expr × Expr)}
    (h : ∀ e ∈ pairs, Adapts env e.1 ∧ Adapts env e.2) {key val : Ty}
    {types : List (Ty × Ty)} (htypes : (entries env none pairs).result = .ok types)
    (hkey : ∀ t ∈ types.map Prod.fst, env.registry.Assignable key t)
    (hval : ∀ t ∈ types.map Prod.snd, env.registry.Assignable val t) :
    ∃ found, (entries env (some (key, val)) pairs).result = .ok found ∧
      (∀ t ∈ found.map Prod.fst, env.registry.Assignable key t) ∧
      ∀ t ∈ found.map Prod.snd, env.registry.Assignable val t := by
  induction pairs generalizing types with
  | nil => exact ⟨[], rfl, forall_mem_nil _, forall_mem_nil _⟩
  | cons pair rest ih =>
    obtain ⟨⟨hk, hv⟩, hrest⟩ := forall_mem_cons.1 h
    obtain ⟨k, hkt, htypes⟩ := bind_result_eq_ok.1 htypes
    obtain ⟨v, hvt, htypes⟩ := bind_result_eq_ok.1 htypes
    obtain ⟨ts, hts, htypes⟩ := bind_result_eq_ok.1 htypes
    cases htypes
    obtain ⟨hak, haks⟩ := forall_mem_cons.1 hkey
    obtain ⟨hav, havs⟩ := forall_mem_cons.1 hval
    obtain ⟨k', hk', hak'⟩ := hk.stored hkt hak
    obtain ⟨v', hv', hav'⟩ := hv.stored hvt hav
    obtain ⟨more, hmore, hkmore, hvmore⟩ := ih hrest hts haks havs
    refine ⟨(k', v') :: more, ?_, forall_mem_cons.2 ⟨hak', hkmore⟩,
      forall_mem_cons.2 ⟨hav', hvmore⟩⟩
    exact bind_result_eq_ok.2
      ⟨k', hk', bind_result_eq_ok.2 ⟨v', hv', bind_result_eq_ok.2 ⟨more, hmore, rfl⟩⟩⟩

section CommonType

variable {r : Registry} {types : List Ty} {span : Span} {what : String}

/-- Elements that can be stored under a type that is asked for have it in common. -/
theorem commonType_expected (span : Span) (what : String) {t : Ty}
    (h : ∀ s ∈ types, r.Assignable t s) : (commonType r types (some t) span what).result = .ok t :=
  bind_result_eq_ok.2 ⟨(), requireAllAssignable_result.2 h, rfl⟩

end CommonType

/-- A value of an abstract composed type is stored under it, its backing and interfaces. -/
theorem assignable_of_backing {expected c : Ty} (hc : t.backing? = some c)
    (h : r.Assignable expected t) :
    (expected = t ∨ expected = c) ∨ ∃ i, expected = .interface i := by
  rcases Registry.assignable_iff.1 h with rfl | ⟨i, rfl, -⟩ | hback | hback
  · exact .inl (.inl rfl)
  · exact .inr ⟨i, rfl⟩
  · rw [Ty.backing?_backing hback] at hc
    cases hc
  · exact .inl (.inr (Option.some.inj (hback.symm.trans hc)))

theorem listBacking_expected {bits n : Number} {types : List Ty} (constants : List Value)
    (span : Span) {e expected : Ty} (h : ∀ s ∈ types, r.Assignable e s) (hn : r.size bits e = .ok n)
    (hexpected : expected = .list e ∨ expected = .array e none) :
    ∃ b, (listBacking r bits types (some expected) constants span).result = .ok b ∧
      listType (some expected) b = expected := by
  have hcommon := commonType_expected span "element" h
  have hsize : (lift (r.size bits e)).result = .ok n := hn
  rcases hexpected with rfl | rfl
  · rw [listBacking, result_bind_of_ok (a := none) rfl, Option.bind_some, Ty.listElement?,
      result_bind_of_ok hcommon, result_bind_of_ok hsize]
    exact ⟨_, rfl, rfl⟩
  · rw [listBacking, result_bind_of_ok (a := some (.array e none)) rfl, Option.bind_some,
      Ty.listElement?, result_bind_of_ok hcommon, result_bind_of_ok hsize]
    exact ⟨_, rfl, rfl⟩

theorem mapBacking_expected {keys values : List Ty} (span : Span) {k v expected : Ty}
    (hk : ∀ s ∈ keys, r.Assignable k s) (hv : ∀ s ∈ values, r.Assignable v s)
    (hexpected : expected = .map k v ∨ expected = .hashMap k v) :
    ∃ b, (mapBacking r keys values (some expected) span).result = .ok b ∧
      mapType (some expected) b = expected := by
  have hkey := commonType_expected span "key" hk
  have hval := commonType_expected span "value" hv
  rcases hexpected with rfl | rfl
  · exact ⟨_, bind_result_eq_ok.2 ⟨k, hkey, bind_result_eq_ok.2 ⟨v, hval, rfl⟩⟩, rfl⟩
  · exact ⟨_, bind_result_eq_ok.2 ⟨k, hkey, bind_result_eq_ok.2 ⟨v, hval, rfl⟩⟩, rfl⟩

theorem setBacking_expected {types : List Ty} (span : Span) {e expected : Ty}
    (h : ∀ s ∈ types, r.Assignable e s) (hexpected : expected = .set e ∨ expected = .hashSet e) :
    ∃ b, (setBacking r types (some expected) span).result = .ok b ∧ setType (some expected)
      b = expected := by
  have hcommon := commonType_expected span "element" h
  rcases hexpected with rfl | rfl
  · exact ⟨_, bind_result_eq_ok.2 ⟨e, hcommon, rfl⟩, rfl⟩
  · exact ⟨_, bind_result_eq_ok.2 ⟨e, hcommon, rfl⟩, rfl⟩

theorem list_adapts {elements : List Expr} (h : ∀ e ∈ elements, Adapts env e) :
    Adapts env (.list o elements) := by
  intro expected t ht ha
  have halone := ht
  rw [infer_result, yieldOf] at halone
  obtain ⟨types, htypes, halone⟩ := bind_result_eq_ok.1 halone
  obtain ⟨b, hb, halone⟩ := bind_result_eq_ok.1 halone
  obtain ⟨_, -, hb⟩ := bind_result_eq_ok.1 hb
  obtain ⟨e, he, hb⟩ := bind_result_eq_ok.1 hb
  obtain ⟨n, hn, hb⟩ := bind_result_eq_ok.1 hb
  obtain rfl := Except.ok.inj hb
  obtain rfl := Yield.value.inj (Except.ok.inj halone)
  rcases assignable_of_backing rfl ha with hexpected | ⟨i, rfl⟩
  · obtain ⟨found, hfound, hafound⟩ := items_adapt h htypes (commonType_stores he)
    obtain ⟨b, hb, htype⟩ :=
      listBacking_expected (elements.map Expr.constant) o.span hafound hn hexpected
    have helement : expected.listElement? = some e := by
      rcases hexpected with rfl | rfl <;> rfl
    have hkind : (Expr.list o elements).composesAs expected = true :=
      Option.isSome_iff_exists.2 ⟨e, helement⟩
    rw [infer_result, yieldOf, if_pos hkind, Option.bind_some, helement]
    refine bind_result_eq_ok.2 ⟨found, hfound, bind_result_eq_ok.2 ⟨b, hb, ?_⟩⟩
    rw [htype]
    rfl
  · exact ht

theorem map_adapts {pairs : List (Expr × Expr)} (h : ∀ e ∈ pairs, Adapts env e.1 ∧ Adapts env e.2) :
    Adapts env (.map o pairs) := by
  intro expected t ht ha
  have halone := ht
  rw [infer_result, yieldOf] at halone
  obtain ⟨types, htypes, halone⟩ := bind_result_eq_ok.1 halone
  obtain ⟨b, hb, halone⟩ := bind_result_eq_ok.1 halone
  obtain ⟨k, hk, hb⟩ := bind_result_eq_ok.1 hb
  obtain ⟨v, hv, hb⟩ := bind_result_eq_ok.1 hb
  obtain rfl := Except.ok.inj hb
  obtain rfl := Yield.value.inj (Except.ok.inj halone)
  rcases assignable_of_backing rfl ha with hexpected | ⟨i, rfl⟩
  · obtain ⟨found, hfound, hkeys, hvals⟩ :=
      entries_adapt h htypes (commonType_stores hk) (commonType_stores hv)
    obtain ⟨b, hb, htype⟩ := mapBacking_expected o.span hkeys hvals hexpected
    have hentry : expected.mapEntry? = some (k, v) := by
      rcases hexpected with rfl | rfl <;> rfl
    have hkind : (Expr.map o pairs).composesAs expected = true :=
      Option.isSome_iff_exists.2 ⟨(k, v), hentry⟩
    rw [infer_result, yieldOf, if_pos hkind, Option.bind_some, hentry]
    refine bind_result_eq_ok.2 ⟨found, hfound, bind_result_eq_ok.2 ⟨b, hb, ?_⟩⟩
    rw [htype]
    rfl
  · exact ht

theorem set_adapts {elements : List Expr} (h : ∀ e ∈ elements, Adapts env e) :
    Adapts env (.set o elements) := by
  intro expected t ht ha
  have halone := ht
  rw [infer_result, yieldOf] at halone
  obtain ⟨types, htypes, halone⟩ := bind_result_eq_ok.1 halone
  obtain ⟨b, hb, halone⟩ := bind_result_eq_ok.1 halone
  obtain ⟨e, he, hb⟩ := bind_result_eq_ok.1 hb
  obtain rfl := Except.ok.inj hb
  obtain rfl := Yield.value.inj (Except.ok.inj halone)
  rcases assignable_of_backing rfl ha with hexpected | ⟨i, rfl⟩
  · obtain ⟨found, hfound, hafound⟩ := items_adapt h htypes (commonType_stores he)
    obtain ⟨b, hb, htype⟩ := setBacking_expected o.span hafound hexpected
    have helement : expected.setElement? = some e := by
      rcases hexpected with rfl | rfl <;> rfl
    have hkind : (Expr.set o elements).composesAs expected = true :=
      Option.isSome_iff_exists.2 ⟨e, helement⟩
    rw [infer_result, yieldOf, if_pos hkind, Option.bind_some, helement]
    refine bind_result_eq_ok.2 ⟨found, hfound, bind_result_eq_ok.2 ⟨b, hb, ?_⟩⟩
    rw [htype]
    rfl
  · exact ht

/-! ### All expressions -/

/-- A literal is stored under its own type and interfaces, which leave literals their types. -/
theorem literal_adapts (he : e.isLiteral = true) : Adapts env e := by
  intro expected t ht ha
  obtain ⟨kind, rfl⟩ := infer_literal_kind he ht
  have hleaves : expected.LeavesLiterals := by
    rcases Registry.assignable_iff.1 ha with rfl | ⟨i, rfl, -⟩ | hback | hback
    · exact kind.type_leavesLiterals
    · exact Ty.leavesLiterals_interface i
    · cases kind <;> cases expected <;> cases hback
    · cases kind <;> cases hback
  have hkind : e.composesAs expected = false := by
    cases e <;> first | rfl | cases he
  rw [hkind, infer_literal he hleaves]
  exact ht

theorem adapts (e : Expr) : Adapts env e := by
  induction e using Expr.induction with
  | step e ih =>
    cases hliteral : e.isLiteral with
    | true => exact literal_adapts hliteral
    | false =>
      cases hcomposed : e.isComposedLiteral with
      | false =>
        intro expected t ht _
        have hkind : e.composesAs expected = false := by
          cases e <;> first | rfl | cases hcomposed
        rw [hkind, infer_of_unguided hliteral hcomposed]
        exact ht
      | true =>
        cases e with
        | list o elements => exact list_adapts ih
        | set o elements => exact set_adapts ih
        | map o pairs =>
          refine map_adapts fun pair hpair => ⟨ih pair.1 ?_, ih pair.2 ?_⟩
          · exact mem_flatMap.2 ⟨pair, hpair, mem_cons_self⟩
          · exact mem_flatMap.2 ⟨pair, hpair, mem_cons_of_mem _ mem_cons_self⟩
        | _ => cases hcomposed

/-! ### Declarations -/

/-- An expression with a type stands somewhere. -/
theorem span_of_infer (h : (infer env expected e).result = .ok t) :
    ∃ span, e.span? = some span := by
  cases e with
  | foreign | unreadable => cases h
  | _ => exact ⟨_, rfl⟩

/-- A variable that is declared without a value starts with the default of its type. -/
theorem defaultWrite_result {declared : Option Ty} {w : Write}
    (h : (defaultWrite env d declared).result = .ok (t, w)) :
    declared = some t ∧ ∃ v, env.registry.default t = .ok v ∧
      w = ⟨.default, t, v, d.origin.span⟩ := by
  cases declared with
  | none => cases h
  | some s =>
    obtain ⟨v, hv, h⟩ := bind_result_eq_ok.1 h
    obtain ⟨_, -, h⟩ := bind_result_eq_ok.1 h
    cases h
    unfold defaultOf at hv
    split at hv
    · next hdefault =>
        cases hv
        exact ⟨rfl, v, hdefault, rfl⟩
    · cases hv

/-- A variable declared with a value starts with that, and has the type that is said, if any. -/
theorem initialWrite_result {declared : Option Ty} {w : Write}
    (h : (initialWrite env d declared e).result = .ok (t, w)) :
    ∃ found, (infer env declared e).result = .ok found ∧
      w = ⟨.initializer, found, e.constant, d.origin.span⟩ ∧ t = declared.getD found := by
  obtain ⟨found, hfound, h⟩ := bind_result_eq_ok.1 h
  refine ⟨found, hfound, ?_⟩
  cases declared with
  | none =>
    cases h
    exact ⟨rfl, rfl⟩
  | some s =>
    obtain ⟨_, -, h⟩ := bind_result_eq_ok.1 h
    obtain ⟨_, -, h⟩ := bind_result_eq_ok.1 h
    cases hcomposed : e.isComposedLiteral with
    | true =>
      rw [hcomposed] at h
      cases h
      exact ⟨rfl, rfl⟩
    | false =>
      rw [hcomposed] at h
      obtain ⟨_, -, h⟩ := bind_result_eq_ok.1 h
      cases h
      exact ⟨rfl, rfl⟩

/-- What is declared is checked as it has a value or not, with the type that is said. -/
theorem declaredWrite_result {w : Write} (h : (declaredWrite env d).result = .ok (t, w)) :
    ∃ declared, env.registry.typeOf? d.typeExpr = .ok declared ∧
      ((d.initializer = none ∧ (defaultWrite env d declared).result = .ok (t, w)) ∨
        ∃ e, d.initializer = some e ∧ (initialWrite env d declared e).result = .ok (t, w)) := by
  obtain ⟨declared, hdeclared, h⟩ := bind_result_eq_ok.1 h
  refine ⟨declared, hdeclared, ?_⟩
  cases hinit : d.initializer with
  | none =>
    rw [hinit] at h
    exact .inl ⟨rfl, h⟩
  | some e =>
    rw [hinit] at h
    exact .inr ⟨e, rfl, h⟩

theorem declare_untyped {scopes : Scopes} (htype : d.typeExpr = none)
    (h : (declare env d).result = .ok scopes) :
    ∃ e t, d.initializer = some e ∧ (infer env none e).result = .ok t ∧
      (scopes.lookupLocal? d.name).map Symbol.type = some t ∧
      (define "variable" env.scopes ⟨d.name, .variable, t, some d.origin.span, some d.declaration⟩
        d.origin.span).result = .ok scopes := by
  obtain ⟨t, write, hwrite, hdefine⟩ := declare_result h
  obtain ⟨declared, hdeclared, hwrite⟩ := declaredWrite_result hwrite
  rw [htype] at hdeclared
  cases hdeclared
  rcases hwrite with ⟨-, hwrite⟩ | ⟨e, hinit, hwrite⟩
  · cases (defaultWrite_result hwrite).1
  · obtain ⟨found, hfound, -, rfl⟩ := initialWrite_result hwrite
    refine ⟨e, t, hinit, hfound, ?_, hdefine⟩
    rw [Scopes.define_lookupLocal? (define_result hdefine)]
    rfl

/-- Where the type is said that an initializer has on its own, the first write finds that type. -/
theorem declaredWrite_annotated {said : TypeExpr} (hinit : d.initializer = some e)
    (ht : (infer env none e).result = .ok t) (hsaid : env.registry.typeOf said = .ok t) :
    ∃ write, (declaredWrite env { d with typeExpr := some said }).result = .ok (t, write) := by
  have htypeOf : (lift (env.registry.typeOf? (some said))).result = .ok (some t) := by
    show (env.registry.typeOf said).map some = _
    rw [hsaid]
    rfl
  have hfound : (infer env (some t) e).result = .ok t := by
    have hadapts := adapts e t t ht (Registry.assignable_refl t)
    rwa [ite_self] at hadapts
  have hassignable (span : Span) : (requireAssignable env.registry t t span).result = .ok () :=
    requireAssignable_result.2 (Registry.assignable_refl t)
  have hbacking : (recordBacking d.origin t).result = .ok () := by
    rw [recordBacking]
    cases Backing.ofType? t <;> rfl
  obtain ⟨span, hspan⟩ := span_of_infer ht
  rw [declaredWrite, result_bind_of_ok htypeOf, hinit]
  dsimp only
  rw [initialWrite, result_bind_of_ok hfound]
  dsimp only
  rw [hspan, result_bind_of_ok (a := span) rfl, result_bind_of_ok (hassignable span)]
  cases e.isComposedLiteral with
  | true => exact ⟨_, rfl⟩
  | false => exact ⟨_, result_bind_of_ok hbacking⟩

/--
**A type that fits is never in the way.**  An expression with a type on its own has a type at every
place where its values can be stored.  It is the type that is asked for if the expression is a
composed literal of that kind, and the same type as before otherwise.  So a declaration without a
type is accepted just as well, with the same variable, when the type of the variable is added to it.
-/
theorem fitting_type_accepted (env : Env) :
    (∀ e t expected, (infer env none e).result = .ok t → env.registry.Assignable expected t →
      (infer env (some expected) e).result = .ok (if e.composesAs expected then expected else t)) ∧
    ∀ (d : VarDecl) scopes t said, d.typeExpr = none → (declare env d).result = .ok scopes →
      (scopes.lookupLocal? d.name).map Symbol.type = some t → env.registry.typeOf said = .ok t →
      (declare env { d with typeExpr := some said }).result = .ok scopes := by
  refine ⟨fun e t expected => adapts e expected t, fun d scopes t said htype h ht hsaid => ?_⟩
  obtain ⟨e, found, hinit, hfound, hlookup, hdefine⟩ := declare_untyped htype h
  obtain rfl := Option.some.inj (hlookup.symm.trans ht)
  obtain ⟨write, hwrite⟩ := declaredWrite_annotated hinit hfound hsaid
  exact bind_result_eq_ok.2 ⟨(found, write), hwrite, bind_result_eq_ok.2 ⟨scopes, hdefine, rfl⟩⟩

/-- An environment with nothing but the types that are always there. -/
def bareEnv : Env := ⟨{}, .int 64, [], {}⟩

/-- The set literal `{{1, 2}, {-3}}`. -/
def groups : Expr :=
  let on (column : Int) : Origin := ⟨⟨0, [.item column.toNat]⟩, .point 1 column .null⟩
  let number (column n : Int) : Expr := .literal (on column) (.int n) (some .int)
  .set (on 10) [.set (on 11) [number 12 1, number 15 2],
    .set (on 19) [.unary (on 20) (some .minus) (number 21 3)]]

/-- The declaration of a variable for the groups. -/
def groupsDecl : VarDecl := ⟨⟨⟨0, []⟩, .nowhere⟩, "groups", none, some groups⟩

/-- The type expression `set[set[int]]`. -/
def groupsType : TypeExpr :=
  .generic .nowhere "set" [.generic .nowhere "set" [.simple .nowhere "int"] none] none

theorem fitting_type_accepted_groups :
    (infer bareEnv none groups).result = .ok (.set (.set .int)) ∧
    (infer bareEnv (some (.hashSet (.set .int))) groups).result = .ok (.hashSet (.set .int)) ∧
    ∃ scopes, (declare bareEnv groupsDecl).result = .ok scopes ∧
      (scopes.lookupLocal? "groups").map Symbol.type = some (.set (.set .int)) ∧
      (declare bareEnv { groupsDecl with typeExpr := some groupsType }).result = .ok scopes := by
  have hgroups : (infer bareEnv none groups).result.toOption = some (.set (.set .int)) := by
    decide +kernel
  have hstored : bareEnv.registry.Assignable (.hashSet (.set .int)) (.set (.set .int)) :=
    Registry.assignable_iff.2 (.inr (.inr (.inr rfl)))
  have hdeclared : ((declare bareEnv groupsDecl).result.toOption.bind fun scopes =>
      (scopes.lookupLocal? "groups").map Symbol.type) = some (.set (.set .int)) := by decide +kernel
  have htype : (bareEnv.registry.typeOf groupsType).toOption = some (.set (.set .int)) := by
    decide +kernel
  obtain ⟨scopes, hscopes, hlookup⟩ := Option.bind_eq_some_iff.1 hdeclared
  rw [Except.toOption_eq_some] at hgroups hscopes htype
  obtain ⟨hinfer, hdeclare⟩ := fitting_type_accepted bareEnv
  refine ⟨hgroups, hinfer groups _ _ hgroups hstored, scopes, hscopes, hlookup, ?_⟩
  exact hdeclare groupsDecl scopes _ groupsType rfl hscopes hlookup htype

end Inference

end TreeTyping
