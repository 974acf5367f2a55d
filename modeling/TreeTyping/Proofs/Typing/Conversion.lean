/-
What converts to what.

A conversion is written as a cast, or as a call of the name of a type.  Unless its operand is a
composed literal, which looks at what it is converted to, the type of the operand and the target
decide whether it is accepted.

Whatever can be stored under a type converts to it.  Away from interfaces a conversion asks only
what the two types stand for: the same type, two types of numbers, or a composed type and its
backing.  No type of numbers backs another, and backings are unique, so two conversions in a row
make one, and each can be undone.

A conversion to an interface asks for more than what its operand stands for, as an alias has the
fields of a struct but not its methods.  Yet what a struct satisfies is accepted of its aliases too.
This is the only way to an interface besides satisfying it.
-/
import TreeTyping.Proofs.Interface.Satisfaction
import TreeTyping.Proofs.Registry.Changes
import TreeTyping.Proofs.Typing.Expected

namespace TreeTyping

/-! ### Types that stand for what converts -/

/-- Values can be converted between these types, which are no aliases, without an interface. -/
inductive Ty.Alike : Ty → Ty → Prop
  | same (t : Ty) : Alike t t
  | numbers {a b : Ty} (ha : a.isNumeric = true) (hb : b.isNumeric = true) : Alike a b
  | backing {a b : Ty} (h : Backs a b) : Alike a b

namespace Ty

variable {a b c : Ty}

theorem Backs.not_numeric (h : Backs a b) : a.isNumeric = false := by
  cases a with
  | primitive p =>
    rcases h with h | h
    · cases h
    · cases b <;> cases h
  | _ => rfl

theorem Alike.symm (h : Alike a b) : Alike b a := by
  cases h with
  | same => exact .same a
  | numbers ha hb => exact .numbers hb ha
  | backing h => exact .backing h.symm

theorem Alike.trans (hab : Alike a b) (hbc : Alike b c) : Alike a c := by
  cases hab with
  | same => exact hbc
  | numbers ha hb =>
    cases hbc with
    | same => exact .numbers ha hb
    | numbers _ hc => exact .numbers ha hc
    | backing h => exact absurd hb (by simp [h.not_numeric])
  | backing h =>
    cases hbc with
    | same => exact .backing h
    | numbers hb _ => exact absurd hb (by simp [h.symm.not_numeric])
    | backing h' =>
      rw [h.unique h'.symm]
      exact .same c

end Ty

namespace Registry

variable {r : Registry} {target source wanted found : Ty}

/-! ### The relation -/

theorem StandsFor.leads (h : r.StandsFor target wanted) : r.Leads target wanted :=
  resolveUnderlying_eq_ok.1 h

theorem standsFor_itself (h : target.isAlias = false) : r.StandsFor target target :=
  resolveUnderlying_eq_ok.2 (.done h)

theorem InOrder.standsFor_total (h : r.InOrder) (ht : r.Over target) :
    ∃ wanted, r.StandsFor target wanted := by
  obtain ⟨w, hw⟩ := h.leads_total ht
  exact ⟨w, resolveUnderlying_eq_ok.2 hw⟩

theorem convertible_iff (hwanted : r.StandsFor target wanted) (hfound : r.StandsFor source found) :
    r.Convertible target source ↔ r.Converts target source wanted found := by
  constructor
  · rintro ⟨w, f, hw, hf, h⟩
    cases hw.symm.trans hwanted
    cases hf.symm.trans hfound
    exact h
  · intro h
    exact ⟨wanted, found, hwanted, hfound, h⟩

/-- **Whatever can be stored under a type converts to it.** -/
theorem InOrder.convertible_of_assignable (h : r.InOrder) (ht : r.Over target) (hs : r.Over source)
    (ha : r.Assignable target source) : r.Convertible target source := by
  obtain ⟨wanted, hwanted⟩ := h.standsFor_total ht
  obtain ⟨found, hfound⟩ := h.standsFor_total hs
  refine (convertible_iff hwanted hfound).2 ?_
  rcases assignable_iff.1 ha with rfl | ⟨i, rfl, hi⟩ | hback
  · exact .same rfl
  · exact .interface rfl (satisfies_eq_true.2 hi)
  · -- neither side is an alias, so each stands for itself
    have hitself {t w : Ty} (hnominal : t.isNominal = false) (hw : r.StandsFor t w) : w = t := by
      have halias : t.isAlias = false := by cases t <;> first | rfl | cases hnominal
      exact Except.ok.inj (hw.symm.trans (standsFor_itself halias))
    rw [hitself hback.not_nominal hwanted, hitself hback.symm.not_nominal hfound]
    exact .stored ha

/-- Away from interfaces a conversion asks what the two types stand for. -/
theorem convertible_iff_alike (hwanted : r.StandsFor target wanted)
    (hfound : r.StandsFor source found)
    (hplain : ∀ i, wanted ≠ .interface i) : r.Convertible target source ↔ wanted.Alike found := by
  rw [convertible_iff hwanted hfound]
  constructor
  · intro h
    cases h with
    | same h =>
      subst h
      cases hwanted.symm.trans hfound
      exact .same wanted
    | sameUnderlying h =>
      rw [h]
      exact .same wanted
    | numbers hf hw => exact .numbers hw hf
    | @interface i ht _ =>
      subst ht
      exact absurd (Except.ok.inj (hwanted.symm.trans (standsFor_itself rfl))) (hplain i)
    | stored h =>
      rcases assignable_iff.1 h with rfl | ⟨i, hi, -⟩ | hback
      · exact .same wanted
      · exact absurd hi (hplain i)
      · exact .backing hback
  · intro h
    cases h with
    | same => exact .sameUnderlying rfl
    | numbers hw hf => exact .numbers hf hw
    | backing h => exact .stored (assignable_iff.2 (.inr (.inr h)))

/-- A type that stands for one that is no interface. -/
def Plain (r : Registry) (t : Ty) : Prop := ∃ w, r.StandsFor t w ∧ ∀ i, w ≠ .interface i

theorem Plain.convertible_refl {a : Ty} (ha : r.Plain a) : r.Convertible a a := by
  obtain ⟨w, hw, -⟩ := ha
  exact (convertible_iff hw hw).2 (.same rfl)

theorem Plain.convertible_symm {a b : Ty} (ha : r.Plain a) (hb : r.Plain b)
    (h : r.Convertible b a) : r.Convertible a b := by
  obtain ⟨wa, hwa, hplain⟩ := ha
  obtain ⟨wb, hwb, hplain'⟩ := hb
  rw [convertible_iff_alike hwb hwa hplain'] at h
  exact (convertible_iff_alike hwa hwb hplain).2 h.symm

theorem Plain.convertible_trans {a b c : Ty} (ha : r.Plain a) (hb : r.Plain b) (hc : r.Plain c)
    (hab : r.Convertible b a) (hbc : r.Convertible c b) : r.Convertible c a := by
  obtain ⟨wa, hwa, -⟩ := ha
  obtain ⟨wb, hwb, hplain⟩ := hb
  obtain ⟨wc, hwc, hplain'⟩ := hc
  rw [convertible_iff_alike hwb hwa hplain] at hab
  rw [convertible_iff_alike hwc hwb hplain'] at hbc
  exact (convertible_iff_alike hwc hwa hplain').2 (hbc.trans hab)

/-! ### To an interface -/

/-- The methods of a registry in use are apart from all other members. -/
theorem Produced.apart (h : r.Produced) : r.Apart := by
  induction h with
  | registered h =>
    have hnone := Registration.run_methods h
    refine ⟨?_, ?_⟩
    · simp [hnone]
    · simp [hnone]
  | declared _ hadd ih =>
    obtain ⟨hadmits, rfl⟩ := addMethod_iff.1 hadd
    exact ih.withMethod hadmits
  | frozen _ ih => exact ih.of_sublist rfl (List.Sublist.refl _)

theorem Produced.alias_satisfies (h : r.Produced) {n j : Nominal}
    (hj : r.Leads (.alias n) (.interface j)) : r.firstMismatch (.alias n) j = .ok none := by
  have hmembers : r.structuralMembers (.alias n) = .ok (r.required j) := by
    rw [structuralMembers_eq, resolveUnderlying_eq_ok.2 hj]
    rfl
  refine firstMismatch_eq_none.2
    (.inr ⟨_, h.apart.membersOf_eq_append (.inl ⟨n, rfl⟩) hmembers, ?_⟩)
  intro e he
  refine ⟨e.2, ?_, rfl, rfl⟩
  rw [Keyed.find?_append, Keyed.find?_of_mem (h.inOrder.required j).distinct he, Option.some_or]

/-- The members of a type are all that an interface requires. -/
def Exposes (r : Registry) (t : Ty) (i : Nominal) : Prop := r.Answers t i none

theorem InOrder.exposes_iff (h : r.InOrder) {t : Ty} {members : Keyed Member}
    (ht : r.membersOf t = .ok members)
    (i : Nominal) : r.Exposes t i ↔ r.firstMismatch t i = .ok none := by
  constructor
  · rintro ⟨members, hmembers, hall⟩
    exact firstMismatch_eq_none.2 (.inr ⟨members, hmembers, hall⟩)
  · intro hnone
    rcases firstMismatch_eq_none.1 hnone with (hempty | rfl) | hall
    · exact ⟨members, ht, by simp [FirstUnmet, hempty]⟩
    · exact ⟨_, rfl, provides_own (h.required i)⟩
    · exact hall

/-- **The ways to convert to an interface**: to satisfy it, or to stand for a struct that does. -/
theorem Produced.convertible_interface_iff (h : r.Produced) (hs : r.Over source) (i : Nominal) :
    r.Convertible (.interface i) source ↔
      r.Exposes source i ∨
        ∃ n s, source = .alias n ∧ r.StandsFor source (.struct s) ∧ r.Exposes (.struct s) i := by
  obtain ⟨members, hmembers⟩ := h.inOrder.membersOf_total hs
  obtain ⟨found, hfound⟩ := h.inOrder.standsFor_total hs
  rw [h.inOrder.exposes_iff hmembers, convertible_iff (standsFor_itself rfl) hfound]
  constructor
  · intro hconverts
    -- an alias of an interface exposes what the interface requires
    have hthrough {j : Nominal} (hj : found = .interface j) :
        r.firstMismatch source j = .ok none := by
      subst hj
      cases hfound.leads with
      | done => exact firstMismatch_eq_none.2 (.inl (.inr rfl))
      | step hn hlead => exact h.alias_satisfies (.step hn hlead)
    cases hconverts with
    | same hsame =>
      subst hsame
      exact .inl (firstMismatch_eq_none.2 (.inl (.inr rfl)))
    | sameUnderlying hsame => exact .inl (hthrough hsame)
    | numbers _ hw => cases hw
    | interface ht hsatisfies =>
      cases ht
      exact .inl (satisfies_eq_true.1 hsatisfies)
    | stored ha =>
      rcases assignable_iff.1 ha with hsame | ⟨_, hi, hnone⟩ | hback
      · exact .inl (hthrough hsame.symm)
      · cases hi
        cases hfound.leads with
        | done => exact .inl hnone
        | @step n _ _ _ hrest =>
          by_cases hstruct : ∃ s, found = .struct s
          · obtain ⟨s, rfl⟩ := hstruct
            exact .inr ⟨n, s, rfl, hfound, (h.inOrder.exposes_iff rfl i).2 hnone⟩
          by_cases hinterface : ∃ j, found = .interface j
          · obtain ⟨j, rfl⟩ := hinterface
            exact .inl (firstMismatch_trans (hthrough rfl) hnone)
          -- what has no members satisfies only an interface that requires none
          have hcomposed : found.isNominal = false := by
            have halias := hrest.not_alias
            cases found <;> simp_all [Ty.isNominal, Ty.isAlias]
          have hempty := h.inOrder.required_eq_nil hcomposed hnone
          exact .inl (firstMismatch_eq_none.2 (.inl (.inl hempty)))
      · exact absurd hback.not_nominal (by simp [Ty.isNominal])
  · rintro (hnone | ⟨n, s, rfl, hstruct, hexposes⟩)
    · exact .interface rfl (satisfies_eq_true.2 hnone)
    · cases hfound.symm.trans hstruct
      have hnone := (h.inOrder.exposes_iff rfl i).1 hexposes
      exact .stored (assignable_iff.2 (.inr (.inl ⟨i, rfl, hnone⟩)))

end Registry

/-! ### Conversions in expressions -/

/-- The expression converts the operand to a type, as a cast or by calling the name of the type. -/
inductive Conversion (env : Env) (target : Ty) (operand : Expr) : Origin → Expr → Prop
  | cast {o : Origin} {typeExpr : TypeExpr} (h : env.registry.typeOf typeExpr = .ok target) :
      Conversion env target operand o (.cast o typeExpr operand)
  | call {o n : Origin} {name : String} (h : env.calleeOf name = .conversion target) :
      Conversion env target operand o (.call o (.identifier n name) [operand])

theorem Conversion.over {env : Env} {target : Ty} {operand e : Expr} {o : Origin}
    (h : Conversion env target operand o e) (hregistry : env.registry.InOrder) :
    env.registry.Over target := by
  cases h with
  | cast ht => exact hregistry.typeOf_over ht
  | @call _ name hcallee =>
    unfold Env.calleeOf at hcallee
    split at hcallee
    · cases hcallee
    · cases hcallee
    · split at hcallee
      · next hlookup =>
          cases hcallee
          exact (hregistry.closed.named name target hlookup).2
      · cases hcallee

namespace Inference

variable {r : Registry} {env : Env} {target source : Ty} {operand e : Expr} {o : Origin}

theorem resolve_result {α : Type} {t w : Ty} (h : r.StandsFor t w) {f : Ty → Inference α} :
    (lift (r.resolveUnderlying t .nowhere) >>= f).result = (f w).result :=
  result_bind_of_ok h

theorem satisfiesTarget_total (h : r.InOrder) (hs : r.Over source) (target : Ty) :
    ∃ b, (satisfiesTarget r target source).result = .ok b ∧
      (b = true ↔ ∃ i, target = .interface i ∧ r.satisfies source i = .ok true) := by
  by_cases hinterface : ∃ i, target = .interface i
  · obtain ⟨i, rfl⟩ := hinterface
    obtain ⟨a, ha, -⟩ := h.firstMismatch_answers hs i
    have hresult : r.satisfies source i = .ok a.isNone := by
      rw [Registry.satisfies, ha]
      rfl
    refine ⟨a.isNone, (satisfies_result source i).trans hresult, ?_⟩
    simp [hresult]
  · refine ⟨false, ?_, by simp [not_exists.1 hinterface]⟩
    cases target with
    | interface i => exact absurd ⟨i, rfl⟩ hinterface
    | _ => rfl

/-- **The two types decide whether a conversion passes.** -/
theorem requireConvertible_decides (h : r.InOrder) (ht : r.Over target) (hs : r.Over source)
    (span : Span) :
    ∃ b, (b = true ↔ r.Convertible target source) ∧
      (requireConvertible r target source span).result =
      if b then .ok () else .error (.of (.noConversion source.name target.name) span) := by
  obtain ⟨wanted, hwanted⟩ := h.standsFor_total ht
  obtain ⟨found, hfound⟩ := h.standsFor_total hs
  simp only [Registry.convertible_iff hwanted hfound]
  rw [requireConvertible, resolve_result hwanted, resolve_result hfound]
  by_cases hsame : source = target ∨ found = wanted
  · rw [if_pos (by simpa using hsame)]
    exact ⟨true, iff_of_true rfl (hsame.elim .same .sameUnderlying), rfl⟩
  by_cases hnumbers : found.isNumeric = true ∧ wanted.isNumeric = true
  · rw [if_neg (by simpa using hsame), if_pos (by simpa using hnumbers)]
    exact ⟨true, iff_of_true rfl (.numbers hnumbers.1 hnumbers.2), rfl⟩
  rw [if_neg (by simpa using hsame), if_neg (by simpa using hnumbers)]
  obtain ⟨b, hb, hsatisfies⟩ := satisfiesTarget_total h hs target
  rw [result_bind_of_ok hb]
  cases b with
  | true =>
    obtain ⟨i, hi, hsatisfied⟩ := hsatisfies.1 rfl
    exact ⟨true, iff_of_true rfl (.interface hi hsatisfied), rfl⟩
  | false =>
    obtain ⟨b, hb⟩ : ∃ b, r.isAssignable wanted found = .ok b :=
      h.isAssignable_total (h.leads_over hfound.leads hs)
    rw [if_neg Bool.false_ne_true, result_bind_of_ok ((assignable_result wanted found).trans hb)]
    refine ⟨b, ?_, by cases b <;> rfl⟩
    constructor
    · rintro rfl
      exact .stored hb
    · intro hconverts
      cases hconverts with
      | same hs => exact absurd (.inl hs) hsame
      | sameUnderlying hs => exact absurd (.inr hs) hsame
      | numbers hf hw => exact absurd ⟨hf, hw⟩ hnumbers
      | interface hi hsatisfied =>
        exact absurd (hsatisfies.2 ⟨_, hi, hsatisfied⟩) Bool.false_ne_true
      | stored ha => exact Except.ok.inj (hb.symm.trans ha)

/-- **The type of the operand and the target decide what becomes of a conversion.** -/
theorem conversion_result (hc : Conversion env target operand o e)
    (hoperand : operand.isComposedLiteral = false)
    (hsource : (infer env none operand).result = .ok source)
    (htarget : ∃ wanted, env.registry.StandsFor target wanted)
    (expected : Option Ty) : (infer env expected e).result =
      (requireConvertible env.registry target source o.span).result.map fun _ => target := by
  obtain ⟨wanted, hwanted⟩ := htarget
  have hexpected : (conversionExpected env target operand).result = .ok none := by
    rw [conversionExpected, resolve_result hwanted, hoperand]
    rfl
  have hyield : (yieldOf env expected e).result =
      (requireConvertible env.registry target source o.span >>=
        fun _ => conclude o target).result := by
    rw [infer] at hsource
    cases hc with
    | cast htype =>
      rw [yieldOf, result_bind_of_ok (show (lift _).result = .ok target from htype),
        result_bind_of_ok hexpected, result_bind_of_ok hsource]
    | call hcallee =>
      rw [yieldOf, hcallee, result_bind_of_ok hexpected, result_bind_of_ok hsource]
  rw [infer, value]
  rcases hresult : (requireConvertible env.registry target source o.span).result with f | _
  · rw [result_bind_of_error hresult] at hyield
    rw [result_bind_of_error hyield]
    rfl
  · rw [result_bind_of_ok hresult] at hyield
    rw [result_bind_of_ok hyield]
    rfl

/-- A conversion is accepted exactly when the type of its operand converts to the target. -/
theorem conversion_decides (h : env.registry.InOrder) (hc : Conversion env target operand o e)
    (hoperand : operand.isComposedLiteral = false)
    (hsource : (infer env none operand).result = .ok source)
    (hs : env.registry.Over source) (expected : Option Ty) :
    ((infer env expected e).result = .ok target ↔ env.registry.Convertible target source) ∧
    ((infer env expected e).result ≠ .ok target →
      (infer env expected e).result = .error
      (.of (.noConversion source.name target.name) o.span)) := by
  have htarget := hc.over h
  rw [conversion_result hc hoperand hsource (h.standsFor_total htarget)]
  obtain ⟨b, hb, hresult⟩ := requireConvertible_decides h htarget hs o.span
  rw [hresult, ← hb]
  cases b with
  | true => simp [Except.map]
  | false => simp [Except.map]

/--
**Conversion extends assignability, and is an equivalence away from interfaces.**  Whether a
conversion of an operand that is no composed literal is accepted depends on the type of the operand
and the target alone, and it then has the type of the target.
-/
theorem conversion_extends_assignability (h : r.Produced) :
    (∀ env target operand o e source expected, env.registry = r →
      Conversion env target operand o e →
      operand.isComposedLiteral = false → (infer env none operand).result = .ok source →
        r.Over source →
      ((infer env expected e).result = .ok target ↔ r.Convertible target source) ∧
      ((infer env expected e).result ≠ .ok target →
        (infer env expected e).result = .error
        (.of (.noConversion source.name target.name) o.span))) ∧
    (∀ target source, r.Over target → r.Over source → r.isAssignable target source = .ok true →
      r.Convertible target source) ∧
    (∀ a, r.Plain a → r.Convertible a a) ∧
    (∀ a b, r.Plain a → r.Plain b → r.Convertible b a → r.Convertible a b) ∧
    ∀ a b c, r.Plain a → r.Plain b → r.Plain c → r.Convertible b a → r.Convertible c b →
      r.Convertible c a := by
  refine ⟨?_, ?_, fun a ha => ha.convertible_refl, fun a b ha hb => ha.convertible_symm hb,
    fun a b c ha hb hc => ha.convertible_trans hb hc⟩
  · rintro env target operand o e source expected rfl hc hoperand hsource hs
    exact conversion_decides h.inOrder hc hoperand hsource hs expected
  · intro target source ht hs ha
    exact h.inOrder.convertible_of_assignable ht hs ha

/-- A box and a crate are in scope. -/
def stockroom (r : Registry) : Env :=
  { registry := r
    wordBits := .int 64
    functions := []
    scopes :=
      { global :=
          { name := "global"
            symbols :=
              [("box", ⟨"box", .variable, .struct ⟨3, "Box"⟩, none, none⟩),
               ("crate", ⟨"crate", .variable, .alias ⟨4, "Crate"⟩, none, none⟩)] } } }

/-- A variable. -/
def stored (name : String) : Expr := .identifier ⟨.root 1, .nowhere⟩ name

/-- A call of the name of a type with a variable. -/
def converted (type name : String) : Expr :=
  .call ⟨.root 0, .nowhere⟩ (.identifier ⟨.root 2, .nowhere⟩ type) [stored name]

theorem converted_converts {type : String} {t : Ty} (hfree : (stockroom r).typeOfName? type = none)
    (ht : r.lookup? type = some t) (name : String) :
    Conversion (stockroom r) t (stored name) ⟨.root 0, .nowhere⟩ (converted type name) := by
  have hlookup : (stockroom r).registry.lookup? type = some t := ht
  exact .call (by simp only [Env.calleeOf, hfree, hlookup])

theorem shelved_names (hr : Registry.shelved = .ok r) :
    r.lookup? "Sized" = some (.interface ⟨1, "Sized"⟩) ∧
      r.lookup? "Box" = some (.struct ⟨3, "Box"⟩) ∧
    r.lookup? "Crate" = some (.alias ⟨4, "Crate"⟩) ∧ r.Over (.interface ⟨1, "Sized"⟩) ∧
      r.Over (.struct ⟨3, "Box"⟩) ∧
    r.Over (.alias ⟨4, "Crate"⟩) := by
  have hrun : Registry.shelved.toOption.map (fun r => decide (
      r.lookup? "Sized" = some (.interface ⟨1, "Sized"⟩) ∧
        r.lookup? "Box" = some (.struct ⟨3, "Box"⟩) ∧
      r.lookup? "Crate" = some (.alias ⟨4, "Crate"⟩) ∧ r.Over (.interface ⟨1, "Sized"⟩) ∧
      r.Over (.struct ⟨3, "Box"⟩) ∧ r.Over (.alias ⟨4, "Crate"⟩))) = some true := by decide +kernel
  rw [hr] at hrun
  exact of_decide_eq_true (Option.some.inj hrun)

/-- A box is converted to its alias, and so the alias to a box.  A box has a size. -/
theorem conversion_extends_assignability_stockroom : ∃ r : Registry, r.Produced ∧
    (infer (stockroom r) none (converted "Crate" "box")).result = .ok (.alias ⟨4, "Crate"⟩) ∧
    (infer (stockroom r) none (converted "Box" "crate")).result = .ok (.struct ⟨3, "Box"⟩) ∧
    (infer (stockroom r) none (converted "Sized" "box")).result = .ok
    (.interface ⟨1, "Sized"⟩) := by
  have hrun : Registry.shelved.toOption.map (fun r =>
      ((infer (stockroom r) none (converted "Crate" "box")).result.toOption,
       (r.isAssignable (.interface ⟨1, "Sized"⟩) (.struct ⟨3, "Box"⟩)).toOption,
       (r.resolveUnderlying (.alias ⟨4, "Crate"⟩) .nowhere).toOption)) =
      some (some (.alias ⟨4, "Crate"⟩), some true, some (.struct ⟨3, "Box"⟩)) := by decide +kernel
  obtain ⟨r, hr, hanswers⟩ := Option.map_eq_some_iff.1 hrun
  simp only [Prod.mk.injEq, Except.toOption_eq_some] at hr hanswers
  obtain ⟨haccepted, hstored, hcrate⟩ := hanswers
  obtain ⟨hsized, hbox, hnamed, hoverSized, hoverBox, hoverCrate⟩ := shelved_names hr
  have hproduced := Registry.shelved_produced hr
  obtain ⟨hdecides, hextends, -, hsymm, -⟩ := conversion_extends_assignability hproduced
  have htoCrate := hdecides _ _ _ _ _ _ none rfl (converted_converts rfl hnamed "box")
    rfl rfl hoverBox
  have htoBox := hdecides _ _ _ _ _ _ none rfl (converted_converts rfl hbox "crate") rfl
    rfl hoverCrate
  have htoSized := hdecides _ _ _ _ _ _ none rfl (converted_converts rfl hsized "box")
    rfl rfl hoverBox
  refine ⟨r, hproduced, haccepted, htoBox.1.2 ?_,
    htoSized.1.2 (hextends _ _ hoverSized hoverBox hstored)⟩
  exact hsymm _ _ ⟨_, Registry.standsFor_itself rfl, by simp⟩ ⟨_, hcrate, by simp⟩
    (htoCrate.1.1 haccepted)

/--
**What is converted to an interface satisfies it, or is an alias of a struct that does.**  Otherwise
the conversion is refused, and the complaint names both types.
-/
theorem interface_conversion_accepted_iff (h : env.registry.Produced) {i : Nominal}
    (hc : Conversion env (.interface i) operand o e) (hoperand : operand.isComposedLiteral = false)
    (hsource : (infer env none operand).result = .ok source) (hs : env.registry.Over source)
    (expected : Option Ty) :
    ((infer env expected e).result = .ok (.interface i) ↔ env.registry.Exposes source i ∨
      ∃ n s, source = .alias n ∧ env.registry.StandsFor source (.struct s) ∧
        env.registry.Exposes (.struct s) i) ∧
    ((infer env expected e).result ≠ .ok (.interface i) →
      (infer env expected e).result = .error (.of (.noConversion source.name i.name) o.span)) := by
  rw [← h.convertible_interface_iff hs]
  exact conversion_decides h.inOrder hc hoperand hsource hs expected

/-- A crate is converted to the interface of its box, although it has no size itself. -/
theorem interface_conversion_accepted_iff_crate : ∃ r : Registry, r.Produced ∧
    (infer (stockroom r) none (stored "crate")).result = .ok (.alias ⟨4, "Crate"⟩) ∧
    r.StandsFor (.alias ⟨4, "Crate"⟩) (.struct ⟨3, "Box"⟩) ∧ r.Exposes (.struct ⟨3, "Box"⟩)
      ⟨1, "Sized"⟩ ∧
    (infer (stockroom r) none (converted "Sized" "crate")).result = .ok
    (.interface ⟨1, "Sized"⟩) := by
  have hrun : Registry.shelved.toOption.map (fun r =>
      ((r.firstMismatch (.struct ⟨3, "Box"⟩) ⟨1, "Sized"⟩).toOption,
       (r.resolveUnderlying (.alias ⟨4, "Crate"⟩) .nowhere).toOption)) =
      some (some none, some (.struct ⟨3, "Box"⟩)) := by decide +kernel
  obtain ⟨r, hr, hanswers⟩ := Option.map_eq_some_iff.1 hrun
  simp only [Prod.mk.injEq, Except.toOption_eq_some] at hr hanswers
  obtain ⟨hmet, hcrate⟩ := hanswers
  obtain ⟨hsized, -, -, -, -, hover⟩ := shelved_names hr
  have hproduced := Registry.shelved_produced hr
  have hregistry : (stockroom r).registry.Produced := hproduced
  have hexposes := (hproduced.inOrder.exposes_iff rfl ⟨1, "Sized"⟩).2 hmet
  have hconverts := converted_converts rfl hsized "crate"
  have haccepted := interface_conversion_accepted_iff hregistry hconverts rfl rfl hover none
  exact ⟨r, hproduced, rfl, hcrate, hexposes, haccepted.1.2 (.inr ⟨_, _, rfl, hcrate, hexposes⟩)⟩

/-- The conversion of a crate is accepted, but it lacks the size that the interface requires. -/
theorem crate_converted_unsized : ∃ r : Registry, Registry.shelved = .ok r ∧
    (infer (stockroom r) none (converted "Sized" "crate")).result = .ok (.interface ⟨1, "Sized"⟩) ∧
    ¬r.Exposes (.alias ⟨4, "Crate"⟩) ⟨1, "Sized"⟩ := by
  have hrun : Registry.shelved.toOption.map (fun r =>
      ((infer (stockroom r) none (converted "Sized" "crate")).result.toOption,
       (r.satisfies (.alias ⟨4, "Crate"⟩) ⟨1, "Sized"⟩).toOption)) =
      some (some (.interface ⟨1, "Sized"⟩), some false) := by decide +kernel
  obtain ⟨r, hr, hanswers⟩ := Option.map_eq_some_iff.1 hrun
  simp only [Prod.mk.injEq, Except.toOption_eq_some] at hr hanswers
  refine ⟨r, hr, hanswers.1, ?_⟩
  rintro ⟨members, hmembers, hall⟩
  have hmet := Registry.firstMismatch_eq_none.2 (.inr ⟨members, hmembers, hall⟩)
  cases (Registry.satisfies_eq_true.2 hmet).symm.trans hanswers.2

end Inference

end TreeTyping
