/-
What single rules conclude.

One lemma for each rule that expressions and statements are checked with: when the rule lets an
expression or statement pass, the relation it stands for holds.  The rules ask about interfaces and
report what is wrong on the way; none of that is left once a rule has been passed.
-/
import TreeTyping.Proofs.Typing.Derivation

namespace TreeTyping

open List

/-! ### Assignability and conversion -/

namespace Registry

variable {r : Registry}

theorem assignable_refl (t : Ty) : r.Assignable t t := by
  unfold Assignable isAssignable
  exact if_pos rfl

theorem assignable_interface {t : Ty} {i : Nominal} (h : r.satisfies t i = .ok true) :
    r.Assignable (.interface i) t := by
  rw [Assignable, isAssignable]
  split
  · rfl
  · exact h

end Registry

namespace Inference

variable {table : TypeTable} {r : Registry} {span : Span} {types : List Ty} {name : String}
  {expected : Option Ty} {target source : Ty} {env : Env} {a : Unit}

theorem mismatch_result (t : Ty) (i : Nominal) : (mismatch r t i).result = r.firstMismatch t i := by
  unfold mismatch
  split
  · next h => rw [Registry.firstMismatch, if_pos h]; rfl
  · rcases h : r.firstMismatch t i with e | m <;> rfl

theorem satisfies_result (t : Ty) (i : Nominal) : (satisfies r t i).result = r.satisfies t i := by
  have h := mismatch_result (r := r) t i
  unfold satisfies Registry.satisfies
  rw [← h]
  rcases hm : (mismatch r t i).result with e | m
  · rw [result_bind_of_error hm]; rfl
  · rw [result_bind_of_ok hm]; rfl

theorem assignable_result (target source : Ty) :
    (assignable r target source).result = r.isAssignable target source := by
  unfold assignable
  split
  · rw [Registry.isAssignable]
    split
    · rfl
    · exact satisfies_result _ _
  · rfl

/-- A refusal never lets anything pass. -/
theorem refuse_never : (refuse r target source span).result ≠ .ok a := by
  have hrest {f : Bool → Inference Unit} (hf : ∀ b, ∃ e, (f b).result = .error e) :
      (lift (r.sameUnderlying target source) >>= f).result ≠ .ok a := by
    intro ha
    obtain ⟨b, -, hb⟩ := bind_result_eq_ok.1 ha
    obtain ⟨e, he⟩ := hf b
    cases he.symm.trans hb
  unfold refuse
  split
  · intro ha
    obtain ⟨_, -, ha⟩ := bind_result_eq_ok.1 ha
    exact hrest (fun _ => ⟨_, rfl⟩) ha
  · exact hrest fun _ => ⟨_, rfl⟩

theorem requireAssignable_result :
    (requireAssignable r target source span).result = .ok a ↔ r.Assignable target source := by
  rw [requireAssignable, bind_result_eq_ok, assignable_result]
  constructor
  · rintro ⟨b, hb, ha⟩
    cases b with
    | true => exact hb
    | false => exact absurd ha refuse_never
  · exact fun hok => ⟨true, hok, rfl⟩

theorem requireAssignable_ensures :
    Ensures table (requireAssignable r target source span) (fun _ => r.Assignable target source) :=
  .of_result fun _ => requireAssignable_result.1

/-- A conversion passes between types that stand for the same or numbers, and where storing does. -/
theorem requireConvertible_result : (requireConvertible r target source span).result = .ok a ↔
      ∃ wanted found, r.resolveUnderlying target .nowhere = .ok wanted ∧
        r.resolveUnderlying source .nowhere = .ok found ∧
        ((source = target ∨ found = wanted) ∨ (found.isNumeric = true ∧ wanted.isNumeric = true) ∨
          ∃ b, (satisfiesTarget r target source).result = .ok b ∧
            (b = true ∨ r.Assignable wanted found)) := by
  rw [requireConvertible, bind_result_eq_ok]
  refine exists_congr fun wanted => ?_
  rw [bind_result_eq_ok]
  simp only [exists_and_left]
  refine and_congr_right fun _ => exists_congr fun found => and_congr_right fun _ => ?_
  by_cases hsame : source = target ∨ found = wanted
  · rw [if_pos (by simpa using hsame)]
    exact ⟨fun _ => .inl hsame, fun _ => rfl⟩
  by_cases hnumeric : found.isNumeric = true ∧ wanted.isNumeric = true
  · rw [if_neg (by simpa using hsame), if_pos (by simpa using hnumeric)]
    exact ⟨fun _ => .inr (.inl hnumeric), fun _ => rfl⟩
  rw [if_neg (by simpa using hsame), if_neg (by simpa using hnumeric), or_iff_right hsame,
    or_iff_right hnumeric, bind_result_eq_ok]
  refine exists_congr fun b => and_congr_right fun _ => ?_
  cases b with
  | true => exact ⟨fun _ => .inl rfl, fun _ => rfl⟩
  | false =>
    rw [if_neg Bool.false_ne_true, or_iff_right Bool.false_ne_true, bind_result_eq_ok,
      assignable_result]
    constructor
    · rintro ⟨b, hb, ha⟩
      cases b with
      | true => exact hb
      | false => cases ha
    · exact fun hok => ⟨true, hok, rfl⟩

theorem satisfiesTarget_true (h : (satisfiesTarget r target source).result = .ok true) :
    ∃ i, target = .interface i ∧ r.satisfies source i = .ok true := by
  cases target with
  | interface i => exact ⟨i, rfl, (satisfies_result source i).symm.trans h⟩
  | _ => cases h

theorem requireConvertible_ensures :
    Ensures table (requireConvertible r target source span)
      (fun _ => r.Convertible target source) := by
  refine .of_result fun _ h => ?_
  obtain ⟨wanted, found, hwanted, hfound, hpass⟩ := requireConvertible_result.1 h
  refine ⟨wanted, found, hwanted, hfound, ?_⟩
  rcases hpass with (hsame | hsame) | ⟨hf, hw⟩ | ⟨b, hb, rfl | hstored⟩
  · exact .same hsame
  · exact .sameUnderlying hsame
  · exact .numbers hf hw
  · obtain ⟨i, hi, hsatisfies⟩ := satisfiesTarget_true hb
    exact .interface hi hsatisfies
  · exact .stored hstored

/-! ### Literals and operators -/

theorem canHave_typeFor (kind : LiteralKind) (expected : Option Ty) :
    kind.CanHave (kind.typeFor expected) := by
  unfold LiteralKind.typeFor
  split
  · split
    · next h => exact .adopted h
    · exact .own
  · exact .own

theorem literalType_ensures {bits : Number} {negated : Bool} {v : Value}
    {kind : Option LiteralKind} : Ensures table (literalType bits expected negated v kind span)
      (fun t => ∃ k, kind = some k ∧ k.CanHave t) := by
  cases kind with
  | none => exact .faulty
  | some k => exact .skip fun _ => .pure ⟨k, rfl, canHave_typeFor k expected⟩

theorem joins_of_binaryResult? {op : Operator} {t w u : Ty} (h : op.binaryResult? t w = some u) :
    op.Joins t w u := by
  unfold Operator.binaryResult? at h
  split at h <;> rename_i hfamily
  · obtain ⟨hw, hu⟩ := Option.ite_none_right_eq_some.1 h
    cases hu
    exact .arithmetic hfamily (by simpa using hw)
  · obtain ⟨hw, hu⟩ := Option.ite_none_right_eq_some.1 h
    cases hu
    exact .ordering hfamily (by simpa using hw)
  · cases h
    exact .equality hfamily
  · obtain ⟨rfl, hu⟩ := Option.ite_none_right_eq_some.1 h
    cases hu
    exact .logical hfamily
  · cases h

theorem turns_of_unaryResult? {op : Operator} {t w u : Ty} (h : op.unaryResult? t w = some u) :
    op.Turns t w u := by
  unfold Operator.unaryResult? at h
  split at h
  · obtain ⟨rfl, hu⟩ := Option.ite_none_right_eq_some.1 h
    cases hu
    exact .not
  · obtain ⟨hw, hu⟩ := Option.ite_none_right_eq_some.1 h
    obtain ⟨hn, hs⟩ := Bool.and_eq_true_iff.1 hw
    cases hu
    exact .minus hn hs
  · obtain ⟨hn, hu⟩ := Option.ite_none_right_eq_some.1 h
    cases hu
    exact .plus hn
  · cases h

theorem binaryType_ensures {op : Option Operator} {left right : Ty} :
    Ensures table (binaryType r op left right span)
      (fun t => ∃ o w, op = some o ∧ left = right ∧ r.StandsFor left w ∧ o.Joins left w t) := by
  unfold binaryType
  split
  · exact .faulty
  · next o =>
      split
      · exact .complain
      · next hsame =>
          refine .bind .lift fun w hw => ?_
          split
          · next h => exact .pure ⟨o, w, rfl, Decidable.not_not.1 hsame, hw,
              joins_of_binaryResult? h⟩
          · exact .complain

theorem unaryType_ensures {op : Option Operator} {operand : Ty} :
    Ensures table (unaryType r op operand span)
      (fun t => ∃ o w, op = some o ∧ r.StandsFor operand w ∧ o.Turns operand w t) := by
  unfold unaryType
  refine .bind .lift fun w hw => ?_
  split
  · exact .faulty
  · next o =>
      split
      · next h => exact .pure ⟨o, w, rfl, hw, turns_of_unaryResult? h⟩
      · exact .complain

/-! ### Composed literals -/

theorem requireAllAssignable_result {expected : Ty} :
    (requireAllAssignable r expected span types).result = .ok a ↔
      ∀ t ∈ types, r.Assignable expected t := by
  induction types with
  | nil => exact ⟨fun _ => forall_mem_nil _, fun _ => rfl⟩
  | cons t rest ih =>
    rw [requireAllAssignable, bind_result_eq_ok, assignable_result, forall_mem_cons, ← ih]
    constructor
    · rintro ⟨b, hb, ha⟩
      cases b with
      | true => exact ⟨hb, ha⟩
      | false =>
        -- a type that is not assignable is complained about, whether or not more is said
        exfalso
        rw [if_neg Bool.false_ne_true] at ha
        cases expected with
        | interface i =>
          obtain ⟨_, -, ha⟩ := bind_result_eq_ok.1 ha
          cases ha
        | _ => cases ha
    · rintro ⟨ht, ha⟩
      exact ⟨true, ht, ha⟩

/-- All types are an interface or satisfy it exactly when each can be stored under it. -/
theorem allSatisfy_result {i : Nominal} :
    (allSatisfy r i types).result = .ok true ↔ ∀ t ∈ types, r.Assignable (.interface i) t := by
  induction types with
  | nil => exact ⟨fun _ => forall_mem_nil _, fun _ => rfl⟩
  | cons t rest ih =>
    rw [allSatisfy, forall_mem_cons, ← ih]
    by_cases ht : t = .interface i
    · rw [if_pos ht]
      exact ⟨fun hrest => ⟨ht ▸ Registry.assignable_refl t, hrest⟩, And.right⟩
    · rw [if_neg ht, bind_result_eq_ok, satisfies_result, Registry.Assignable,
        Registry.isAssignable, if_neg (Ne.symm ht)]
      constructor
      · rintro ⟨b, hb, hrest⟩
        cases b with
        | true => exact ⟨hb, hrest⟩
        | false => cases hrest
      · rintro ⟨hb, hrest⟩
        exact ⟨true, hb, hrest⟩

/-- The interface that is found is a candidate, and all types can be stored under it. -/
theorem sharedInterface?_result {candidates : List Ty} {t : Ty}
    (h : (sharedInterface? r types candidates).result = .ok (some t)) :
    ∃ i, t = .interface i ∧ t ∈ candidates ∧ ∀ u ∈ types, r.Assignable t u := by
  induction candidates with
  | nil => cases h
  | cons c rest ih =>
    by_cases hc : ∃ i, c = .interface i
    · obtain ⟨i, rfl⟩ := hc
      rw [sharedInterface?] at h
      obtain ⟨b, hb, h⟩ := bind_result_eq_ok.1 h
      cases b with
      | true =>
        cases h
        exact ⟨i, rfl, mem_cons_self, allSatisfy_result.1 hb⟩
      | false =>
        obtain ⟨j, hj, hmem, hall⟩ := ih h
        exact ⟨j, hj, mem_cons_of_mem _ hmem, hall⟩
    · rw [sharedInterface?] at h
      · obtain ⟨j, hj, hmem, hall⟩ := ih h
        exact ⟨j, hj, mem_cons_of_mem _ hmem, hall⟩
      · exact fun i hi => hc ⟨i, hi⟩

/-- The type that is shared is that of all elements, or the first interface that suits them. -/
theorem sharedType_result {what : String} {t : Ty}
    (h : (sharedType r types span what).result = .ok t) : t ∈ types ∧ ((∀ s ∈ types, s = t) ∨
      ∃ i, t = .interface i ∧ ∀ s ∈ types, r.Assignable t s) := by
  cases types with
  | nil => cases h
  | cons first rest =>
    by_cases hsame : rest.all (· = first) = true
    · rw [sharedType, if_pos hsame] at h
      obtain rfl : first = t := Except.ok.inj h
      refine ⟨mem_cons_self, .inl (forall_mem_cons.2 ⟨rfl, ?_⟩)⟩
      intro s hs
      exact of_decide_eq_true (all_eq_true.1 hsame s hs)
    · rw [sharedType, if_neg hsame] at h
      obtain ⟨found, hfound, h⟩ := bind_result_eq_ok.1 h
      cases found with
      | none => cases h
      | some u =>
        obtain rfl : u = t := Except.ok.inj h
        obtain ⟨i, hi, hmem, hall⟩ := sharedInterface?_result hfound
        exact ⟨hmem, .inr ⟨i, hi, hall⟩⟩

theorem commonType_stores {what : String} {t : Ty}
    (h : (commonType r types expected span what).result = .ok t) :
    ∀ s ∈ types, r.Assignable t s := by
  cases expected with
  | some e =>
    obtain ⟨_, hall, ht⟩ := bind_result_eq_ok.1 h
    cases ht
    exact requireAllAssignable_result.1 hall
  | none =>
    obtain ⟨-, hsame | ⟨i, -, hall⟩⟩ := sharedType_result h
    · exact fun s hs => hsame s hs ▸ Registry.assignable_refl s
    · exact hall

theorem commonType_asked {what : String} {t e : Ty}
    (h : (commonType r types (some e) span what).result = .ok t) : t = e := by
  obtain ⟨_, -, ht⟩ := bind_result_eq_ok.1 h
  exact (Except.ok.inj ht).symm

/-- The array that is asked for is of the length of the literal; what is no array asks for none. -/
theorem expectedArray_result {found : Nat} {array : Option Ty}
    (h : (expectedArray expected found span).result = .ok array) :
    (array = none ∧ ∀ e n, expected ≠ some (.array e n)) ∨
      ∃ e n, expected = some (.array e n) ∧ array = some (.array e n) ∧ ∀ k, n = some k →
        k = (found : Int) := by
  unfold expectedArray at h
  split at h
  · split at h
    · next hlength =>
        cases h
        refine .inr ⟨_, _, rfl, rfl, fun k hk => ?_⟩
        rw [← Option.some.inj hk]
        exact hlength
    · cases h
  · cases h
    exact .inr ⟨_, _, rfl, rfl, fun k hk => by cases hk⟩
  · next hfixed hfree =>
      cases h
      refine .inl ⟨rfl, fun e n h => ?_⟩
      cases n with
      | none => exact hfree e h
      | some length => exact hfixed e length h

/-- What the backing of a list literal is put together from. -/
theorem listBacking_result {bits : Number} {constants : List Value} {b : Backing}
    (h : (listBacking r bits types expected constants span).result = .ok b) :
    ∃ element length bytes, b = ⟨.array element length, .list element,
        some ⟨element, types.length, Registry.wordBytes bits, bytes, constants⟩⟩ ∧
      (∀ s ∈ types, r.Assignable element s) ∧ (∀ n, length = some n → n = (types.length : Int)) ∧
      r.size bits element = .ok bytes ∧
      listType expected b = (expected.filter fun t => t.listElement?.isSome).getD
        (.list element) := by
  obtain ⟨array, harray, h⟩ := bind_result_eq_ok.1 h
  obtain ⟨element, helement, h⟩ := bind_result_eq_ok.1 h
  obtain ⟨bytes, hbytes, h⟩ := bind_result_eq_ok.1 h
  obtain rfl := Except.ok.inj h
  rcases expectedArray_result harray with ⟨rfl, hother⟩ | ⟨e, length, rfl, rfl, hlength⟩
  · refine ⟨element, none, bytes, rfl, commonType_stores helement, fun n h => (by cases h), hbytes,
      ?_⟩
    rcases expected with _ | t
    · rfl
    · cases t with
      | array e length => exact absurd rfl (hother e length)
      | list e =>
        obtain rfl := commonType_asked helement
        rfl
      | _ => rfl
  · obtain rfl := commonType_asked helement
    exact ⟨element, length, bytes, rfl, commonType_stores helement, hlength, hbytes, rfl⟩

theorem mapBacking_result {keys values : List Ty} {b : Backing}
    (h : (mapBacking r keys values expected span).result = .ok b) :
    ∃ key value, b = ⟨.hashMap key value, .map key value, none⟩ ∧ (∀ s ∈ keys, r.Assignable key s) ∧
      (∀ s ∈ values, r.Assignable value s) ∧
      mapType expected b = (expected.filter fun t => t.mapEntry?.isSome).getD (.map key value) := by
  obtain ⟨key, hkey, h⟩ := bind_result_eq_ok.1 h
  obtain ⟨value, hvalue, h⟩ := bind_result_eq_ok.1 h
  obtain rfl := Except.ok.inj h
  refine ⟨key, value, rfl, commonType_stores hkey, commonType_stores hvalue, ?_⟩
  rcases expected with _ | t
  · rfl
  · cases t with
    | hashMap k v | map k v =>
      obtain rfl := commonType_asked hkey
      obtain rfl := commonType_asked hvalue
      rfl
    | _ => rfl

theorem setBacking_result {b : Backing} (h : (setBacking r types expected span).result = .ok b) :
    ∃ element, b = ⟨.hashSet element, .set element, none⟩ ∧ (∀ s ∈ types, r.Assignable element s) ∧
      setType expected b = (expected.filter fun t => t.setElement?.isSome).getD (.set element) := by
  obtain ⟨element, helement, h⟩ := bind_result_eq_ok.1 h
  obtain rfl := Except.ok.inj h
  refine ⟨element, rfl, commonType_stores helement, ?_⟩
  rcases expected with _ | t
  · rfl
  · cases t with
    | hashSet e | set e =>
      obtain rfl := commonType_asked helement
      rfl
    | _ => rfl

/-! ### Names and members -/

theorem nameType_ensures :
    Ensures table (nameType env name span) (fun t => env.typeOfName? name = some t) := by
  unfold nameType
  split
  · next h => exact .pure h
  · exact .complain

theorem requireCount_ensures {params : List Ty} {args : List Expr} :
    Ensures table (requireCount name params args span) (fun _ => args.length = params.length) := by
  unfold requireCount
  split
  · next h => exact .pure h
  · exact .complain

theorem methodType_ensures {object : Ty} : Ensures table (methodType env object name span)
      (fun m => env.registry.HasMethod object name m.1 m.2) := by
  unfold methodType
  refine .bind .lift fun members hmembers => ?_
  split
  · exact .complain
  · next member hmember =>
      split
      · exact .complain
      · next hkind htype => exact .pure ⟨members, member, hmembers, hmember, hkind, htype⟩
      · exact .faulty

theorem fieldType_ensures {object : Ty} :
    Ensures table (fieldType env object name span)
      (fun t => env.registry.HasField object name t) := by
  unfold fieldType
  refine .bind .lift fun members hmembers => ?_
  split
  · exact .complain
  · next member hmember =>
      split
      · next hkind => exact .pure ⟨members, member, hmembers, hmember, hkind, rfl⟩
      · exact .complain

theorem literalStruct_ensures :
    Ensures table (literalStruct env name span)
      (fun s => ∃ n, env.registry.lookup? name = some s.1 ∧
      env.registry.StandsFor s.1 (.struct n) ∧ s.2 = env.registry.structFields n) := by
  unfold literalStruct
  refine .bind (P := fun t => env.registry.lookup? name = some t) ?_ fun t ht => ?_
  · unfold Registry.resolve
    split
    · next h => exact .pure h
    · exact .fail
  · refine .bind .lift fun w hw => ?_
    split
    · next n => exact .pure ⟨n, ht, hw, rfl⟩
    · exact .complain

theorem requireAllFields_ensures {struct : Ty} {declared : Keyed Ty} {given : List String} :
    Ensures table (requireAllFields struct declared given span)
      (fun _ => ∀ name ∈ declared.names, name ∈ given) := by
  unfold requireAllFields
  split
  · next h =>
      refine .pure fun name hname => ?_
      have hnone := filter_eq_nil_iff.1 h name hname
      simpa using hnone
  · exact .complain

end Inference

end TreeTyping
