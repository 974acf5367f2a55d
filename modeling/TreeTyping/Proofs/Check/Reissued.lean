/-
Declarations in an environment that is issued anew.

What a variable or the body of a function comes to in an environment that is issued anew is what it
came to before: the same is reported, and the same types and backings are found, up to identities.
Where no method is added this holds of everything, faults too.  Where methods are added it holds of
what was checked without an error.
-/
import TreeTyping.Proofs.Check.Module
import TreeTyping.Proofs.Check.Outcomes
import TreeTyping.Proofs.Typing.Reissued

namespace TreeTyping

open List TreeTyping.Except
open Progress (BodyOutcome variableScopes variableOutcome variableOutcomes flowOutcome
  checkBody rejected)

variable {v : Reissue} {env env' : Env}

/-- A body with the identities in its signature renamed. -/
def Body.rename (σ : Renaming) (b : Body) : Body := ⟨b.function, b.signature.rename σ⟩

@[simp] theorem Body.rename_refl (b : Body) : b.rename (Equiv.refl Nat) = b := by
  rw [rename, Signature.rename_refl]

theorem Scopes.closed_rename (σ : Renaming) (s : Scopes) :
    s.closed.rename σ = (s.rename σ).closed := rfl

theorem Reissue.KnownScopes.closed {s : Scopes} (h : v.KnownScopes s) : v.KnownScopes s.closed := by
  obtain ⟨hinner, hglobal⟩ := forall_mem_append.1 h
  exact forall_mem_append.2 ⟨hinner, forall_mem_singleton.2 (forall_mem_singleton.1 hglobal)⟩

/-- Two outcomes report the same and find the same, up to identities. -/
structure Progress.BodyOutcome.Matches (σ : Renaming) (o o' : BodyOutcome) : Prop where
  found : o'.found = o.found
  facts : Fact.SameFindings σ o.facts o'.facts

/-! ### Variables -/

theorem variableScopes_follows (h : env.Reissued v env') (entry : Entry VarDecl) :
    Inference.Follows v (Scopes.rename v.ids) v.KnownScopes (variableScopes env entry)
      (variableScopes env' entry) := by
  cases entry with
  | proper d => exact Inference.declare_follows h d
  | foreign f => exact .complain

/-- **A variable with which nothing is wrong comes to the same.** -/
theorem variableOutcome_follows (h : env.Reissued v env') {entry : Entry VarDecl} {scopes : Scopes}
    {o : BodyOutcome}
    (ho : variableOutcome env entry = .ok (scopes, o)) (hclean : NoErrors o.found) :
    ∃ o', variableOutcome env' entry = .ok (scopes.rename v.ids, o') ∧ v.KnownScopes scopes ∧
      o.Matches v.ids o' := by
  obtain ⟨hresult, rfl⟩ := Progress.variableOutcome_clean ho hclean
  obtain ⟨hresult', hscopes, hfacts⟩ := (variableScopes_follows h entry).concludes _ hresult
  refine ⟨⟨(variableScopes env' entry).facts, []⟩, ?_, hscopes, rfl, hfacts⟩
  rw [variableOutcome, hresult']

/-- **Variables with which nothing is wrong come to the same one after the other.** -/
theorem variableOutcomes_follows {vars : List (Entry VarDecl)} {last : Scopes}
    {outcomes : List BodyOutcome}
    {env env' : Env} (h : env.Reissued v env')
    (houtcomes : variableOutcomes env vars = .ok (last, outcomes))
    (hclean : NoErrors (foundIn outcomes)) :
    ∃ outcomes', variableOutcomes env' vars = .ok (last.rename v.ids, outcomes') ∧
      v.KnownScopes last ∧ List.Forall₂ (BodyOutcome.Matches v.ids) outcomes outcomes' := by
  induction vars generalizing env env' outcomes with
  | nil =>
    cases houtcomes
    rw [variableOutcomes, h.scopes]
    exact ⟨[], rfl, h.knownScopes, .nil⟩
  | cons entry rest ih =>
    obtain ⟨scopes, o, others, ho, hothers, rfl⟩ := Progress.variableOutcomes_cons.1 houtcomes
    rw [foundIn_cons] at hclean
    obtain ⟨hfirst, hrest⟩ := forall_mem_append.1 hclean
    obtain ⟨o', ho', hscopes, hmatches⟩ := variableOutcome_follows h ho hfirst
    obtain ⟨others', hothers', hlast, hall⟩ := ih (h.withScopes hscopes) hothers hrest
    exact ⟨o' :: others', Progress.variableOutcomes_cons.2 ⟨_, o', others', ho', hothers', rfl⟩,
      hlast, .cons hmatches hall⟩

/-! ### Bodies -/

theorem bodyFlow_rename (σ : Renaming) (warn : Bool) (f : FunctionDef) (signature : Signature) :
    f.bodyFlow warn (signature.rename σ) = f.bodyFlow warn signature := by
  have hresult : (signature.rename σ).result = signature.result.map (Ty.rename σ) := rfl
  unfold FunctionDef.bodyFlow
  dsimp only
  rw [hresult, Signature.qualifiedName_rename]
  rcases signature.result with _ | t
  · rfl
  · rcases (Reach.ofSequence warn f.body).result.map Flow.ofExits with fault | flow
    · rfl
    · cases flow with
      | fallsThrough =>
        dsimp only [Option.map_some]
        rw [Ty.name_rename]
      | _ => rfl

/-- The flow of a body depends on the names in its signature alone. -/
theorem flowOutcome_agrees (σ : Renaming) (warn : Bool) (b : Body) {facts facts' : List Fact}
    (hfacts : Fact.SameFindings σ facts facts') :
    Except.Agree (BodyOutcome.Matches σ) (flowOutcome warn b facts)
      (flowOutcome warn (b.rename σ) facts') := by
  have hflow : (b.rename σ).function.bodyFlow warn (b.rename σ).signature = b.function.bodyFlow warn
      b.signature :=
    bodyFlow_rename σ warn b.function b.signature
  unfold flowOutcome
  dsimp only
  rw [hflow]
  rcases (b.function.bodyFlow warn b.signature).flow with f | flow
  · exact .error _
  · rcases (b.function.bodyFlow warn b.signature).complaint with _ | d
    · exact .ok ⟨rfl, hfacts.note _ _⟩
    · exact .ok ⟨rfl, (hfacts.note _ _).note _ _⟩

/-- A body whose statements are right is so anew, and its flow decides. -/
theorem checkBody_of_ok (h : env.Reissued v env') (warn : Bool) {b : Body}
    (hb : v.KnownSignature b.signature)
    (hresult : (Inference.function env b.function b.signature).result = .ok ()) :
    Except.Agree (BodyOutcome.Matches v.ids) (checkBody env warn b)
      (checkBody env' warn (b.rename v.ids)) := by
  obtain ⟨hresult', -, hfacts⟩ := (Inference.function_follows h b.function hb).concludes _ hresult
  unfold checkBody
  dsimp only [Body.rename]
  rw [hresult, hresult']
  exact flowOutcome_agrees v.ids warn b hfacts

/-- **Where nothing is added a body comes to the same, or fails in the same way.** -/
theorem checkBody_agrees (h : env.Reissued v env') (hv : v.Exact) (warn : Bool) {b : Body}
    (hb : v.KnownSignature b.signature) :
    Except.Agree (BodyOutcome.Matches v.ids) (checkBody env warn b)
      (checkBody env' warn (b.rename v.ids)) := by
  rcases hresult : (Inference.function env b.function b.signature).result with f | _
  · obtain ⟨hresult', hfacts⟩ := (Inference.function_follows h b.function hb).fails hv f hresult
    unfold checkBody
    dsimp only [Body.rename]
    rw [hresult, hresult']
    cases f with
    | found d => exact .ok ⟨rfl, hfacts.note _ _⟩
    | fault fault => exact .error _
  · exact checkBody_of_ok h warn hb hresult

/-- **Bodies with which nothing is wrong come to the same.** -/
theorem bodies_follow (h : env.Reissued v env') {warn : Bool} {bs : List Body}
    (hbs : ∀ b ∈ bs, v.KnownSignature b.signature)
    {outcomes : List BodyOutcome} (houtcomes : bs.mapM (checkBody env warn) = .ok outcomes)
    (hclean : NoErrors (foundIn outcomes)) :
    ∃ outcomes', (bs.map (Body.rename v.ids)).mapM (checkBody env' warn) = .ok outcomes' ∧
      List.Forall₂ (BodyOutcome.Matches v.ids) outcomes outcomes' := by
  induction bs generalizing outcomes with
  | nil =>
    cases houtcomes
    exact ⟨[], rfl, .nil⟩
  | cons b rest ih =>
    obtain ⟨hb, hrest⟩ := forall_mem_cons.1 hbs
    obtain ⟨o, others, ho, hothers, rfl⟩ := Progress.mapM_cons_eq_ok.1 houtcomes
    rw [foundIn_cons] at hclean
    obtain ⟨hfirst, hothersClean⟩ := forall_mem_append.1 hclean
    have hright := (Progress.checkBody_clean ho hfirst).1
    obtain ⟨o', ho', hmatches⟩ := (checkBody_of_ok h warn hb hright).exists_ok ho
    obtain ⟨others', hothers', hall⟩ := ih hrest hothers hothersClean
    exact ⟨o' :: others', Progress.mapM_cons_eq_ok.2 ⟨o', others', ho', hothers', rfl⟩,
      .cons hmatches hall⟩

section Matching

variable {σ : Renaming} {outcomes outcomes' : List BodyOutcome}

theorem foundIn_matches (h : List.Forall₂ (BodyOutcome.Matches σ) outcomes outcomes') :
    foundIn outcomes' = foundIn outcomes := by
  induction h with
  | nil => rfl
  | cons hmatches _ ih => rw [foundIn_cons, foundIn_cons, hmatches.found, ih]

theorem factsIn_matches (h : List.Forall₂ (BodyOutcome.Matches σ) outcomes outcomes') :
    Fact.SameFindings σ (factsIn outcomes) (factsIn outcomes') := by
  induction h with
  | nil => rfl
  | cons hmatches _ ih =>
    rw [factsIn_cons, factsIn_cons]
    exact hmatches.facts.append ih

end Matching

/-! ### Signatures -/

namespace Signatures

variable {σ : Renaming} {r r' : Registry}

theorem paramTypes_cons (r : Registry) (p : Param) (rest : List Param) :
    paramTypes r (p :: rest) =
      r.typeOf p.typeExpr >>= fun t => paramTypes r rest >>= fun types =>
        .ok ((p.name, t) :: types) := by
  rw [paramTypes, mapM_cons]
  rcases r.typeOf p.typeExpr with f | t <;> rfl

theorem paramTypes_rename (h : ∀ name, r'.lookup? name = (r.lookup? name).map (Ty.rename σ))
    (params : List Param) :
    paramTypes r' params = (paramTypes r params).map (List.map fun p => (p.1, p.2.rename σ)) := by
  induction params with
  | nil => rfl
  | cons p rest ih =>
    rw [paramTypes_cons, paramTypes_cons, ih, Registry.typeOf_rename h]
    rcases r.typeOf p.typeExpr with f | t
    · rfl
    · rcases paramTypes r rest with f | types <;> rfl

theorem signatureOf_rename (h : ∀ name, r'.lookup? name = (r.lookup? name).map (Ty.rename σ))
    (f : FunctionDef) : signatureOf r' f = (signatureOf r f).map (Signature.rename σ) := by
  rw [signatureOf, signatureOf, paramTypes_rename h, Registry.typeOf?_rename h,
    Registry.typeOf?_rename h]
  rcases paramTypes r f.params with e | params
  · rfl
  · rcases r.typeOf? f.returnType with e | result
    · rfl
    · rcases r.typeOf? (f.receiver.map Param.typeExpr) with e | receiver <;> rfl

theorem signatureOf_known (hnamed : ∀ name t, r.lookup? name = some t → v.Known t) {f : FunctionDef}
    {signature : Signature} (h : signatureOf r f = .ok signature) : v.KnownSignature signature := by
  obtain ⟨params, hparams, h⟩ := bind_eq_ok.1 h
  obtain ⟨result, hresult, h⟩ := bind_eq_ok.1 h
  obtain ⟨receiver, hreceiver, h⟩ := bind_eq_ok.1 h
  cases h
  refine ⟨fun p hp => ?_, Registry.typeOf?_known hnamed hresult,
    Registry.typeOf?_known hnamed hreceiver⟩
  obtain ⟨param, -, hparam⟩ := mapM_mem hparams p hp
  obtain ⟨t, ht, heq⟩ := bind_eq_ok.1 hparam
  cases heq
  exact Registry.typeOf_known hnamed _ ht

end Signatures

end TreeTyping
