/-
What the registration of functions leaves.

Where no error is reported, every entry of a module's functions is a function whose signature is the
one its annotations denote, and the table of functions has those without a receiver and no others.
Types are not touched: declaring a method changes neither the name of a type nor what it stands for,
so an annotation denotes the same type before and after.
-/
import TreeTyping.Check.Signatures
import TreeTyping.Proofs.Except
import TreeTyping.Proofs.Inference
import TreeTyping.Proofs.Registry.Resolve

namespace TreeTyping

open List TreeTyping.Except

namespace Registry

theorem addMethod_bindings {r r' : Registry} {receiver signature : Ty} {name : String} {span : Span}
    (h : r.addMethod receiver name signature span = .ok r') : r'.bindings = r.bindings := by
  unfold addMethod at h
  obtain ⟨_, -, hchecks⟩ := bind_eq_ok.1 h
  split at hchecks
  case h_3 => cases hchecks
  all_goals
    dsimp only at hchecks
    split at hchecks
    · cases hchecks
    obtain ⟨members, -, hfree⟩ := bind_eq_ok.1 hchecks
    split at hfree
    · cases hfree
    split at hfree
    · cases hfree
    · cases hfree
      rfl

end Registry

/-- Nothing that was found is an error. -/
def NoErrors (found : List Diagnostic) : Prop := ∀ d ∈ found, d.isError = false

namespace Signatures

variable {s s' : Signatures} {r : Registry}

theorem signatureOf_congr {r r' : Registry} (h : r'.bindings = r.bindings) (f : FunctionDef) :
    signatureOf r' f = signatureOf r f := by
  simp only [signatureOf, paramTypes, Registry.typeOf_congr h, Registry.typeOf?_congr h]

theorem signatureOf_shape {f : FunctionDef} {signature : Signature}
    (h : signatureOf r f = .ok signature) :
    signature.name = f.name ∧ signature.params.length = f.params.length ∧
      signature.receiver.isSome = f.receiver.isSome := by
  unfold signatureOf at h
  obtain ⟨params, hparams, h⟩ := bind_eq_ok.1 h
  obtain ⟨result, -, h⟩ := bind_eq_ok.1 h
  obtain ⟨receiver, hreceiver, h⟩ := bind_eq_ok.1 h
  cases h
  refine ⟨rfl, (mapM_eq_ok.1 hparams).length_eq.symm, ?_⟩
  rcases hf : f.receiver with _ | p
  · rw [hf] at hreceiver
    cases hreceiver
    rfl
  · rw [hf] at hreceiver
    obtain ⟨t, -, rfl⟩ := map_eq_ok.1 hreceiver
    rfl

/-! ### Registering one function after the other -/

/-- The entries that have been dealt with are functions, and all of them are registered. -/
structure Registered (r : Registry) (done : List (Entry FunctionDef)) (s : Signatures) : Prop where
  types : s.registry.bindings = r.bindings
  entries : done = s.bodies.map fun b => .proper b.function
  signatures : ∀ b ∈ s.bodies, signatureOf r b.function = .ok b.signature
  functions : ∀ name signature, s.functions.find? name = some signature ↔
    ∃ b ∈ s.bodies, b.signature = signature ∧ signature.receiver = none ∧ signature.name = name
  untyped : Fact.recorded s.facts = []

theorem Registered.empty (r : Registry) : Registered r [] { registry := r } := by
  refine ⟨rfl, rfl, forall_mem_nil _, fun name signature => ?_, rfl⟩
  simp

theorem Registered.callable {done : List (Entry FunctionDef)} {s : Signatures}
    (h : Registered r done s) (name : String) (signature : Signature) :
    s.functions.find? name = some signature ↔ ∃ f, .proper f ∈ done ∧
      signatureOf r f = .ok signature ∧ f.receiver = none ∧ f.name = name := by
  rw [h.functions, h.entries]
  constructor
  · rintro ⟨b, hb, rfl, hreceiver, rfl⟩
    obtain ⟨hname, -, hsome⟩ := signatureOf_shape (h.signatures b hb)
    rw [hreceiver] at hsome
    have hnone := Option.isNone_iff_eq_none.1 (Option.isSome_eq_false_iff.1 hsome.symm)
    exact ⟨b.function, mem_map_of_mem hb, h.signatures b hb, hnone, hname.symm⟩
  · rintro ⟨f, hf, hsignature, hreceiver, rfl⟩
    obtain ⟨b, hb, heq⟩ := mem_map.1 hf
    cases heq
    obtain rfl := Except.ok.inj ((h.signatures b hb).symm.trans hsignature)
    obtain ⟨hname, -, hsome⟩ := signatureOf_shape hsignature
    rw [hreceiver] at hsome
    exact ⟨b, hb, rfl, Option.isNone_iff_eq_none.1 (Option.isSome_eq_false_iff.1 hsome), hname⟩

/-- Adding a signature changes the table of functions, or the methods of a type. -/
theorem add_eq_ok {signature : Signature} (h : s.add signature = .ok s') :
    s'.registry.bindings = s.registry.bindings ∧ s'.bodies = s.bodies ∧ s'.found = s.found ∧
    Fact.recorded s'.facts = Fact.recorded s.facts ∧
    (signature.receiver.isSome = true ∧ s'.functions = s.functions ∨
      signature.receiver = none ∧ s.functions.find? signature.name = none ∧
        s'.functions = s.functions.insert signature.name signature) := by
  unfold add at h
  split at h
  · next receiver hr =>
      obtain ⟨registry, hregistry, h⟩ := bind_eq_ok.1 h
      cases h
      refine ⟨Registry.addMethod_bindings hregistry, rfl, rfl, ?_, .inl ⟨by rw [hr]; rfl, rfl⟩⟩
      rw [Fact.recorded_append]
      exact append_nil _
  · next hr =>
      split at h
      · cases h
      · next hfree =>
          cases h
          exact ⟨rfl, rfl, rfl, rfl, .inr ⟨hr, hfree, rfl⟩⟩

theorem register_eq_ok {f : FunctionDef} (h : s.register f = .ok s') :
    s'.found = s.found ∧ ∃ signature added, signatureOf s.registry f = .ok signature ∧
      s.add signature = .ok added ∧ s' = { added with
        bodies := added.bodies ++ [⟨f, signature⟩]
        facts := added.facts ++ [.noted (.functionRegistered signature.describe)] } := by
  unfold register at h
  obtain ⟨signature, hsignature, h⟩ := bind_eq_ok.1 h
  obtain ⟨added, hadd, h⟩ := bind_eq_ok.1 h
  cases h
  exact ⟨(add_eq_ok hadd).2.2.1, signature, added, hsignature, hadd, rfl⟩

/-- A step registers a function, or it reports one error and leaves the rest as it is. -/
theorem step_cases {entry : Entry FunctionDef} (h : s.step entry = .ok s') :
    (∃ f, entry = .proper f ∧ s.register f = .ok s') ∨
      ∃ d, d.isError = true ∧ s' = { s with found := s.found ++ [d] } := by
  unfold step at h
  split at h
  · exact .inr ⟨_, rfl, (Except.ok.inj h).symm⟩
  · next f =>
      split at h
      · next hregister => exact .inl ⟨f, rfl, hregister.trans h⟩
      · next d hd _ => exact .inr ⟨d, hd, (Except.ok.inj h).symm⟩
      · cases h

theorem Registered.register {done : List (Entry FunctionDef)}
    {f : FunctionDef} (h : Registered r done s) (hs : s.register f = .ok s') :
    Registered r (done ++ [.proper f]) s' := by
  obtain ⟨-, signature, added, hsignature, hadd, rfl⟩ := register_eq_ok hs
  rw [signatureOf_congr h.types] at hsignature
  obtain ⟨htypes, hbodies, -, hfacts, hfunctions⟩ := add_eq_ok hadd
  refine ⟨htypes.trans h.types, ?_, ?_, ?_, ?_⟩
  · rw [hbodies, h.entries, map_append]
    rfl
  · intro b hb
    rw [hbodies] at hb
    rcases mem_append.1 hb with hb | hb
    · exact h.signatures b hb
    · cases mem_singleton.1 hb
      exact hsignature
  · intro name found
    simp only [hbodies, mem_append, mem_singleton, or_and_right, exists_or, exists_eq_left,
      ← h.functions name found]
    rcases hfunctions with ⟨hmethod, hfunctions⟩ | ⟨hplain, hfree, hfunctions⟩
    · -- a method is not found in the table of functions
      rw [hfunctions, or_iff_left]
      rintro ⟨rfl, hnone, -⟩
      rw [hnone] at hmethod
      cases hmethod
    · rw [hfunctions]
      by_cases hname : name = signature.name
      · subst hname
        rw [Keyed.find?_insert_self, hfree]
        simp only [Option.some.injEq, reduceCtorEq, false_or]
        exact ⟨fun heq => ⟨heq, heq ▸ hplain, heq ▸ rfl⟩, fun heq => heq.1⟩
      · rw [Keyed.find?_insert_ne hname, or_iff_left]
        rintro ⟨rfl, -, heq⟩
        exact hname heq.symm
  · show Fact.recorded (added.facts ++ _) = []
    rw [Fact.recorded_append, hfacts, h.untyped]
    rfl

theorem step_registered {done : List (Entry FunctionDef)}
    {entry : Entry FunctionDef} (h : NoErrors s.found → Registered r done s)
    (hs : s.step entry = .ok s') :
    NoErrors s'.found → Registered r (done ++ [entry]) s' := by
  intro hclean
  obtain ⟨f, rfl, hregister⟩ | ⟨d, hd, rfl⟩ := step_cases hs
  · rw [(register_eq_ok hregister).1] at hclean
    exact (h hclean).register hregister
  · rw [hclean d (mem_append_right _ (mem_singleton_self _))] at hd
    cases hd

/-- **Where no error is reported, every entry is a function, registered with its signature.** -/
theorem run_registered {functions : List (Entry FunctionDef)} {s : Signatures}
    (h : run r functions = .ok s) (hclean : NoErrors s.found) : Registered r functions s :=
  foldlM_invariant (P := fun done s => NoErrors s.found → Registered r done s)
    (fun _ _ _ _ _ _ h hs => step_registered h hs) (fun _ => .empty r) h hclean

/-- Names denote what they did before, and signatures are those that the annotations denote. -/
structure Resolved (r : Registry) (s : Signatures) : Prop where
  types : s.registry.bindings = r.bindings
  signatures : ∀ b ∈ s.bodies, signatureOf r b.function = .ok b.signature

theorem step_resolved {entry : Entry FunctionDef} (h : Resolved r s) (hs : s.step entry = .ok s') :
    Resolved r s' := by
  obtain ⟨f, rfl, hregister⟩ | ⟨d, -, rfl⟩ := step_cases hs
  · obtain ⟨-, signature, added, hsignature, hadd, rfl⟩ := register_eq_ok hregister
    obtain ⟨htypes, hbodies, -⟩ := add_eq_ok hadd
    rw [signatureOf_congr h.types] at hsignature
    refine ⟨htypes.trans h.types, ?_⟩
    show ∀ b ∈ added.bodies ++ _, _
    rw [hbodies]
    exact forall_mem_append.2 ⟨h.signatures, forall_mem_singleton.2 hsignature⟩
  · exact ⟨h.types, h.signatures⟩

/-- Every function whose body is to be checked has the signature that its annotations denote. -/
theorem run_resolved {functions : List (Entry FunctionDef)} {s : Signatures}
    (h : run r functions = .ok s) : Resolved r s :=
  foldlM_invariant (P := fun _ s => Resolved r s) (fun _ _ _ _ _ _ h hs => step_resolved h hs)
    ⟨rfl, forall_mem_nil _⟩ h

end Signatures

end TreeTyping
