/-
A check comes to an end.

Whatever a document says, the module that is loaded from it is checked to the end, and what is wrong
with it is reported.  There are two exceptions.  Registration fails when an alias that links leads
to one that does not, and the check ends in a fault when a default or a size is asked for that is
never found, since an alias holds itself.

The argument goes along the passes of a check.  Each starts in a state that the one before leaves:
the registry accepts methods until the last signature is there, the global scope accepts variables
until the last one is there, and bodies have scopes of their own.  A diagnostic that is found on the
way ends the declaration it is found in, and the pass goes on.
-/
import Mathlib.Tactic
import TreeTyping.Proofs.Check.Outcomes
import TreeTyping.Proofs.Flow.Exactness
import TreeTyping.Proofs.Tree.Loading
import TreeTyping.Proofs.Typing.Safety

namespace TreeTyping

open List

variable {allowed : Fault → Prop}

/-! ### Signatures -/

namespace Signatures

/-- Methods can still be declared and have function types; the bodies to be checked are intact. -/
structure Fit (s : Signatures) : Prop where
  unfrozen : s.registry.frozen = false
  methods : s.registry.Callable
  bodies : ∀ b ∈ s.bodies, b.function.Intact

theorem paramTypes_safe (r : Registry) {params : List Param} (h : ∀ p ∈ params, p.isIntact = true) :
    Safe allowed (paramTypes r params) fun _ => True := by
  induction params with
  | nil => trivial
  | cons p rest ih =>
    obtain ⟨hp, hrest⟩ := forall_mem_cons.1 h
    rw [paramTypes, mapM_cons]
    exact .skip (.skip (r.typeOf_safe _ hp) fun _ => trivial) fun _ =>
      .skip (ih hrest) fun _ => trivial

theorem signatureOf_safe (r : Registry) {f : FunctionDef} (h : f.Intact) :
    Safe allowed (signatureOf r f) fun _ => True := by
  refine .skip (paramTypes_safe r h.params) fun _ => .skip (r.typeOf?_safe h.returnType) fun _ =>
    .skip (r.typeOf?_safe fun e he => ?_) fun _ => trivial
  obtain ⟨p, hp, rfl⟩ := Option.map_eq_some_iff.1 he
  exact h.receiver p hp

theorem add_safe {s : Signatures} (hs : s.Fit) (signature : Signature) :
    Safe allowed (s.add signature) Fit := by
  unfold add
  split
  · exact .bind (Registry.addMethod_safe hs.methods hs.unfrozen _ signature) fun r hr =>
      ⟨hr.2, hr.1, hs.bodies⟩
  · split
    · exact .complain
    · exact ⟨hs.unfrozen, hs.methods, hs.bodies⟩

theorem register_safe {s : Signatures} (hs : s.Fit) {f : FunctionDef} (h : f.Intact) :
    Safe allowed (s.register f) Fit := by
  refine .skip (signatureOf_safe _ h) fun signature =>
    .bind (add_safe hs signature) fun s' hs' => ?_
  refine ⟨hs'.unfrozen, hs'.methods, fun b hb => ?_⟩
  rcases mem_append.1 hb with hb | hb
  · exact hs'.bodies b hb
  · obtain rfl := mem_singleton.1 hb
    exact h

/-- **The functions of a module are registered or reported, and nothing else happens.** -/
theorem run_total {r : Registry} (hr : r.Callable) (hopen : r.frozen = false)
    {functions : List (Entry FunctionDef)}
    (h : ∀ entry ∈ functions, ∃ f, entry = .proper f ∧ f.Intact) :
    ∃ s, run r functions = .ok s ∧ s.Fit := by
  refine Except.foldlM_total (P := fun _ (s : Signatures) => s.Fit)
    (fun done entry rest s hsplit hs => ?_) ⟨hopen, hr, forall_mem_nil _⟩
  obtain ⟨f, rfl, hf⟩ := h entry (hsplit ▸ mem_append_right _ mem_cons_self)
  have hsafe : Safe (fun _ => False) (s.register f) Fit := register_safe hs hf
  rw [step]
  split
  · next s' hs' => exact ⟨s', rfl, hsafe.of_ok hs'⟩
  · exact ⟨_, rfl, hs.unfrozen, hs.methods, hs.bodies⟩
  · next e hnot herror =>
      have hfault := hsafe.not_fault herror
      cases e with
      | found d => exact absurd rfl (hnot _ _)
      | fault => cases hfault

end Signatures

/-! ### Passes -/

/-- A computation comes to an end, unless an alias holds itself. -/
def Finishes {α : Type} (r : Registry) (x : Except Failure α) (P : α → Prop) : Prop :=
  (∃ a, x = .ok a ∧ P a) ∨ x = .error (.fault .endless) ∧ ∃ n, r.HoldsItself n

namespace Finishes

variable {α β : Type} {r : Registry}

theorem bind {x : Except Failure α} {f : α → Except Failure β} {P : α → Prop} {Q : β → Prop}
    (hx : Finishes r x P) (hf : ∀ a, P a → Finishes r (f a) Q) : Finishes r (x >>= f) Q := by
  rcases hx with ⟨a, rfl, ha⟩ | ⟨rfl, hn⟩
  · exact hf a ha
  · exact .inr ⟨rfl, hn⟩

/-- A failure that is no diagnostic is left, and is due to an alias that holds itself. -/
theorem of_fault {x : Except Failure α} {P : α → Prop} (h : Safe r.Unending x P) {f : Failure}
    (hf : x = .error f)
    (hfault : ∀ d hd, f = .found d (h := hd) → False) {Q : β → Prop} : Finishes r (.error f) Q := by
  subst hf
  cases f with
  | found d => exact absurd rfl (hfault d _)
  | fault f =>
    obtain ⟨rfl, hn⟩ := h
    exact .inr ⟨rfl, hn⟩

/-- Several computations, of which each comes to an end. -/
theorem mapM {f : α → Except Failure β} {xs : List α}
    (h : ∀ x ∈ xs, Finishes r (f x) fun _ => True) : Finishes r (xs.mapM f) fun _ => True := by
  induction xs with
  | nil => exact .inl ⟨[], rfl, trivial⟩
  | cons x rest ih =>
    obtain ⟨hx, hrest⟩ := forall_mem_cons.1 h
    rw [mapM_cons]
    exact hx.bind fun y _ => (ih hrest).bind fun ys _ => .inl ⟨_, rfl, trivial⟩

end Finishes

namespace Progress

/-- Variables can still be declared, and types are as the registry has them. -/
structure Ready (r : Registry) (p : Progress) : Prop where
  registry : p.env.registry = r
  sound : p.env.Sound
  unfrozen : p.env.scopes.current.frozen = false

theorem takeVariable_finishes {r : Registry} {p : Progress} (hp : p.Ready r) {d : VarDecl}
    (hd : d.Intact) : Finishes r (p.takeVariable (.proper d)) (Ready r) := by
  have hsafe := (Inference.declare_safe hp.sound hd hp.unfrozen).result
  rw [hp.registry] at hsafe
  unfold takeVariable
  dsimp only
  split
  · next scopes hscopes =>
      refine .inl ⟨_, rfl, hp.registry, hp.sound.withScopes scopes, ?_⟩
      exact (Inference.declare_grows hscopes).frozen.trans hp.unfrozen
  · exact .inl ⟨_, rfl, hp.registry, hp.sound, hp.unfrozen⟩
  · next f hfault herror => exact .of_fault hsafe herror hfault

theorem takeVariables_finishes {r : Registry} {vars : List (Entry VarDecl)}
    (h : ∀ entry ∈ vars, ∃ d, entry = .proper d ∧ d.Intact) {p : Progress} (hp : p.Ready r) :
    Finishes r (takeVariables vars p) (Ready r) := by
  induction vars generalizing p with
  | nil => exact .inl ⟨p, rfl, hp⟩
  | cons entry rest ih =>
    obtain ⟨⟨d, rfl, hd⟩, hrest⟩ := forall_mem_cons.1 h
    rw [takeVariables]
    split
    · exact .inl ⟨_, rfl, hp.registry, hp.sound, hp.unfrozen⟩
    · exact (takeVariable_finishes hp hd).bind fun p' hp' => ih hrest hp'

theorem flowOutcome_finishes {r : Registry} {warn : Bool} {b : Body} (h : b.function.Intact)
    (facts : List Fact) : Finishes r (flowOutcome warn b facts) fun _ => True := by
  obtain ⟨exits, hexits⟩ := Reach.ofSequence_answers h.body.allProper
  have hflow : (b.function.bodyFlow warn b.signature).flow = .ok (.ofExits exits) := by
    show (Reach.ofSequence warn b.function.body).result.map Flow.ofExits = _
    rw [hexits]
    rfl
  unfold flowOutcome
  dsimp only
  rw [hflow]
  dsimp only
  split
  · exact .inl ⟨_, rfl, trivial⟩
  · exact .inl ⟨_, rfl, trivial⟩

theorem checkBody_finishes {env : Env} (henv : env.Sound) {warn : Bool} {b : Body}
    (h : b.function.Intact) : Finishes env.registry (checkBody env warn b) fun _ => True := by
  have hsafe : Safe env.registry.Unending (Inference.function env b.function b.signature).result
      fun _ => True :=
    (Inference.function_safe henv h).result
  unfold checkBody
  dsimp only
  split
  · exact flowOutcome_finishes h _
  · exact .inl ⟨_, rfl, trivial⟩
  · next f hfault herror => exact .of_fault hsafe herror hfault

theorem bodiesInTurn_finishes {warn : Bool} {bs : List Body} (h : ∀ b ∈ bs, b.function.Intact)
    {p : Progress} {r : Registry} (hr : p.env.registry = r) (hp : p.env.Sound) :
    Finishes r (bodiesInTurn warn bs p) fun _ => True := by
  induction bs generalizing p with
  | nil => exact .inl ⟨p, rfl, trivial⟩
  | cons b rest ih =>
    obtain ⟨hb, hrest⟩ := forall_mem_cons.1 h
    rw [bodiesInTurn]
    refine .bind (hr ▸ checkBody_finishes hp hb) fun o _ => ?_
    split
    · exact .inl ⟨_, rfl, trivial⟩
    · exact ih hrest hr hp

/-- **Intact bodies are checked to the end, unless an alias holds itself.** -/
theorem bodies_finishes {s : Settings} {bs : List Body} (h : ∀ b ∈ bs, b.function.Intact)
    {p : Progress} (hp : p.env.Sound) : Finishes p.env.registry (bodies s bs p) fun _ => True := by
  unfold bodies
  split
  · exact (Finishes.mapM fun b hb => checkBody_finishes hp (h b hb)).bind fun outcomes _ =>
      .inl ⟨_, rfl, trivial⟩
  · exact bodiesInTurn_finishes h rfl hp

end Progress

/-! ### Checks -/

namespace Module

variable {m : Module} {s : Settings}

/-- Where the types of an intact module are registered, so are its functions. -/
theorem declarations_ready (h : m.Intact) {bits : Int} (hbits : s.wordBits = .int bits)
    {types : Registration} (htypes : Registration.run {} m.types = .ok types) :
    ∃ p bs, m.declarations s = .ok (p, bs) ∧ p.Ready p.env.registry ∧
      ∀ b ∈ bs, b.function.Intact := by
  obtain ⟨hmethods, hopen⟩ := Registration.run_callable h.introduced htypes
  obtain ⟨signatures, hsignatures, hfit⟩ := Signatures.run_total hmethods hopen h.functions
  have hdecls : ∃ p, m.declarations s = .ok (p, signatures.bodies) ∧
      p.env = { registry := signatures.registry.freeze, wordBits := s.wordBits,
                functions := signatures.functions, scopes := {} } := by
    rw [declarations, htypes]
    show ∃ p, (Signatures.run types.registry m.functions >>= _) = _ ∧ _
    rw [hsignatures]
    exact ⟨_, rfl, rfl⟩
  obtain ⟨p, hp, henv⟩ := hdecls
  refine ⟨p, signatures.bodies, hp, ⟨rfl, ?_, ?_⟩, hfit.bodies⟩
  · rw [henv]
    exact ⟨⟨hfit.methods.required, hfit.methods.methods⟩, bits, hbits⟩
  · rw [henv]
    rfl

/-- Once declared, an intact module is checked to the end, unless an alias holds itself. -/
theorem check_finishes (h : m.Intact) {p : Progress} {bs : List Body}
    (hdecls : m.declarations s = .ok (p, bs))
    (hp : p.Ready p.env.registry) (hbs : ∀ b ∈ bs, b.function.Intact) :
    Finishes p.env.registry (m.check s) fun _ => True := by
  rw [check, hdecls]
  refine (Progress.takeVariables_finishes h.vars hp).bind fun p' hp' => ?_
  have hbodies := Progress.bodies_finishes (s := s) (p := p'.close) hbs
    ⟨hp'.sound.methods, hp'.sound.bits⟩
  have hregistry : p'.close.env.registry = p.env.registry := hp'.registry
  rw [hregistry] at hbodies
  exact hbodies.bind fun _ _ => .inl ⟨_, rfl, trivial⟩

/--
**The module of a document is checked to the end, with two exceptions.**

Let the tree be loaded from a document, or from the text of one, and the word size be a whole
number.  Then the check comes to a result, whatever is wrong with the module.  Or registration fails
at an alias that links and leads to one that does not.  Or the check ends in a fault since some
alias holds itself, through arrays of fixed length and aliases alone, and has no default or size.
-/
theorem check_loaded {t : Tree}
    (hload : (∃ doc, Tree.ofDocument doc = .ok t) ∨ ∃ text, Tree.ofText text = .ok t)
    {bits : Int} (hbits : s.wordBits = .int bits) (place : Place) :
    ∃ m, ofTree? place t = some m ∧
      ((∃ c, m.check s = .ok c) ∨
        (∃ d ∈ Registration.introduced m.types, ∃ n,
          Registration.links (Registration.introduced m.types) d = true ∧
          (Registration.linkedScope (Registration.introduced m.types)).Strands d.type n ∧
          m.check s = .error (.of (.unknownType n.name) d.decl.span)) ∨
        ∃ p bs n, m.declarations s = .ok (p, bs) ∧ p.env.registry.HoldsItself n ∧
          m.check s = .error (.fault .endless)) := by
  obtain ⟨hwell, hroot⟩ := Tree.loaded_wellFormed hload
  obtain ⟨m, hm, hintact⟩ := intact_ofTree? hwell hroot place
  refine ⟨m, hm, ?_⟩
  rcases Registration.run_cases hintact.introduced with ⟨types, htypes, -⟩ |
      ⟨before, d, after, n, hsplit, -, hlinks, hn, hfails⟩
  · obtain ⟨p, bs, hdecls, hready, hbs⟩ := declarations_ready (s := s) hintact hbits htypes
    rcases check_finishes hintact hdecls hready hbs with ⟨c, hc, -⟩ | ⟨hfault, n, hn⟩
    · exact .inl ⟨c, hc⟩
    · exact .inr (.inr ⟨p, bs, n, hdecls, hn, hfault⟩)
  · have hd : d ∈ Registration.introduced m.types := by
      rw [hsplit]
      simp
    refine .inr (.inl ⟨d, hd, n, hlinks, hn, ?_⟩)
    rw [check, declarations, hfails]
    rfl

/-- A document of a module with a type `R` of pairs of `R`, and a variable of that type. -/
def pairsDocument : Json :=
  let on (column : Int) : String × Json := ("span", .arr [.int 1, .int column])
  let type (column : Int) : Json :=
    .obj [("node", .str "SimpleType"), on column, ("name", .str "R")]
  let pairs : Json := .obj [("node", .str "GenericType"), on 10, ("name", .str "array"),
    ("type_args", .arr [type 16]), ("length", .int 2)]
  .obj [("module", .obj [("node", .str "Module"), on 1, ("name", .str "m"),
    ("types", .arr [.obj [("node", .str "TypeAliasDecl"), on 1, ("name", .str "R"),
      ("underlying", pairs)]]),
    ("variables", .arr [.obj
      [("node", .str "VarDecl"), on 20, ("name", .str "x"), ("type_annotation", type 23)]])])]

/-- The check of that module ends in a fault, and so one of its aliases holds itself. -/
theorem check_loaded_pairs : ∃ t m, Tree.ofDocument pairsDocument = .ok t ∧ ofTree? (.root 0)
    t = some m ∧ m.check {} = .error (.fault .endless) ∧
    ∃ p bs n, m.declarations {} = .ok (p, bs) ∧ p.env.registry.HoldsItself n := by
  have hrun : ((Tree.ofDocument pairsDocument).toOption.bind (ofTree? (.root 0))).map (check {}) =
      some (.error (.fault .endless)) := by cbv
  obtain ⟨m, hread, hcheck⟩ := Option.map_eq_some_iff.1 hrun
  obtain ⟨t, hload, hm⟩ := Option.bind_eq_some_iff.1 hread
  have hload := Except.toOption_eq_some.1 hload
  refine ⟨t, m, hload, hm, hcheck, ?_⟩
  obtain ⟨m', hm', hends⟩ := check_loaded (s := {}) (.inl ⟨_, hload⟩) rfl (.root 0)
  obtain rfl := Option.some.inj (hm'.symm.trans hm)
  rcases hends with ⟨c, hc⟩ | ⟨d, -, n, -, -, hd⟩ | ⟨p, bs, n, hdecls, hn, -⟩
  · cases hcheck.symm.trans hc
  · cases hcheck.symm.trans hd
  · exact ⟨p, bs, n, hdecls, hn⟩

end Module

end TreeTyping
