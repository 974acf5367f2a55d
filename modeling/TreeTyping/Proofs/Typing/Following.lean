/-
Inferences that follow each other.

When a registry is issued anew, an inference can be carried out with the new registry instead of the
old one.  `Follows` compares the two.  What the first concludes the second concludes too, up to the
names of identities, and it finds the same types and backings at the same nodes.  Where no method is
added the second also fails when the first does, with the same failure.  Where methods are added
nothing is said about a first inference that fails: the second may go further.

Questions about interfaces are not compared.  With more methods a type may satisfy an interface that
it did not satisfy before, and more is asked.  It never matters.  Where a value is stored or
converted, the new answer is one more reason to let it pass.  Where the elements of a literal look
for an interface they share, the interface that is found is one of the elements, and what an
interface satisfies does not depend on methods: an interface before it that all elements satisfy now
was one that they satisfied already.
-/
import TreeTyping.Proofs.Assignability
import TreeTyping.Proofs.Fact.Tables
import TreeTyping.Proofs.Typing.Remarks

namespace TreeTyping

open List

/-! ### Renaming what rules deal with -/

/-- What an expression yields, with the identities in it renamed. -/
def Yield.rename (σ : Renaming) : Yield → Yield
  | .value t => .value (t.rename σ)
  | .nothing procedure => .nothing procedure

/-- A symbol with the identities in its type renamed. -/
def Symbol.rename (σ : Renaming) (s : Symbol) : Symbol := { s with type := s.type.rename σ }

/-- A signature with the identities in it renamed. -/
def Signature.rename (σ : Renaming) (s : Signature) : Signature :=
  { s with
    params := s.params.map fun p => (p.1, p.2.rename σ)
    result := s.result.map (Ty.rename σ)
    receiver := s.receiver.map (Ty.rename σ) }

namespace Signature

variable (σ : Renaming) (s : Signature)

theorem type_rename : (s.rename σ).type = s.type.rename σ := by
  simp [type, rename, Function.comp_def]

theorem qualifiedName_rename : (s.rename σ).qualifiedName = s.qualifiedName := by
  rw [qualifiedName, qualifiedName, rename]
  rcases s.receiver with _ | t
  · rfl
  · dsimp only [Option.map_some]
    rw [Ty.name_rename]

@[simp] theorem rename_refl : s.rename (Equiv.refl Nat) = s := by
  have hsome (t : Option Ty) : t.map (Ty.rename (Equiv.refl Nat)) = t := by
    cases t <;> simp
  simp [rename, hsome]

end Signature

/-- A scope with the identities in it renamed. -/
def Scope.rename (σ : Renaming) (s : Scope) :
    Scope := { s with symbols := s.symbols.mapValues (Symbol.rename σ) }

/-- Scopes with the identities in them renamed. -/
def Scopes.rename (σ : Renaming) (s : Scopes) :
    Scopes := ⟨s.inner.map (Scope.rename σ), s.global.rename σ⟩

namespace Scopes

variable (σ : Renaming) (s : Scopes)

@[simp] theorem rename_refl : s.rename (Equiv.refl Nat) = s := by
  have hscope (scope : Scope) : scope.rename (Equiv.refl Nat) = scope := by
    rw [Scope.rename, Keyed.mapValues_id fun symbol => by simp [Symbol.rename]]
  rw [rename, hscope, map_id'' hscope]

theorem push_rename (name : String) : (s.rename σ).push name = (s.push name).rename σ := rfl

theorem chain_rename : (s.rename σ).chain = s.chain.map (Scope.rename σ) := by
  rw [chain, chain, map_append]
  rfl

theorem lookup?_rename (name : String) :
    (s.rename σ).lookup? name = (s.lookup? name).map (Symbol.rename σ) := by
  rw [lookup?, lookup?, chain_rename]
  induction s.chain with
  | nil => rfl
  | cons scope rest ih =>
    rw [map_cons, findSome?_cons, findSome?_cons, ih]
    have hfind : (scope.rename σ).find? name = (scope.find? name).map (Symbol.rename σ) :=
      Keyed.find?_mapValues _ _ _
    rw [hfind]
    rcases scope.find? name with _ | symbol <;> rfl

theorem current_rename : (s.rename σ).current = s.current.rename σ := by
  obtain ⟨inner, global⟩ := s
  cases inner <;> rfl

theorem write_rename (symbol : Symbol) :
    (s.rename σ).write (symbol.rename σ) = (s.write symbol).map (Scopes.rename σ) := by
  have hscope (scope : Scope) :
      (scope.rename σ).define (symbol.rename σ) = (scope.define symbol).map (Scope.rename σ) := by
    rw [Scope.define, Scope.define]
    cases hfrozen : scope.frozen with
    | true =>
      have hfrozen' : (scope.rename σ).frozen = true := hfrozen
      rw [hfrozen']
      rfl
    | false =>
      have hfrozen' : (scope.rename σ).frozen = false := hfrozen
      rw [hfrozen']
      refine congrArg Except.ok ?_
      simp only [Scope.rename, Symbol.rename, ← Keyed.insert_mapValues]
  obtain ⟨inner, global⟩ := s
  cases inner with
  | nil =>
    have hglobal := hscope global
    rw [write, write]
    dsimp only [rename, map_nil]
    rw [hglobal]
    rcases global.define symbol with f | scope <;> rfl
  | cons scope rest =>
    have hinner := hscope scope
    rw [write, write]
    simp only [rename, map_cons]
    rw [hinner]
    rcases scope.define symbol with f | scope <;> rfl

theorem define_rename (symbol : Symbol) : (s.rename σ).define (symbol.rename σ) =
    (s.define symbol).map (Sum.map (Scopes.rename σ) (Symbol.rename σ)) := by
  have hlocal : (s.rename σ).lookupLocal? symbol.name = (s.lookupLocal? symbol.name).map
      (Symbol.rename σ) := by
    rw [lookupLocal?, current_rename, lookupLocal?]
    exact Keyed.find?_mapValues _ _ _
  have hname : (symbol.rename σ).name = symbol.name := rfl
  rw [define, define, hname, hlocal]
  rcases s.lookupLocal? symbol.name with _ | previous
  · dsimp only [Option.map_none]
    rw [write_rename]
    rcases s.write symbol with f | scopes <;> rfl
  · rfl

end Scopes

/-- The types of a backing are known. -/
def Reissue.KnownBacking (v : Reissue) (b : Backing) :
    Prop := v.Known b.concrete ∧ v.Known b.abstract

/-! ### The judgment -/

namespace Inference

variable {α β γ δ : Type} {v : Reissue} {expected : Option Ty} {target source : Ty}
  {types : List Ty} {y : Inference β} {span : Span} {a : Unit}

/--
One inference follows another: what the first concludes has a property, and the second concludes it
too, up to `rename`, with the same findings.  Where nothing is added the second fails when the first
does, with the same failure and the same findings before it.
-/
structure Follows (v : Reissue) (rename : α → β) (P : α → Prop) (x : Inference α)
    (y : Inference β) : Prop where
  concludes : ∀ a, x.result = .ok a →
    y.result = .ok (rename a) ∧ P a ∧ Fact.SameFindings v.ids x.log y.log
  fails : v.Exact → ∀ f, x.result = .error f →
    y.result = .error f ∧ Fact.SameFindings v.ids x.log y.log

/-- An inference whose conclusion is no type follows another. -/
abbrev Passes (v : Reissue) (x y : Inference Unit) : Prop := Follows v id (fun _ => True) x y

/-- An inference that concludes a type follows another, and the type is known. -/
abbrev Types (v : Reissue) (x y : Inference Ty) : Prop := Follows v (Ty.rename v.ids) v.Known x y

namespace Follows

variable {rename : α → β} {P : α → Prop} {rename' : γ → δ} {Q : γ → Prop}

theorem bind {x : Inference α} {f : α → Inference γ} {g : β → Inference δ}
    (hx : Follows v rename P x y) (hf : ∀ a, P a → Follows v rename' Q (f a) (g (rename a))) :
    Follows v rename' Q (x >>= f) (y >>= g) := by
  constructor
  · intro c hc
    obtain ⟨a, ha, hfa⟩ := bind_result_eq_ok.1 hc
    obtain ⟨hy, hP, hlog⟩ := hx.concludes a ha
    obtain ⟨hg, hQ, hlog'⟩ := (hf a hP).concludes c hfa
    rw [result_bind_of_ok hy, log_bind_of_ok ha, log_bind_of_ok hy]
    exact ⟨hg, hQ, hlog.append hlog'⟩
  · intro hv e he
    rcases ha : x.result with e' | a
    · obtain ⟨hy, hlog⟩ := hx.fails hv e' ha
      rw [result_bind_of_error ha] at he
      cases he
      rw [result_bind_of_error hy, log_bind_of_error ha, log_bind_of_error hy]
      exact ⟨rfl, hlog⟩
    · obtain ⟨hy, hP, hlog⟩ := hx.concludes a ha
      rw [result_bind_of_ok ha] at he
      obtain ⟨hg, hlog'⟩ := (hf a hP).fails hv e he
      rw [result_bind_of_ok hy, log_bind_of_ok ha, log_bind_of_ok hy]
      exact ⟨hg, hlog.append hlog'⟩

theorem pure {a : α} (h : P a) : Follows v rename P (Pure.pure a) (Pure.pure (rename a)) := by
  refine ⟨fun b hb => ?_, fun _ f hf => nomatch hf⟩
  cases hb
  exact ⟨rfl, h, rfl⟩

theorem fail {f : Failure} : Follows v rename P (fail f) (fail f) := by
  refine ⟨fun a ha => (nomatch ha), fun _ e he => ?_⟩
  cases he
  exact ⟨rfl, rfl⟩

theorem complain {cause : Cause} {h : cause.kind?.isSome = true} :
    Follows v rename P (complain cause span h) (complain cause span h) :=
  fail

theorem faulty {f : Fault} : Follows v rename P (faulty f) (faulty f) :=
  fail

theorem fail_of_exact {f : Failure} (h : v.Exact → y = Inference.fail f) :
    Follows v rename P (Inference.fail f) y := by
  refine ⟨fun a ha => (nomatch ha), fun hv e he => ?_⟩
  cases he
  rw [h hv]
  exact ⟨rfl, rfl⟩

theorem lift {x : Except Failure α} {y : Except Failure β} (h : y = x.map rename)
    (hP : ∀ a, x = .ok a → P a) : Follows v rename P (lift x) (lift y) := by
  subst h
  constructor
  · intro a ha
    obtain rfl : x = .ok a := ha
    exact ⟨rfl, hP a rfl, rfl⟩
  · intro _ f hf
    obtain rfl : x = .error f := hf
    exact ⟨rfl, rfl⟩

/-- What holds no type is the same. -/
theorem lift_same {x y : Except Failure α} (h : y = x) :
    Follows v id (fun _ => True) (Inference.lift x) (Inference.lift y) := by
  refine lift (h.trans ?_) fun _ _ => trivial
  rcases x with f | a <;> rfl

/-- A fact about a type or a backing. -/
theorem find {fact : Fact} (h : fact.isFinding = true) :
    Passes v (record fact) (record (fact.rename v.ids)) := by
  refine ⟨fun a _ => ⟨rfl, trivial, ?_⟩, fun _ f hf => nomatch hf⟩
  have hrenamed : (fact.rename v.ids).isFinding = true := by
    cases fact <;> first | rfl | cases h
  show [fact.rename v.ids].filter Fact.isFinding = ([fact].filter Fact.isFinding).map
    (Fact.rename v.ids)
  rw [filter_cons_of_pos hrenamed, filter_cons_of_pos h]
  rfl

/-- Facts about something else. -/
theorem remark {fact fact' : Fact} (h : fact.isFinding = false) (h' : fact'.isFinding = false) :
    Passes v (record fact) (record fact') := by
  refine ⟨fun a _ => ⟨rfl, trivial, ?_⟩, fun _ f hf => nomatch hf⟩
  exact .none (forall_mem_singleton.2 h) (forall_mem_singleton.2 h')

/-- Inferences that find nothing are compared by their results. -/
theorem of_result {r r' : Registry} {x : Inference α} (hx : Records r x []) (hy : Records r' y [])
    (hok : ∀ a, x.result = .ok a → y.result = .ok (rename a) ∧ P a)
    (herror : v.Exact → ∀ f, x.result = .error f → y.result = .error f) :
    Follows v rename P x y := by
  have hnone {ε : Type} {r : Registry} {x : Inference ε} (h : Records r x []) :
      ∀ fact ∈ x.log, fact.isFinding = false := by
    intro fact hfact
    cases fact with
    | typed p t => exact absurd (Fact.mem_recorded hfact) (h.not_recorded not_mem_nil)
    | backed o b => exact absurd (h.marks _ hfact) not_mem_nil
    | _ => rfl
  have hlog : Fact.SameFindings v.ids x.log y.log := .none (hnone hx) (hnone hy)
  refine ⟨fun a ha => ?_, fun hv f hf => ⟨herror hv f hf, hlog⟩⟩
  obtain ⟨hy, hP⟩ := hok a ha
  exact ⟨hy, hP, hlog⟩

/-- What is concluded has a property that the first inference alone accounts for. -/
theorem strengthen {x : Inference α} {Q : α → Prop} (h : Follows v rename P x y)
    (hQ : ∀ a, x.result = .ok a → Q a) : Follows v rename Q x y := by
  refine ⟨fun a ha => ?_, h.fails⟩
  obtain ⟨hy, -, hlog⟩ := h.concludes a ha
  exact ⟨hy, hQ a ha, hlog⟩

/-- A step whose conclusion is no type. -/
theorem skip {x y : Inference Unit} {f : Unit → Inference γ} {g : Unit → Inference δ}
    (hx : Passes v x y)
    (hf : ∀ a, Follows v rename' Q (f a) (g a)) : Follows v rename' Q (x >>= f) (y >>= g) :=
  hx.bind fun a _ => hf a

end Follows

/-! ### Interfaces -/

variable {r r' : Registry}

theorem spanOf_follows {span? : Option Span} :
    Follows v id (fun _ => True) (spanOf span?) (spanOf span?) := by
  cases span? with
  | none => exact .faulty
  | some span => exact .pure trivial

section Exact

variable (h : r.Reissued v r') (hv : v.Exact)

include h hv

theorem mismatch_exact (t : Ty) (i : Nominal) : Follows v (Option.map (MemberMismatch.rename v.ids))
    (fun _ => True) (mismatch r t i) (mismatch r' (t.rename v.ids) (i.rename v.ids)) := by
  refine .of_result mismatch_idle.silent mismatch_idle.silent (fun m hm => ⟨?_, trivial⟩)
    fun _ f hf => ?_
  · rw [mismatch_result] at hm ⊢
    rw [h.firstMismatch_of_exact hv, hm]
    rfl
  · rw [mismatch_result] at hf ⊢
    rw [h.firstMismatch_of_exact hv, hf]
    rfl

theorem satisfies_exact (t : Ty) (i : Nominal) : Follows v id (fun _ => True) (satisfies r t i)
    (satisfies r' (t.rename v.ids) (i.rename v.ids)) := by
  refine .bind (mismatch_exact h hv t i) fun m _ => ?_
  cases m with
  | none => exact .pure trivial
  | some m => exact .pure trivial

theorem requireSatisfies_exact (t : Ty) (i : Nominal) (span : Span) :
    Passes v (requireSatisfies r t i span)
      (requireSatisfies r' (t.rename v.ids) (i.rename v.ids) span) := by
  refine .bind (mismatch_exact h hv t i) fun m _ => ?_
  cases m with
  | none => exact .pure trivial
  | some m =>
    have hcause : Registry.notSatisfied (t.rename v.ids) (i.rename v.ids) (m.rename v.ids) =
        Registry.notSatisfied t i m := by
      rw [Registry.notSatisfied, Registry.notSatisfied, Ty.name_rename,
        MemberMismatch.reason_rename]
      rfl
    dsimp only [Option.map_some]
    simp only [hcause]
    exact .complain

theorem assignable_exact (target source : Ty) : Follows v id (fun _ => True)
    (assignable r target source) (assignable r' (target.rename v.ids) (source.rename v.ids)) := by
  refine .of_result assignable_idle.silent assignable_idle.silent (fun b hb => ⟨?_, trivial⟩)
    fun _ f hf => ?_
  · rw [assignable_result] at hb ⊢
    rw [h.isAssignable_of_exact hv, hb]
    rfl
  · rw [assignable_result] at hf ⊢
    rw [h.isAssignable_of_exact hv, hf]

theorem refuse_exact (target source : Ty) (span : Span) :
    Passes v (refuse r target source span)
      (refuse r' (target.rename v.ids) (source.rename v.ids) span) := by
  have hrest (target : Ty) : Passes v
      (lift (r.sameUnderlying target source) >>= fun convertible =>
        complain (.notAssignable target.name source.name
          (if convertible then ["use an explicit conversion: " ++ target.name ++ "(...)"] else []))
          span)
      (lift (r'.sameUnderlying (target.rename v.ids) (source.rename v.ids)) >>= fun convertible =>
        complain (.notAssignable (target.rename v.ids).name (source.rename v.ids).name
          (if convertible then ["use an explicit conversion: " ++ (target.rename v.ids).name ++
            "(...)"] else []))
          span) := by
    refine .bind (.lift_same (h.sameUnderlying target source)) fun convertible _ => ?_
    simp only [Ty.name_rename]
    exact .complain
  unfold refuse
  cases target with
  | interface i =>
    exact .skip (requireSatisfies_exact h hv source i span) fun _ => hrest (.interface i)
  | _ => exact hrest _

theorem requireAllAssignable_exact (expected : Ty) (span : Span) (types : List Ty) :
    Passes v (requireAllAssignable r expected span types)
      (requireAllAssignable r' (expected.rename v.ids) span (types.map (Ty.rename v.ids))) := by
  induction types with
  | nil => exact .pure trivial
  | cons t rest ih =>
    rw [requireAllAssignable, map_cons, requireAllAssignable]
    refine .bind (assignable_exact h hv expected t) fun b _ => ?_
    cases b with
    | true => exact ih
    | false =>
      have hrest (t : Ty) : Passes v (complain (.notAssignable expected.name t.name []) span)
          (complain (.notAssignable (expected.rename v.ids).name (t.rename v.ids).name [])
            span) := by
        simp only [Ty.name_rename]
        exact .complain
      cases expected with
      | interface i => exact .skip (requireSatisfies_exact h hv t i span) fun _ => hrest t
      | _ => exact hrest t

theorem allSatisfy_exact (i : Nominal) (types : List Ty) : Follows v id (fun _ => True)
    (allSatisfy r i types) (allSatisfy r' (i.rename v.ids) (types.map (Ty.rename v.ids))) := by
  induction types with
  | nil => exact .pure trivial
  | cons t rest ih =>
    have hsame : t.rename v.ids = .interface (i.rename v.ids) ↔ t = .interface i :=
      Ty.rename_inj (u := .interface i)
    rw [allSatisfy, map_cons, allSatisfy]
    by_cases ht : t = .interface i
    · rw [if_pos ht, if_pos (hsame.2 ht)]
      exact ih
    · rw [if_neg ht, if_neg (mt hsame.1 ht)]
      refine .bind (satisfies_exact h hv t i) fun b _ => ?_
      cases b with
      | true => exact ih
      | false => exact .pure trivial

theorem sharedInterface?_exact (types candidates : List Ty) :
    Follows v (Option.map (Ty.rename v.ids)) (fun _ => True) (sharedInterface? r types candidates)
      (sharedInterface? r' (types.map (Ty.rename v.ids)) (candidates.map (Ty.rename v.ids))) := by
  induction candidates with
  | nil => exact .pure trivial
  | cons t rest ih =>
    cases t with
    | interface i =>
      rw [sharedInterface?, map_cons, Ty.rename, sharedInterface?]
      refine .bind (allSatisfy_exact h hv i types) fun b _ => ?_
      cases b with
      | true => exact .pure trivial
      | false => exact ih
    | _ => exact ih

end Exact

/-! ### What passes, passes with more methods -/

theorem allSatisfy_total {i : Nominal} (h : ∀ t ∈ types, ∃ ms, r.membersOf t = .ok ms) :
    ∃ b, (allSatisfy r i types).result = .ok b := by
  induction types with
  | nil => exact ⟨true, rfl⟩
  | cons t rest ih =>
    obtain ⟨⟨ms, hms⟩, hrest⟩ := forall_mem_cons.1 h
    have hmismatch : ∃ m, r.firstMismatch t i = .ok m := by
      rw [Registry.firstMismatch, hms]
      split <;> exact ⟨_, rfl⟩
    obtain ⟨m, hm⟩ := hmismatch
    rw [allSatisfy]
    split
    · exact ih hrest
    · have hsatisfies : (satisfies r t i).result = .ok m.isNone := by
        rw [satisfies_result, Registry.satisfies, hm]
        rfl
      rw [result_bind_of_ok hsatisfies]
      split
      · exact ih hrest
      · exact ⟨false, rfl⟩

section Comparing

variable (h : r.Reissued v r')

include h

theorem requireAssignable_follows (target source : Ty) (span : Span) :
    Passes v (requireAssignable r target source span)
      (requireAssignable r' (target.rename v.ids) (source.rename v.ids) span) := by
  by_cases hv : v.Exact
  · refine .bind (assignable_exact h hv target source) fun b _ => ?_
    cases b with
    | true => exact .pure trivial
    | false => exact refuse_exact h hv target source span
  · refine .of_result requireAssignable_idle.silent requireAssignable_idle.silent (fun a ha => ?_)
      fun hexact => absurd hexact hv
    rw [requireAssignable_result] at ha ⊢
    exact ⟨h.isAssignable_true ha, trivial⟩

theorem requireAllAssignable_follows (expected : Ty) (span : Span) (types : List Ty) :
    Passes v (requireAllAssignable r expected span types)
      (requireAllAssignable r' (expected.rename v.ids) span (types.map (Ty.rename v.ids))) := by
  by_cases hv : v.Exact
  · exact requireAllAssignable_exact h hv expected span types
  · refine .of_result requireAllAssignable_idle.silent requireAllAssignable_idle.silent
      (fun a ha => ?_) fun hexact =>
      absurd hexact hv
    rw [requireAllAssignable_result] at ha ⊢
    refine ⟨fun u hu => ?_, trivial⟩
    obtain ⟨t, ht, rfl⟩ := mem_map.1 hu
    exact h.isAssignable_true (ha t ht)

theorem satisfiesTarget_exact (hv : v.Exact) (target source : Ty) : Follows v id (fun _ => True)
    (satisfiesTarget r target source)
    (satisfiesTarget r' (target.rename v.ids) (source.rename v.ids)) := by
  cases target with
  | interface i => exact satisfies_exact h hv source i
  | _ => exact .pure trivial

/-- What satisfied the interface that is asked for does so now. -/
theorem satisfiesTarget_result {b : Bool} (hb : (satisfiesTarget r target source).result = .ok b) :
    ∃ b', (satisfiesTarget r' (target.rename v.ids) (source.rename v.ids)).result = .ok b' ∧
      (b = true → b' = true) := by
  cases target with
  | interface i =>
    have hsatisfies : r.satisfies source i = .ok b := by
      rw [← satisfies_result]
      exact hb
    obtain ⟨b', hb'⟩ := h.satisfies_ok hsatisfies
    refine ⟨b', ?_, ?_⟩
    · rw [← satisfies_result] at hb'
      exact hb'
    · rintro rfl
      exact Except.ok.inj (hb'.symm.trans (h.satisfies_true hsatisfies))
  | _ => exact ⟨b, hb, id⟩

theorem resolve_follows {t : Ty} (ht : v.Known t) :
    Types v (lift (r.resolveUnderlying t .nowhere))
      (lift (r'.resolveUnderlying (t.rename v.ids) .nowhere)) :=
  .lift (h.resolveUnderlying t _) fun _ hw => h.resolveUnderlying_known ht hw

theorem requireConvertible_exact (hv : v.Exact) (ht : v.Known target) (hs : v.Known source)
    (span : Span) : Passes v (requireConvertible r target source span)
      (requireConvertible r' (target.rename v.ids) (source.rename v.ids) span) := by
  refine .bind (resolve_follows h ht) fun wanted _ => .bind (resolve_follows h hs) fun found _ => ?_
  simp only [Ty.rename_inj, Ty.isNumeric_rename, Ty.name_rename]
  split
  · exact .pure trivial
  split
  · exact .pure trivial
  refine .bind (satisfiesTarget_exact h hv target source) fun b _ => ?_
  cases b with
  | true => exact .pure trivial
  | false =>
    refine .bind (assignable_exact h hv wanted found) fun b _ => ?_
    cases b with
    | true => exact .pure trivial
    | false => exact .complain

theorem requireConvertible_follows (ht : v.Known target) (hs : v.Known source) (span : Span) :
    Passes v (requireConvertible r target source span)
      (requireConvertible r' (target.rename v.ids) (source.rename v.ids) span) := by
  by_cases hv : v.Exact
  · exact requireConvertible_exact h hv ht hs span
  · refine .of_result requireConvertible_idle.silent requireConvertible_idle.silent
      (fun a ha => ⟨?_, trivial⟩) fun hexact => absurd hexact hv
    rw [requireConvertible_result] at ha ⊢
    obtain ⟨wanted, found, hwanted, hfound, hpass⟩ := ha
    refine ⟨wanted.rename v.ids, found.rename v.ids, ?_, ?_, ?_⟩
    · rw [h.resolveUnderlying, hwanted]
      rfl
    · rw [h.resolveUnderlying, hfound]
      rfl
    rw [Ty.rename_inj, Ty.rename_inj, Ty.isNumeric_rename, Ty.isNumeric_rename]
    refine hpass.imp_right (Or.imp_right ?_)
    rintro ⟨b, hb, hpass⟩
    obtain ⟨b', hb', hmore⟩ := satisfiesTarget_result h hb
    exact ⟨b', hb', hpass.imp hmore h.isAssignable_true⟩

/-- An interface satisfies the interfaces it did, and no others. -/
theorem assignable_of_reissued {i j : Nominal}
    (hj : r'.Assignable (.interface (j.rename v.ids)) (.interface (i.rename v.ids))) :
    r.Assignable (.interface j) (.interface i) := by
  rw [Registry.assignable_interface_iff, Registry.firstMismatch_eq_none] at hj ⊢
  rw [h.required] at hj
  rcases hj with (hempty | heq) | ⟨ms, hms, hmet⟩
  · exact .inl (.inl (map_eq_nil_iff.1 hempty))
  · exact .inl (.inr ((Ty.rename_inj (t := .interface i) (u := .interface j)).1 heq))
  · refine .inr ⟨r.required i, rfl, fun e he => ?_⟩
    obtain rfl : r'.required (i.rename v.ids) = ms := Except.ok.inj hms
    obtain ⟨m, hm, hmeets⟩ := hmet _ (mem_map_of_mem he)
    rw [h.required, Keyed.find?_mapValues] at hm
    obtain ⟨found, hfound, rfl⟩ := Option.map_eq_some_iff.1 hm
    exact ⟨found, hfound, Registry.meets_rename.1 hmeets⟩

/-- **An interface that elements share is found again, though more is satisfied.** -/
theorem sharedInterface?_more (hv : ¬v.Exact) {types candidates : List Ty}
    (htypes : ∀ t ∈ types, v.Known t)
    (hsub : candidates ⊆ types) {t : Ty}
    (ht : (sharedInterface? r types candidates).result = .ok (some t)) :
    (sharedInterface? r' (types.map (Ty.rename v.ids)) (candidates.map (Ty.rename v.ids))).result =
      .ok (some (t.rename v.ids)) := by
  have hall {i : Nominal} (hi : ∀ u ∈ types, r.Assignable (.interface i) u) :
      (allSatisfy r' (i.rename v.ids) (types.map (Ty.rename v.ids))).result = .ok true := by
    rw [allSatisfy_result]
    intro u hu
    obtain ⟨t, ht, rfl⟩ := mem_map.1 hu
    exact h.isAssignable_true (hi t ht)
  have hmembers : ∀ u ∈ types.map (Ty.rename v.ids), ∃ ms, r'.membersOf u = .ok ms := by
    intro u hu
    obtain ⟨t, ht, rfl⟩ := mem_map.1 hu
    obtain ⟨ms, hms⟩ := h.membersOf_total hv (htypes t ht)
    rw [h.membersOf, hms]
    exact ⟨_, rfl⟩
  induction candidates with
  | nil => cases ht
  | cons c rest ih =>
    obtain ⟨-, hrest⟩ := cons_subset.1 hsub
    cases c with
    | interface j =>
      rw [sharedInterface?] at ht
      rw [map_cons, Ty.rename, sharedInterface?]
      obtain ⟨b, hb, ht⟩ := bind_result_eq_ok.1 ht
      cases b with
      | true =>
        cases ht
        rw [result_bind_of_ok (hall (allSatisfy_result.1 hb))]
        rfl
      | false =>
        obtain ⟨b', hb'⟩ := allSatisfy_total (i := j.rename v.ids) hmembers
        rw [result_bind_of_ok hb']
        cases b' with
        | false => exact ih hrest ht
        | true =>
          -- the interface that is found is an element and satisfies this one, so all elements did
          -- before
          exfalso
          obtain ⟨i, rfl, hmem, hi⟩ := sharedInterface?_result ht
          have hij := assignable_of_reissued h
            (allSatisfy_result.1 hb' _ (mem_map_of_mem (hrest hmem)))
          have hj : (allSatisfy r j types).result = .ok true :=
            allSatisfy_result.2 fun u hu => Registry.assignable_interface_trans (hi u hu) hij
          cases hb.symm.trans hj
    | _ => exact ih hrest ht

theorem sharedType_follows (htypes : ∀ t ∈ types, v.Known t) (span : Span) (what : String) :
    Types v (sharedType r types span what)
      (sharedType r' (types.map (Ty.rename v.ids)) span what) := by
  have hsilent {r : Registry} (types : List Ty) : Records r (sharedType r types span what) [] :=
    show Records r (commonType r types none span what) [] from commonType_idle.silent
  have hfound {t : Ty} (ht : (sharedInterface? r types types).result = .ok (some t)) :
      v.Known t := by
    obtain ⟨i, rfl, hmem, -⟩ := sharedInterface?_result ht
    exact htypes _ hmem
  cases types with
  | nil => exact .complain
  | cons first rest =>
    have hall : (rest.map (Ty.rename v.ids)).all (· = first.rename v.ids) = rest.all
        (· = first) := by
      simp [all_map, Function.comp_def]
    by_cases hsame : rest.all (· = first) = true
    · rw [map_cons]
      unfold sharedType
      dsimp only
      rw [hall, if_pos hsame, if_pos hsame]
      exact .pure (htypes first mem_cons_self)
    by_cases hv : v.Exact
    · rw [map_cons]
      unfold sharedType
      dsimp only
      rw [hall, if_neg hsame, if_neg hsame]
      refine .bind ((sharedInterface?_exact h hv (first :: rest) (first :: rest)).strengthen
        (Q := fun found => ∀ t ∈ found, v.Known t) ?_) fun found hknown => ?_
      · rintro _ hresult t rfl
        exact hfound hresult
      · cases found with
        | some t => exact .pure (hknown t rfl)
        | none =>
          have hnames : (first.rename v.ids :: rest.map (Ty.rename v.ids)).map Ty.name =
              (first :: rest).map Ty.name := by
            simp [Function.comp_def]
          dsimp only [Option.map_none]
          simp only [hnames]
          exact .complain
    · refine .of_result (hsilent _) (hsilent _) (fun t ht => ?_) fun hexact => absurd hexact hv
      rw [sharedType, if_neg hsame, bind_result_eq_ok] at ht
      obtain ⟨found, hresult, ht⟩ := ht
      cases found with
      | none => cases ht
      | some u =>
        cases ht
        have hmore := sharedInterface?_more h hv htypes (List.Subset.refl _) hresult
        rw [map_cons] at hmore ⊢
        refine ⟨?_, hfound hresult⟩
        rw [sharedType, hall, if_neg hsame, result_bind_of_ok hmore]
        rfl

theorem commonType_follows (htypes : ∀ t ∈ types, v.Known t)
    (hexpected : ∀ t ∈ expected, v.Known t) (span : Span) (what : String) :
    Types v (commonType r types expected span what)
      (commonType r' (types.map (Ty.rename v.ids)) (expected.map (Ty.rename v.ids)) span what) := by
  cases expected with
  | none => exact sharedType_follows h htypes span what
  | some t =>
    exact .skip (requireAllAssignable_follows h t span types) fun _ => .pure (hexpected t rfl)

end Comparing

/-! ### Backings -/

/-- What a place asks of the parts of a literal. -/
theorem expected_rename {σ : Renaming} {f : Ty → Option α} {g : α → α}
    (hf : ∀ t, f (t.rename σ) = (f t).map g)
    (expected : Option Ty) : (expected.map (Ty.rename σ)).bind f = (expected.bind f).map g := by
  cases expected with
  | none => rfl
  | some t => exact hf t

theorem expected_known {P : α → Prop} {f : Ty → Option α} (hf : ∀ t, v.Known t → ∀ e ∈ f t, P e)
    (hexpected : ∀ t ∈ expected, v.Known t) : ∀ e ∈ expected.bind f, P e := by
  cases expected with
  | none => exact nofun
  | some t => exact hf t (hexpected t rfl)

theorem entry_fst_rename (σ : Renaming) (entry : Option (Ty × Ty)) :
    (entry.map (Prod.map (Ty.rename σ) (Ty.rename σ))).map Prod.fst = (entry.map Prod.fst).map
    (Ty.rename σ) := by
  cases entry <;> rfl

theorem entry_snd_rename (σ : Renaming) (entry : Option (Ty × Ty)) :
    (entry.map (Prod.map (Ty.rename σ) (Ty.rename σ))).map Prod.snd = (entry.map Prod.snd).map
    (Ty.rename σ) := by
  cases entry <;> rfl

/-- The parts of what a place asks of the entries of a map literal. -/
theorem entry_known {entry : Option (Ty × Ty)} (h : ∀ e ∈ entry, v.Known e.1 ∧ v.Known e.2) :
    (∀ t ∈ entry.map Prod.fst, v.Known t) ∧ ∀ t ∈ entry.map Prod.snd, v.Known t := by
  cases entry with
  | none => exact ⟨nofun, nofun⟩
  | some e => simpa using h e rfl

theorem expectedArray_follows (hexpected : ∀ t ∈ expected, v.Known t) (found : Nat) (span : Span) :
    Follows v (Option.map (Ty.rename v.ids)) (fun array => ∀ t ∈ array, v.Known t)
      (expectedArray expected found span)
      (expectedArray (expected.map (Ty.rename v.ids)) found span) := by
  have hnone : Follows v (Option.map (Ty.rename v.ids)) (fun array => ∀ t ∈ array, v.Known t)
      (Pure.pure none) (Pure.pure none) := .pure nofun
  match expected with
  | none => exact hnone
  | some (.array e none) => exact .pure hexpected
  | some (.array e (some length)) =>
    have hname : (Ty.array (e.rename v.ids) (some length)).name = (Ty.array e (some length)).name :=
      Ty.name_rename v.ids (.array e (some length))
    dsimp only [Option.map_some, Ty.rename]
    unfold expectedArray
    dsimp only
    split
    · exact .pure hexpected
    · simp only [hname]
      exact .complain
  | some (.primitive _) | some (.hashMap _ _) | some (.hashSet _) | some (.list _)
  | some (.map _ _) | some (.set _)
  | some (.function _ _) | some (.interface _) | some (.struct _) | some (.alias _) => exact hnone

section Backings

variable (h : r.Reissued v r')

include h

theorem listBacking_follows (wordBits : Number) (htypes : ∀ t ∈ types, v.Known t)
    (hexpected : ∀ t ∈ expected, v.Known t) (constants : List Value) (span : Span) :
    Follows v (Backing.rename v.ids)
      v.KnownBacking (listBacking r wordBits types expected constants span)
      (listBacking r' wordBits (types.map (Ty.rename v.ids)) (expected.map (Ty.rename v.ids))
        constants span) := by
  unfold listBacking
  rw [length_map, expected_rename (Ty.listElement?_rename v.ids)]
  refine .bind (expectedArray_follows hexpected _ _) fun array harray => ?_
  refine .bind (commonType_follows h htypes
    (expected_known (fun _ => Reissue.Known.listElement?) hexpected) _ _) fun element helement => ?_
  refine .bind (.lift_same (h.size wordBits element)) fun elementBytes _ => ?_
  refine .skip (.remark rfl rfl) fun _ => ?_
  have hconcrete : (array.map (Ty.rename v.ids)).getD (.array (element.rename v.ids) none) =
      (array.getD (.array element none)).rename v.ids := by
    cases array <;> rfl
  rw [hconcrete]
  refine .pure ⟨?_, helement⟩
  cases array with
  | none => exact helement
  | some t => exact harray t rfl

theorem mapBacking_follows {keys values : List Ty} (hkeys : ∀ t ∈ keys, v.Known t)
    (hvalues : ∀ t ∈ values, v.Known t) (hexpected : ∀ t ∈ expected, v.Known t) (span : Span) :
    Follows v (Backing.rename v.ids) v.KnownBacking (mapBacking r keys values expected span)
      (mapBacking r' (keys.map (Ty.rename v.ids)) (values.map (Ty.rename v.ids))
        (expected.map (Ty.rename v.ids)) span) := by
  obtain ⟨hkey, hvalue⟩ := entry_known (expected_known (fun _ => Reissue.Known.mapEntry?) hexpected)
  unfold mapBacking
  rw [expected_rename (Ty.mapEntry?_rename v.ids)]
  dsimp only
  rw [entry_fst_rename, entry_snd_rename]
  exact .bind (commonType_follows h hkeys hkey _ _) fun key hk =>
    .bind (commonType_follows h hvalues hvalue _ _) fun value hv =>
      .pure ⟨Reissue.known_hashMap.2 ⟨hk, hv⟩, Reissue.known_map.2 ⟨hk, hv⟩⟩

theorem setBacking_follows (htypes : ∀ t ∈ types, v.Known t) (hexpected : ∀ t ∈ expected, v.Known t)
    (span : Span) :
    Follows v (Backing.rename v.ids) v.KnownBacking (setBacking r types expected span)
      (setBacking r' (types.map (Ty.rename v.ids)) (expected.map (Ty.rename v.ids)) span) := by
  unfold setBacking
  rw [expected_rename (Ty.setElement?_rename v.ids)]
  exact .bind (commonType_follows h htypes (expected_known (fun _ => Reissue.Known.setElement?)
    hexpected) _ _) fun _ helement => .pure ⟨helement, helement⟩

end Backings

end Inference

end TreeTyping
