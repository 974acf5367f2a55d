/-
When registration is refused.

What is wrong with a declaration is reported, and the others are registered all the same.  There is
one way in which a declaration stops its siblings: an alias that links leads, through other aliases,
to one that does not.  The walk along aliases finds an unknown type there, and following catches
cycles alone.

So registration comes to an end exactly when no alias that links strands at one that does not, and
otherwise fails at the first that does.  Where it comes to an end, everything found by the first
three passes has been reported, in order: names that are taken, declarations that do not link, and
aliases that go round.
-/
import TreeTyping.Proofs.Registry.Settling
import TreeTyping.Proofs.Safe
import TreeTyping.Proofs.Syntax.Completeness

namespace TreeTyping

open List TreeTyping.Except

variable {allowed : Fault → Prop}

/-! ### Annotations -/

/-- The nominal types that a type mentions have the property. -/
def Ty.BuiltOf (Q : Ty → Prop) (t : Ty) : Prop := ∀ n ∈ t.nominals, Q n

namespace Registry

variable {Q : Ty → Prop}

theorem resolve_safe (r : Registry) (name : String) (span : Span) :
    Safe allowed (r.resolve name span) fun t => r.lookup? name = some t := by
  rw [resolve]
  split
  · next t hlookup => exact hlookup
  · exact .complain

theorem arrayType_safe (span : Span) {element : Ty} (h : element.BuiltOf Q) (length : Option Int) :
    Safe allowed (arrayType span element length) (Ty.BuiltOf Q) := by
  cases length with
  | none => exact h
  | some length =>
    rw [arrayType]
    split
    · exact .complain
    · split
      · exact .complain
      · exact h

theorem composedType_safe (span : Span) (name : String) {args : List Ty}
    (h : ∀ a ∈ args, a.BuiltOf Q)
    (length : Option Int) : Safe allowed (composedType span name args length) (Ty.BuiltOf Q) := by
  unfold composedType
  split
  · exact .complain
  · split
    case h_2 | h_4 => exact forall_mem_append.2 ⟨h _ (by simp), h _ (by simp)⟩
    case h_6 => exact arrayType_safe span (h _ (by simp)) length
    case h_7 => exact .complain
    all_goals
      have helement := forall_mem_singleton.1 h
      exact helement

mutual

/-- Resolving an intact annotation ends in no fault, and gives what its names stand for. -/
theorem typeOf_built {r : Registry} (hnamed : ∀ name t, r.lookup? name = some t → t.BuiltOf Q) :
    ∀ e : TypeExpr, (e.isIntact = true ∨ ∀ f, allowed f) → Safe allowed (r.typeOf e) (Ty.BuiltOf Q)
  | .simple span name, _ => (r.resolve_safe name span).mono (hnamed name)
  | .generic span name args length, h => by
      rw [typeOf]
      split
      · exact .complain
      · split
        · exact .complain
        · exact .bind (typesOf_built hnamed args h) fun ts hts =>
            composedType_safe span name hts length
  | .foreign f, h => by
      rw [typeOf]
      split
      · exact .complain
      · exact h.resolve_left Bool.false_ne_true _

theorem typesOf_built {r : Registry} (hnamed : ∀ name t, r.lookup? name = some t → t.BuiltOf Q) :
    ∀ es : List TypeExpr, (TypeExpr.allIntact es = true ∨ ∀ f, allowed f) →
      Safe allowed (r.typesOf es) fun ts => ∀ t ∈ ts, t.BuiltOf Q
  | [], _ => forall_mem_nil _
  | e :: rest, h => by
      have hsplit := h.imp_left Bool.and_eq_true_iff.1
      exact .bind (typeOf_built hnamed e (hsplit.imp_left And.left)) fun t ht =>
        .bind (typesOf_built hnamed rest (hsplit.imp_left And.right)) fun ts hts =>
          forall_mem_cons.2 ⟨ht, hts⟩

end

theorem typeOf_safe (r : Registry) (e : TypeExpr) (h : e.isIntact = true) :
    Safe allowed (r.typeOf e) fun _ => True :=
  (typeOf_built (Q := fun _ => True) (fun _ _ _ _ _ => trivial) e (.inl h)).mono fun _ _ => trivial

theorem typeOf?_safe (r : Registry) {e : Option TypeExpr} (h : ∀ a ∈ e, a.isIntact = true) :
    Safe allowed (r.typeOf? e) fun _ => True := by
  cases e with
  | none => trivial
  | some e => exact .map (typeOf_safe r e (h e rfl))

theorem allIntact_params {params : List Param} (h : ∀ p ∈ params, p.isIntact = true) :
    TypeExpr.allIntact (params.map Param.typeExpr) = true := by
  induction params with
  | nil => rfl
  | cons p rest ih =>
    obtain ⟨hp, hrest⟩ := forall_mem_cons.1 h
    exact Bool.and_eq_true_iff.2 ⟨hp, ih hrest⟩

theorem functionType_safe (r : Registry) {params : List Param} {result : Option TypeExpr}
    (hparams : ∀ p ∈ params, p.isIntact = true) (hresult : ∀ e ∈ result, e.isIntact = true) :
    Safe allowed (r.functionType params result) fun t => ∃ ts res, t = .function ts res :=
  .bind (typesOf_built (Q := fun _ => True) (fun _ _ _ _ _ => trivial) _
    (.inl (allIntact_params hparams))) fun ts _ =>
    .bind (r.typeOf?_safe hresult) fun res _ => ⟨ts, res, rfl⟩

end Registry

namespace Registration

/-! ### Linking intact declarations -/

theorem linkFields_found (r : Registry) (struct : String) (seen : Keyed Ty) {fields : List Param}
    (h : ∀ p ∈ fields, p.isIntact = true) :
    ∀ f ∈ (linkFields r struct seen fields).2, f.isFault = false := by
  induction fields generalizing seen with
  | nil => intro f hf; cases hf
  | cons field rest ih =>
    obtain ⟨hfield, hrest⟩ := forall_mem_cons.1 h
    have hsafe : Safe (fun _ => False) (r.typeOf field.typeExpr) fun _ => True :=
      r.typeOf_safe _ hfield
    rw [linkFields]
    split
    · intro f hf
      cases hf
      rfl
    · split
      · exact ih _ hrest
      · next f herror =>
          intro g hg
          cases hg
          exact hsafe.not_fault herror

/-- A requirement of an interface is linked without a fault, and a method gets a function type. -/
theorem linkMember_safe (r : Registry) (interface : String) (seen : Keyed Member)
    {decl : MemberDecl} (h : decl.Intact) : Safe allowed (linkMember r interface seen decl)
      fun m => m.kind = .method → ∃ ts res, m.type = .function ts res := by
  cases decl with
  | field span name typeExpr =>
    rw [linkMember]
    split
    · exact .complain
    · exact .bind (r.typeOf_safe _ h) fun t _ hkind => nomatch hkind
  | method span name params returns =>
    rw [linkMember]
    split
    · exact .complain
    · exact .bind (r.functionType_safe h.1 h.2) fun t ht _ => ht
  | foreign name f => exact h.elim

theorem linkMembers_found (r : Registry) (interface : String) (seen : Keyed Member)
    {members : List MemberDecl}
    (h : ∀ m ∈ members, m.Intact) :
    ∀ f ∈ (linkMembers r interface seen members).2, f.isFault = false := by
  induction members generalizing seen with
  | nil => intro f hf; cases hf
  | cons decl rest ih =>
    obtain ⟨hdecl, hrest⟩ := forall_mem_cons.1 h
    have hsafe : Safe (fun _ => False) (linkMember r interface seen decl) _ :=
      linkMember_safe r interface seen hdecl
    rw [linkMembers]
    split
    · exact ih _ hrest
    · next f herror =>
        intro g hg
        cases hg
        exact hsafe.not_fault herror

/-- What is wrong with an intact declaration is never a fault. -/
theorem definitionOf_found (r : Registry) {decl : TypeDecl} (h : decl.Intact) :
    ∀ f ∈ (definitionOf r decl).2, f.isFault = false := by
  unfold definitionOf
  split
  · next span name underlying =>
      have hsafe : Safe (fun _ => False) (r.typeOf underlying) fun _ => True := r.typeOf_safe _ h
      split
      · intro f hf
        cases hf
      · next f herror =>
          intro g hg
          cases hg
          exact hsafe.not_fault herror
  · exact linkFields_found r _ [] h
  · exact linkMembers_found r _ [] h

/-! ### What the passes report -/

/-- What is wrong with an entry for which no type is introduced. -/
def clash? (ds : List Declared) : Entry TypeDecl → Option Diagnostic
  | .foreign f => some ⟨.notATypeDeclaration f.kind, f.span⟩
  | .proper decl =>
    ((scope ds).binding? decl.name).map fun previous =>
      ⟨.duplicate "type" decl.name previous.span?, decl.span⟩

/-- What the first pass reports, with the types introduced already. -/
def clashesFrom (ds : List Declared) : List (Entry TypeDecl) → List Diagnostic
  | [] => []
  | entry :: rest => (clash? ds entry).toList ++ clashesFrom (introduce ds entry) rest

/-- What the first pass reports: entries that introduce no type. -/
def clashes (types : List (Entry TypeDecl)) : List Diagnostic := clashesFrom [] types

/-- What is wrong with an introduced type that does not link. -/
def linkComplaint? (ds : List Declared) (d : Declared) : Option Diagnostic :=
  (definitionOf (scope ds) d.decl).2.bind Failure.diagnostic?

/-- What is wrong with an introduced type that links and is followed. -/
def walkComplaint? (ds : List Declared) (d : Declared) : Option Diagnostic :=
  if links ds d && d.type.isAlias then
    match (linkedScope ds).resolveUnderlying d.type d.decl.span with
    | .ok _ => none
    | .error f => f.diagnostic?
  else none

/-- What the first three passes report. -/
def complaints (types : List (Entry TypeDecl)) : List Diagnostic :=
  let ds := introduced types
  clashes types ++ ds.filterMap (linkComplaint? ds) ++ ds.filterMap (walkComplaint? ds)

theorem clashesFrom_append (ds : List Declared) (types : List (Entry TypeDecl))
    (entry : Entry TypeDecl) : clashesFrom ds (types ++ [entry]) =
      clashesFrom ds types ++ (clash? (types.foldl introduce ds) entry).toList := by
  induction types generalizing ds with
  | nil => exact append_nil _
  | cons first rest ih =>
    rw [cons_append, clashesFrom, clashesFrom, ih, append_assoc]
    rfl

theorem filterMap_append_singleton {α β : Type} (f : α → Option β) (done : List α) (a : α) :
    (done ++ [a]).filterMap f = done.filterMap f ++ (f a).toList := by
  rw [filterMap_append]
  cases h : f a <;> simp [h]

/-! ### The passes come to an end -/

/-- Binding a name succeeds, or reports that it is taken. -/
theorem Bound.declare_total {s : Registration} {ds : List Declared} (hs : Bound ds s)
    (entry : Entry TypeDecl) :
    ∃ s', s.declare entry = .ok s' ∧ s'.found = s.found ++ (clash? ds entry).toList := by
  cases entry with
  | foreign f => exact ⟨_, rfl, rfl⟩
  | proper decl =>
    rw [Registration.declare, hs.registry]
    dsimp only [Registry.allocate, Registry.define]
    have hb : Registry.binding? { scopeWith ds (ds.map fun d => shell d.decl) with
        definitions := (scopeWith ds (ds.map fun d => shell d.decl)).definitions ++ [shell decl] }
          decl.name = (scope ds).binding? decl.name := rfl
    rw [hb, clash?]
    rcases (scope ds).binding? decl.name with _ | previous
    · exact ⟨_, rfl, (append_nil _).symm⟩
    · exact ⟨_, rfl, rfl⟩

/-- **The first pass comes to an end.** -/
theorem declare_total (types : List (Entry TypeDecl)) :
    ∃ s, types.foldlM Registration.declare { registry := {} } = .ok s ∧ Bound (introduced types) s ∧
      s.found = clashes types := by
  refine foldlM_total (P := fun done s => Bound (introduced done) s ∧ s.found = clashes done) ?_
    ⟨⟨rfl, rfl, rfl⟩, rfl⟩
  rintro done entry rest s - ⟨hs, hfound⟩
  obtain ⟨s', hs', hfound'⟩ := hs.declare_total entry
  refine ⟨s', hs', ?_, ?_⟩
  · rw [introduced_append]
    exact hs.declare hs'
  · rw [hfound', hfound, clashes, clashes, clashesFrom_append]
    rfl

/-- Linking a declaration succeeds, or reports what is wrong with it. -/
theorem LinkedTo.link_total {s : Registration} {ds done : List Declared} {d : Declared}
    (hs : LinkedTo ds done s) (hd : d.decl.Intact) :
    ∃ s', s.link d = .ok s' ∧ s'.found = s.found ++ (linkComplaint? ds d).toList := by
  have hbindings : s.registry.bindings = (scope ds).bindings := by
    rw [hs.registry]
    rfl
  have hfault := definitionOf_found (scope ds) hd
  rw [linkComplaint?]
  unfold Registration.link
  rw [definitionOf_congr hbindings]
  dsimp only
  rcases h : (definitionOf (scope ds) d.decl).2 with _ | (diagnostic | f)
  · exact ⟨_, rfl, (append_nil _).symm⟩
  · exact ⟨_, rfl, rfl⟩
  · cases hfault _ h

/-- **The first two passes come to an end.** -/
theorem linked_total {types : List (Entry TypeDecl)} (h : ∀ d ∈ introduced types, d.decl.Intact) :
    ∃ s, linked {} types = .ok s ∧
      s.found = clashes types ++ (introduced types).filterMap
        (linkComplaint? (introduced types)) := by
  obtain ⟨s₁, hdeclare, hbound, hfound⟩ := declare_total types
  have hlink : ∃ s, (introduced types).foldlM Registration.link s₁ = .ok s ∧
      (LinkedTo (introduced types) (introduced types) s ∧ s.found = clashes types ++
        (introduced types).filterMap (linkComplaint? (introduced types))) := by
    refine foldlM_total (P := fun done s => LinkedTo (introduced types) done s ∧
      s.found = clashes types ++ done.filterMap (linkComplaint? (introduced types))) ?_ ⟨?_, ?_⟩
    · rintro done d rest s hsplit ⟨hs, hfound⟩
      obtain ⟨s', hs', hfound'⟩ := hs.link_total (h d (by rw [hsplit]; simp))
      refine ⟨s', hs', hs.link (introduces_introduced types) hsplit hs', ?_⟩
      rw [hfound', hfound, filterMap_append_singleton, append_assoc]
    · exact ⟨hbound.registry, hbound.declared, hbound.failed⟩
    · rw [hfound, filterMap_nil, append_nil]
  obtain ⟨s, hs, -, hfound⟩ := hlink
  refine ⟨s, ?_, hfound⟩
  rw [linked, bind_eq_ok]
  exact ⟨s₁, hdeclare, by rw [hbound.declared]; exact hs⟩

/-! ### Following aliases -/

/-- An alias that links leads to one that does not. -/
def Strands (ds : List Declared) (d : Declared) : Prop :=
  links ds d = true ∧ ∃ n, (linkedScope ds).Strands d.type n

/-- The declarations before some have been followed; no others were refused since linking. -/
structure FollowedTo (types : List (Entry TypeDecl)) (done : List Declared) (s : Registration) :
    Prop where
  registry : s.registry = linkedScope (introduced types)
  declared : s.declared = introduced types
  failed : ∀ d ∈ introduced types, d ∉ done →
    (d.decl.name ∈ s.failed ↔ links (introduced types) d = false)
  found : s.found = clashes types ++ (introduced types).filterMap
    (linkComplaint? (introduced types)) ++ done.filterMap (walkComplaint? (introduced types))

theorem isAlias_of_strands {r : Registry} {t : Ty} {n : Nominal} (h : r.Strands t n) :
    t.isAlias = true := by
  cases h <;> rfl

section Following

variable {types : List (Entry TypeDecl)} {done rest : List Declared} {d : Declared}
  {s : Registration}

theorem not_mem_done (hsplit : introduced types = done ++ d :: rest) : d ∉ done := by
  intro hmem
  have hnames := (introduces_introduced types).names
  rw [hsplit, map_append, map_cons] at hnames
  have hapart := (nodup_append.1 hnames).2.2
  exact hapart _ (mem_map_of_mem hmem) _ mem_cons_self rfl

theorem FollowedTo.follow_strands (hs : FollowedTo types done s)
    (hsplit : introduced types = done ++ d :: rest) (hlinks : links (introduced types) d = true)
    {n : Nominal} (hn : (linkedScope (introduced types)).Strands d.type n) :
    s.follow d = .error (.of (.unknownType n.name) d.decl.span) := by
  have hkept : d.decl.name ∉ s.failed := by
    rw [hs.failed d (by rw [hsplit]; simp) (not_mem_done hsplit), hlinks]
    nofun
  have hgo : ¬(s.failed.contains d.decl.name || !d.type.isAlias) = true := by
    simp [hkept, isAlias_of_strands hn]
  rw [follow, if_neg hgo, hs.registry, Registry.resolveUnderlying_strands hn]
  rfl

/-- The next declaration has been followed: its error is reported, and no other is refused. -/
theorem FollowedTo.next (hs : FollowedTo types done s)
    (hsplit : introduced types = done ++ d :: rest)
    {s' : Registration} (hregistry : s'.registry = s.registry)
    (hdeclared : s'.declared = s.declared)
    (hfailed : ∀ name, name ≠ d.decl.name → (name ∈ s'.failed ↔ name ∈ s.failed))
    (hfound : s'.found = s.found ++ (walkComplaint? (introduced types) d).toList) :
    FollowedTo types (done ++ [d]) s' := by
  refine ⟨hregistry.trans hs.registry, hdeclared.trans hs.declared, fun d' hd' hleft => ?_, ?_⟩
  · have hother : d'.decl.name ≠ d.decl.name := by
      intro hname
      obtain rfl := (introduces_introduced types).unique hd' (by rw [hsplit]; simp) hname
      exact hleft (mem_append_right _ (mem_singleton_self _))
    rw [hfailed _ hother]
    exact hs.failed d' hd' fun hmem => hleft (mem_append_left _ hmem)
  · rw [hfound, hs.found, filterMap_append_singleton, append_assoc]

/-- Following any other alias succeeds, or reports that it goes round. -/
theorem FollowedTo.follow_total (hs : FollowedTo types done s)
    (hsplit : introduced types = done ++ d :: rest) (hfree : ¬Strands (introduced types) d) :
    ∃ s', s.follow d = .ok s' ∧ FollowedTo types (done ++ [d]) s' := by
  have hfailed := hs.failed d (by rw [hsplit]; simp) (not_mem_done hsplit)
  by_cases hskip : (s.failed.contains d.decl.name || !d.type.isAlias) = true
  · have hquiet : walkComplaint? (introduced types) d = none := by
      refine if_neg fun hgo => ?_
      obtain ⟨hlinks, halias⟩ := Bool.and_eq_true_iff.1 hgo
      rw [halias, Bool.or_eq_true, contains_iff_mem, hfailed, hlinks] at hskip
      simp at hskip
    refine ⟨s, by rw [follow, if_pos hskip], hs.next hsplit rfl rfl (fun _ _ => Iff.rfl) ?_⟩
    rw [hquiet]
    exact (append_nil _).symm
  · obtain ⟨hkept, halias⟩ : d.decl.name ∉ s.failed ∧ d.type.isAlias = true := by
      simpa using hskip
    have hlinks : links (introduced types) d = true := by
      simpa using mt hfailed.2 hkept
    have hgo : (links (introduced types) d && d.type.isAlias) = true :=
      Bool.and_eq_true_iff.2 ⟨hlinks, halias⟩
    rw [follow, if_neg hskip, hs.registry]
    rcases h : (linkedScope (introduced types)).resolveUnderlying d.type d.decl.span with f | w
    · rcases Registry.walkAliases_eq_error h with ⟨names, rfl⟩ | ⟨n, hn, -⟩
      · refine ⟨_, rfl, hs.next hsplit rfl rfl (fun name hname => ?_) ?_⟩
        · rw [mem_append, mem_singleton]
          exact or_iff_left hname
        · rw [walkComplaint?, if_pos hgo, h]
          rfl
      · exact absurd ⟨hlinks, n, hn⟩ hfree
    · refine ⟨s, rfl, hs.next hsplit rfl rfl (fun _ _ => Iff.rfl) ?_⟩
      rw [walkComplaint?, if_pos hgo, h]
      exact (append_nil _).symm

end Following

/-- Following the declarations before the first that strands, or all of them, comes to an end. -/
theorem follow_before {types : List (Entry TypeDecl)} {s : Registration}
    (hs : FollowedTo types [] s)
    {before after : List Declared} (hsplit : introduced types = before ++ after)
    (hfree : ∀ d ∈ before, ¬Strands (introduced types) d) :
    ∃ s', before.foldlM follow s = .ok s' ∧ FollowedTo types before s' := by
  refine foldlM_total (P := FollowedTo types) ?_ hs
  rintro done d rest s hbefore hs
  have hnext : introduced types = done ++ d :: (rest ++ after) := by
    rw [hsplit, hbefore, append_assoc, cons_append]
  exact hs.follow_total hnext (hfree d (by rw [hbefore]; simp))

/-! ### Removing -/

/-- One state has come out of another; nothing that was reported is taken back. -/
structure Grown (s s' : Registration) : Prop where
  unfrozen : s'.registry.frozen = false
  declared : s'.declared = s.declared
  found : s.found <+: s'.found

theorem Grown.refl {s : Registration} (h : s.registry.frozen = false) : Grown s s :=
  ⟨h, rfl, prefix_refl _⟩

theorem Grown.trans {s s' s'' : Registration} (h : Grown s s') (h' : Grown s' s'') : Grown s s'' :=
  ⟨h'.unfrozen, h'.declared.trans h.declared, h.found.trans h'.found⟩

theorem remove_total {r : Registry} (h : r.frozen = false) (name : String) :
    ∃ r', r.remove name = .ok r' ∧ r'.frozen = false := by
  have hopen : r.mutable = .ok () := by
    rw [Registry.mutable, h]
    rfl
  rw [Registry.remove, hopen]
  exact ⟨_, rfl, h⟩

theorem removeFailed_total {s : Registration} (h : s.registry.frozen = false) :
    ∃ s', s.removeFailed = .ok s' ∧ Grown s s' := by
  obtain ⟨r, hr, hopen⟩ : ∃ r, s.failed.foldlM (fun r name => Registry.remove r name)
    s.registry = .ok r ∧
      r.frozen = false := by
    refine foldlM_total (P := fun _ (r : Registry) => r.frozen = false) ?_ h
    intro _ name _ r _ hr
    exact remove_total hr name
  exact ⟨{ s with registry := r }, bind_eq_ok.2 ⟨r, hr, rfl⟩, hopen, rfl, prefix_refl _⟩

theorem sweepOne_total {s : Registration} (h : s.registry.frozen = false) (d : Declared) :
    ∃ s', s.sweepOne d = .ok s' ∧ Grown s s' := by
  rw [sweepOne]
  split
  · exact ⟨s, rfl, .refl h⟩
  · split
    · exact ⟨s, rfl, .refl h⟩
    · next t _ =>
        obtain ⟨r, hr, hopen⟩ := remove_total h d.decl.name
        rw [hr]
        exact ⟨_, rfl, hopen, rfl, prefix_append _ _⟩

theorem sweep_total {s : Registration} (h : s.registry.frozen = false) (fuel : Nat) :
    ∃ s', sweep fuel s = .ok s' ∧ Grown s s' := by
  induction fuel generalizing s with
  | zero => exact ⟨s, rfl, .refl h⟩
  | succ fuel ih =>
    obtain ⟨next, hnext, hgrown⟩ : ∃ next, s.declared.foldlM sweepOne s = .ok next ∧
      Grown s next := by
      refine foldlM_total (P := fun _ next => Grown s next) ?_ (.refl h)
      intro _ d _ next _ hgrown
      obtain ⟨next', hnext', hgrown'⟩ := sweepOne_total hgrown.unfrozen d
      exact ⟨next', hnext', hgrown.trans hgrown'⟩
    obtain ⟨s', hs', hgrown'⟩ := ih hgrown.unfrozen
    rw [sweep, hnext]
    show ∃ s', (if next.failed.length = s.failed.length then pure next else sweep fuel next) =
      .ok s' ∧ _
    split
    · exact ⟨next, rfl, hgrown⟩
    · exact ⟨s', hs', hgrown.trans hgrown'⟩

/-! ### Registration -/

/-- If anything in a list has a property, there is a first that has it. -/
theorem exists_first {α : Type} {P : α → Prop} {xs : List α} (h : ∃ x ∈ xs, P x) :
    ∃ before x after, xs = before ++ x :: after ∧ P x ∧ ∀ y ∈ before, ¬P y := by
  classical
  have hsome : (xs.find? fun x => decide (P x)).isSome = true := find?_isSome.2 (by simpa using h)
  obtain ⟨x, hx⟩ := Option.isSome_iff_exists.1 hsome
  obtain ⟨hP, before, after, hsplit, hbefore⟩ := find?_eq_some_iff_append.1 hx
  exact ⟨before, x, after, hsplit, of_decide_eq_true hP, by simpa using hbefore⟩

section Run

variable {types : List (Entry TypeDecl)} (hintact : ∀ d ∈ introduced types, d.decl.Intact)

include hintact

/-- After linking nothing has been followed. -/
theorem linked_followedTo : ∃ s, linked {} types = .ok s ∧ FollowedTo types [] s := by
  obtain ⟨s, hs, hfound⟩ := linked_total hintact
  have hlinked := linked_eq_ok hs
  refine ⟨s, hs, hlinked.registry, hlinked.declared, fun d hd _ => ?_, ?_⟩
  · rw [hlinked.failed, mem_map]
    constructor
    · rintro ⟨d', hd', hname⟩
      obtain ⟨hd', hlinks⟩ := mem_filter.1 hd'
      obtain rfl := (introduces_introduced types).unique hd' hd hname
      simpa using hlinks
    · intro hlinks
      exact ⟨d, mem_filter.2 ⟨hd, by simpa using hlinks⟩, rfl⟩
  · rw [hfound, filterMap_nil, append_nil]

/-- Where no alias strands, registration comes to an end, and has reported what the passes find. -/
theorem run_total (hfree : ∀ d ∈ introduced types, ¬Strands (introduced types) d) :
    ∃ s, run {} types = .ok s ∧ complaints types <+: s.found := by
  obtain ⟨s₁, hlinked, hs₁⟩ := linked_followedTo hintact
  obtain ⟨s₂, hfollow, hs₂⟩ := follow_before hs₁ (append_nil _).symm hfree
  have hopen : s₂.registry.frozen = false := by
    rw [hs₂.registry]
    rfl
  obtain ⟨s₃, hremove, hgrown⟩ := removeFailed_total hopen
  obtain ⟨s, hsweep, hgrown'⟩ := sweep_total hgrown.unfrozen (s₃.declared.length + 1)
  refine ⟨s, ?_, ?_⟩
  · rw [← hs₁.declared] at hfollow
    exact bind_eq_ok.2 ⟨s₁, hlinked, bind_eq_ok.2 ⟨s₂, hfollow,
      bind_eq_ok.2 ⟨s₃, hremove, hsweep⟩⟩⟩
  · have hfound := (hgrown.trans hgrown').found
    rwa [hs₂.found] at hfound

/-- Registration fails at the first alias that strands. -/
theorem run_strands {before after : List Declared} {d : Declared} {n : Nominal}
    (hsplit : introduced types = before ++ d :: after)
    (hfirst : ∀ d' ∈ before, ¬Strands (introduced types) d')
    (hlinks : links (introduced types) d = true)
    (hn : (linkedScope (introduced types)).Strands d.type n) :
    run {} types = .error (.of (.unknownType n.name) d.decl.span) := by
  obtain ⟨s₁, hlinked, hs₁⟩ := linked_followedTo hintact
  obtain ⟨s₂, hfollow, hs₂⟩ := follow_before hs₁ hsplit hfirst
  rw [run, hlinked]
  show settle s₁ = _
  rw [settle, hs₁.declared, hsplit, foldlM_append, hfollow]
  show ((d :: after).foldlM follow s₂ >>= _) = _
  rw [foldlM_cons, hs₂.follow_strands hsplit hlinks hn]
  rfl

/-- **Registration comes to an end or fails at the first alias that strands.** -/
theorem run_cases : (∃ s, run {} types = .ok s ∧ complaints types <+: s.found) ∨
    ∃ before d after n, introduced types = before ++ d :: after ∧
      (∀ d' ∈ before, ¬Strands (introduced types) d') ∧ links (introduced types) d = true ∧
      (linkedScope (introduced types)).Strands d.type n ∧
      run {} types = .error (.of (.unknownType n.name) d.decl.span) := by
  by_cases hstrands : ∃ d ∈ introduced types, Strands (introduced types) d
  · obtain ⟨before, d, after, hsplit, ⟨hlinks, n, hn⟩, hfirst⟩ := exists_first hstrands
    exact .inr ⟨before, d, after, n, hsplit, hfirst, hlinks, hn,
      run_strands hintact hsplit hfirst hlinks hn⟩
  · exact .inl (run_total hintact fun d hd hd' => hstrands ⟨d, hd, hd'⟩)

end Run

end Registration

theorem Module.Intact.introduced {m : Module} (h : m.Intact) :
    ∀ d ∈ Registration.introduced m.types, d.decl.Intact := by
  intro d hd
  obtain ⟨hfirst, -⟩ := Registration.mem_introduced.1 ⟨d.type, hd⟩
  obtain ⟨decl, heq, hdecl⟩ := h.types _ (Registration.mem_of_firstOf? hfirst)
  cases heq
  exact hdecl

/--
**Registration of a well-formed module comes to an end exactly when no alias that links leads to one
that does not.**  In the end everything that the passes over the declarations found has been
reported.  Otherwise registration fails at the first alias, in the order of the declarations, that
leads to one that does not link, and says that the other one is unknown.
-/
theorem Registration.run_ends_iff {t : Tree} (hw : t.wellFormed = true)
    (hs : Tree.hasShape (.node .compilationUnit) t = true) (p : Place) :
    ∃ m, Module.ofTree? p t = some m ∧
      ((∃ s, run {} m.types = .ok s ∧ complaints m.types <+: s.found) ↔
        ∀ d ∈ introduced m.types, ¬Strands (introduced m.types) d) ∧
      ∀ f, run {} m.types = .error f → ∃ before d after n,
        introduced m.types = before ++ d :: after ∧
          (∀ d' ∈ before, ¬Strands (introduced m.types) d') ∧
        links (introduced m.types) d = true ∧ (linkedScope (introduced m.types)).Strands d.type n ∧
        f = .of (.unknownType n.name) d.decl.span := by
  obtain ⟨m, hm, hintact⟩ := Module.intact_ofTree? hw hs p
  have hdecls := hintact.introduced
  refine ⟨m, hm, ⟨?_, run_total hdecls⟩, fun f hf => ?_⟩
  · rintro ⟨s, hs, -⟩ d hd hstrands
    obtain ⟨before, d, after, hsplit, ⟨hlinks, n, hn⟩, hfirst⟩ := exists_first ⟨d, hd, hstrands⟩
    cases hs.symm.trans (run_strands hdecls hsplit hfirst hlinks hn)
  · rcases run_cases hdecls with ⟨s, hs, -⟩ |
      ⟨before, d, after, n, hsplit, hfirst, hlinks, hn, hrun⟩
    · cases hs.symm.trans hf
    · exact ⟨before, d, after, n, hsplit, hfirst, hlinks, hn, Except.error.inj (hf.symm.trans hrun)⟩

/-- A module in which `A` stands for `B`, and `B` for a type that is not declared. -/
def Registration.orphans : Tree :=
  let on (line column : Int) : Span := .point line column .null
  let standing (line : Int) (name other : String) : Tree :=
    .node .typeAliasDecl (on line 1) [.text name, .node .simpleType (on line 10) [.text other]]
  .node .compilationUnit (on 1 1)
    [.text "m", .list [standing 1 "A" "B", standing 2 "B" "Missing"], .list [], .list []]

/-- `A` links, and leads to `B`, which does not: nothing of the module is registered. -/
theorem Registration.run_ends_iff_orphans : orphans.wellFormed = true ∧
    Tree.hasShape (.node .compilationUnit) orphans = true ∧
    ∃ m, Module.ofTree? (.root 0) orphans = some m ∧
      ¬∀ d ∈ introduced m.types, ¬Strands (introduced m.types) d := by
  refine ⟨by decide, by decide, ?_⟩
  obtain ⟨m, hm, hends, -⟩ := run_ends_iff (t := orphans) (by decide) (by decide) (.root 0)
  refine ⟨m, hm, fun hfree => ?_⟩
  obtain ⟨s, hs, -⟩ := hends.2 hfree
  cases hm
  cases hs

/-- The module is well formed, and yet its registration fails with what is wrong with one alias. -/
theorem Registration.orphans_refused : orphans.wellFormed = true ∧
    Tree.hasShape (.node .compilationUnit) orphans = true ∧
    ∃ m, Module.ofTree? (.root 0) orphans = some m ∧
      run {} m.types = .error (.of (.unknownType "B") (.point 1 1 .null)) :=
  ⟨by decide, by decide, _, rfl, rfl⟩

end TreeTyping
