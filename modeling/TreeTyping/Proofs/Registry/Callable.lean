/-
Methods have function types.

A member that is a method is called with arguments, so its type has to be a function type.  Nothing
in the form of a member says so; it holds because methods come from two places only.  An interface
that is declared requires methods whose types are made from their parameters and results, and a
method of a type has the type of the signature it was declared with.  Registration changes neither
afterwards.
-/
import TreeTyping.Proofs.Registry.Refusal
import TreeTyping.Symbols

namespace TreeTyping

open List TreeTyping.Except

variable {allowed : Fault → Prop}

/-- A method has a function type. -/
def Member.Callable (m : Member) :
    Prop := m.kind = .method → ∃ params result, m.type = .function params result

namespace Registry

variable {r : Registry}

/-- All methods have function types. -/
structure Callable (r : Registry) : Prop where
  required : ∀ members, .interface members ∈ r.definitions → ∀ e ∈ members, e.2.Callable
  methods : ∀ m ∈ r.methods, m.member.Callable

/-! ### Members -/

/-- Following aliases ends in no fault. -/
theorem resolveUnderlying_safe (r : Registry) (t : Ty) (span : Span) :
    Safe allowed (r.resolveUnderlying t span) fun w => r.Leads t w := by
  rcases hw : r.resolveUnderlying t span with f | w
  · rcases walkAliases_eq_error hw with ⟨names, rfl⟩ | ⟨n, -, rfl⟩
    · exact .complain
    · exact .complain
  · exact resolveUnderlying_eq_ok.1 hw

theorem Callable.required_callable (h : r.Callable) (n : Nominal) :
    ∀ e ∈ r.required n, e.2.Callable := by
  unfold Registry.required
  split
  · next members hn => exact h.required members (mem_of_getElem? hn)
  · exact forall_mem_nil _

theorem fieldMembers_callable (fields : Keyed Ty) : ∀ e ∈ fieldMembers fields, e.2.Callable := by
  intro e he hmethod
  obtain ⟨f, -, rfl⟩ := mem_map.1 he
  cases hmethod

theorem structuralMembers_safe (h : r.Callable) (t : Ty) :
    Safe allowed (r.structuralMembers t) fun members => ∀ e ∈ members, e.2.Callable := by
  unfold structuralMembers
  split
  on_goal 1 => refine .bind (r.resolveUnderlying_safe _ _) fun w _ => ?_
  on_goal 2 => refine .bind (P := fun _ => True) trivial fun w _ => ?_
  all_goals
    dsimp only
    split
    · exact h.required_callable _
    · exact fieldMembers_callable _
    · exact forall_mem_nil _

theorem methodsOf_callable (h : r.Callable) (t : Ty) : ∀ e ∈ r.methodsOf t, e.2.Callable := by
  intro e he
  obtain ⟨m, hm, rfl⟩ := mem_map.1 he
  exact h.methods m (mem_filter.1 hm).1

theorem insertAll_callable {members more : Keyed Member} (h : ∀ e ∈ members, e.2.Callable)
    (hmore : ∀ e ∈ more, e.2.Callable) :
    ∀ e ∈ more.foldl (fun members m => members.insert m.1 m.2) members, e.2.Callable := by
  induction more generalizing members with
  | nil => exact h
  | cons m rest ih =>
    obtain ⟨hm, hrest⟩ := forall_mem_cons.1 hmore
    refine ih (fun e he => ?_) hrest
    rcases Keyed.mem_insert he with he | he
    · exact h e he
    · exact he ▸ hm

/-- **The methods that a type exposes have function types.** -/
theorem membersOf_safe (h : r.Callable) (t : Ty) :
    Safe allowed (r.membersOf t) fun members => ∀ e ∈ members, e.2.Callable := by
  unfold membersOf
  split
  · exact h.required_callable _
  · exact .bind (structuralMembers_safe h _) fun members hmembers =>
      insertAll_callable hmembers (methodsOf_callable h _)
  · exact .bind (structuralMembers_safe h _) fun members hmembers =>
      insertAll_callable hmembers (methodsOf_callable h _)
  · exact methodsOf_callable h _

/-! ### Methods -/

theorem mutable_safe (h : r.frozen = false) : Safe allowed r.mutable fun _ => True := by
  rw [mutable, h]
  trivial

/-- Declaring a method with a function type ends in no fault, and adds it. -/
theorem addMethod_safe (h : r.Callable) (hopen : r.frozen = false) (receiver : Ty)
    (signature : Signature) :
    Safe allowed (r.addMethod receiver signature.name signature.type signature.span)
      fun r' => r'.Callable ∧ r'.frozen = false := by
  have hadded : Callable { r with methods := r.methods ++
      [⟨receiver, ⟨signature.name, .method, signature.type⟩, signature.span⟩] } := by
    refine ⟨h.required, fun m hm => ?_⟩
    rcases mem_append.1 hm with hm | hm
    · exact h.methods m hm
    · obtain rfl := mem_singleton.1 hm
      exact fun _ => ⟨_, _, rfl⟩
  refine .skip (mutable_safe hopen) fun _ => ?_
  split
  case h_3 => exact .complain
  all_goals
    dsimp only
    split
    · exact .complain
    refine .skip ((structuralMembers_safe h _).mono fun _ _ => trivial) fun members => ?_
    split
    · exact .complain
    · split
      · exact .complain
      · exact ⟨hadded, hopen⟩

end Registry

/-! ### Registration -/

namespace Registration

theorem linkMembers_callable (r : Registry) (interface : String) {seen : Keyed Member}
    {members : List MemberDecl} (hseen : ∀ e ∈ seen, e.2.Callable) (h : ∀ m ∈ members, m.Intact) :
    ∀ e ∈ (linkMembers r interface seen members).1, e.2.Callable := by
  induction members generalizing seen with
  | nil => exact hseen
  | cons decl rest ih =>
    obtain ⟨hdecl, hrest⟩ := forall_mem_cons.1 h
    have hsafe : Safe (fun _ => False) (linkMember r interface seen decl) Member.Callable :=
      linkMember_safe r interface seen hdecl
    rw [linkMembers]
    split
    · next m hm =>
        refine ih (fun e he => ?_) hrest
        rcases Keyed.mem_insert he with he | he
        · exact hseen e he
        · exact he ▸ hsafe.of_ok hm
    · exact hseen

theorem definitionOf_callable (r : Registry) {decl : TypeDecl} (h : decl.Intact)
    {members : Keyed Member}
    (hdef : (definitionOf r decl).1 = .interface members) : ∀ e ∈ members, e.2.Callable := by
  unfold definitionOf at hdef
  split at hdef
  · split at hdef <;> cases hdef
  · cases hdef
  · cases hdef
    exact linkMembers_callable r _ (forall_mem_nil _) h

theorem linkedScope_callable {ds : List Declared} (h : ∀ d ∈ ds, d.decl.Intact) :
    (linkedScope ds).Callable := by
  refine ⟨fun members hmem => ?_, forall_mem_nil _⟩
  rcases mem_cons.1 hmem with heq | hmem
  · cases heq
    exact forall_mem_nil _
  · obtain ⟨d, hd, hdef⟩ := mem_map.1 hmem
    exact definitionOf_callable _ (h d hd) hdef

/-- Names are taken back before any method is declared. -/
theorem remove_methods {r r' : Registry} {name : String} (h : r.remove name = .ok r')
    (hr : r.methods = []) : r'.methods = [] := by
  obtain ⟨_, -, h⟩ := bind_eq_ok.1 h
  cases h
  dsimp only
  rw [hr]
  split <;> rfl

theorem removeFailed_methods {s s' : Registration} (h : s.removeFailed = .ok s')
    (hs : s.registry.methods = []) : s'.registry.methods = [] := by
  obtain ⟨r, hr, h⟩ := bind_eq_ok.1 h
  cases h
  exact foldlM_invariant (P := fun _ (r : Registry) => r.methods = [])
    (fun _ _ _ _ _ _ hr hremove => remove_methods hremove hr) hs hr

theorem sweepOne_methods {s s' : Registration} {d : Declared} (h : s.sweepOne d = .ok s')
    (hs : s.registry.methods = []) : s'.registry.methods = [] := by
  unfold sweepOne at h
  split at h
  · cases h
    exact hs
  · split at h
    · cases h
      exact hs
    · obtain ⟨r, hr, h⟩ := bind_eq_ok.1 h
      cases h
      exact remove_methods hr hs

theorem sweep_methods {fuel : Nat} {s s' : Registration} (h : sweep fuel s = .ok s')
    (hs : s.registry.methods = []) : s'.registry.methods = [] := by
  induction fuel generalizing s with
  | zero =>
    cases h
    exact hs
  | succ fuel ih =>
    obtain ⟨next, hnext, h⟩ := bind_eq_ok.1 h
    have hnext' : next.registry.methods = [] :=
      foldlM_invariant (P := fun _ (s : Registration) => s.registry.methods = [])
        (fun _ _ _ _ _ _ hs hone => sweepOne_methods hone hs) hs hnext
    split at h
    · cases h
      exact hnext'
    · exact ih h hnext'

theorem run_methods {types : List (Entry TypeDecl)} {s : Registration} (h : run {} types = .ok s) :
    s.registry.methods = [] := by
  obtain ⟨s₁, hlinked, h⟩ := bind_eq_ok.1 h
  obtain ⟨s₂, hfollow, h⟩ := bind_eq_ok.1 h
  obtain ⟨s₃, hremove, hsweep⟩ := bind_eq_ok.1 h
  have h₁ := linked_eq_ok hlinked
  rw [h₁.declared] at hfollow
  obtain ⟨-, h₂, -⟩ := follow_all (h₁.settling (introduces_introduced types)) h₁.registry hfollow
  exact sweep_methods hsweep (removeFailed_methods hremove (by rw [h₂]; rfl))

/-- **After registration all methods have function types.** -/
theorem run_callable {types : List (Entry TypeDecl)}
    (hintact : ∀ d ∈ introduced types, d.decl.Intact)
    {s : Registration} (h : run {} types = .ok s) : s.registry.Callable ∧
      s.registry.frozen = false := by
  have hsettled := (run_settled h).1
  refine ⟨⟨fun members hmem => ?_, ?_⟩, hsettled.unfrozen⟩
  · rw [hsettled.definitions] at hmem
    exact (linkedScope_callable hintact).required members hmem
  · rw [run_methods h]
    exact forall_mem_nil _

end Registration

end TreeTyping
