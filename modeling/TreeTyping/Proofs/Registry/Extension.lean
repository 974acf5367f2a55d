/-
A registry with one more method.

Registration leaves a registry that is closed: the types that names stand for are registered under
their names, as is all that their definitions mention, and aliases lead to types that are none.
Declaring a method changes nothing of this.  So a closed registry with one more method, under a name
that is not that of a member, is the same registry issued anew: all identities stay, and one method
is added.
-/
import TreeTyping.Proofs.Registry.Callable
import TreeTyping.Proofs.Registry.Reissue

namespace TreeTyping

open List TreeTyping.Except

/-- A name is not found in a table exactly when no entry that was written there has it. -/
theorem Keyed.find?_insertAll_eq_none {α : Type} {name : String} {more entries : Keyed α} :
    find? name (more.foldl (fun all e => insert e.1 e.2 all) entries) = none ↔
      find? name entries = none ∧ ∀ e ∈ more, e.1 ≠ name := by
  induction more generalizing entries with
  | nil => simp
  | cons e rest ih =>
    rw [foldl_cons, ih, forall_mem_cons]
    by_cases he : name = e.1
    · subst he
      simp [find?_insert_self]
    · simp [find?_insert_ne he, Ne.symm he]

namespace Registry

variable {r : Registry}

/-! ### Declaring a method -/

/-- The entry of a method. -/
def methodEntry (receiver : Ty) (signature : Signature) : MethodEntry :=
  ⟨receiver, ⟨signature.name, .method, signature.type⟩, signature.span⟩

/-- The registry with one more method. -/
def withMethod (r : Registry) (e : MethodEntry) : Registry := { r with methods := r.methods ++ [e] }

/-- Methods are declared on aliases and structs. -/
def Receives (t : Ty) : Prop := (∃ n, t = .alias n) ∨ ∃ n, t = .struct n

section AddMethod

variable {receiver : Ty} (name : String) (t : Ty) (span : Span)

/-- Declaring a method on an alias or struct, which has to be registered, under a new name. -/
theorem addMethod_receives (h : Receives receiver) :
    r.addMethod receiver name t span = r.mutable >>= fun _ =>
    if !r.containsType receiver then complain (.unknownType receiver.name) span
    else r.structuralMembers receiver >>= fun members =>
      if members.has name then
        complain (.duplicate ("member of " ++ Cause.tick receiver.name) name none) span
      else (r.methods.find? fun m => m.receiver = receiver && m.member.name = name).elim
        (.ok (r.withMethod ⟨receiver, ⟨name, .method, t⟩, span⟩))
        fun previous =>
          complain (.duplicate ("method of " ++ Cause.tick receiver.name) name (some previous.span))
            span := by
  rcases h with ⟨n, rfl⟩ | ⟨n, rfl⟩
  all_goals
    unfold addMethod
    refine congrArg (r.mutable >>= ·) (funext fun _ => ?_)
    dsimp only
    split
    · rfl
    · refine congrArg (r.structuralMembers _ >>= ·) (funext fun members => ?_)
      split
      · rfl
      · rcases List.find? _ r.methods with _ | previous <;> rfl

/-- On no other type methods are declared. -/
theorem addMethod_refuses (h : ¬Receives receiver) : r.addMethod receiver name t span =
    r.mutable >>= fun _ => complain (.methodReceiver receiver.name) span := by
  unfold addMethod
  refine congrArg (r.mutable >>= ·) (funext fun _ => ?_)
  split
  · exact absurd (.inl ⟨_, rfl⟩) h
  · exact absurd (.inr ⟨_, rfl⟩) h
  · rfl

end AddMethod

/-- A method can be declared on a type under a name. -/
structure Admits (r : Registry) (t : Ty) (name : String) : Prop where
  unfrozen : r.frozen = false
  receives : Receives t
  registered : r.containsType t = true
  free : ∃ members, r.structuralMembers t = .ok members ∧ members.find? name = none
  single : ∀ m ∈ r.methods, m.receiver = t → m.member.name ≠ name

theorem mutable_eq_ok {u : Unit} : r.mutable = .ok u ↔ r.frozen = false := by
  rw [mutable]
  cases r.frozen <;> simp

theorem find?_method_eq_none {t : Ty} {name : String} :
    (r.methods.find? fun m => m.receiver = t && m.member.name = name) = none ↔
      ∀ m ∈ r.methods, m.receiver = t → m.member.name ≠ name := by
  simp

/-- **A method is declared exactly where it can be, and then nothing else changes.** -/
theorem addMethod_iff {r' : Registry} {receiver t : Ty} {name : String} {span : Span} :
    r.addMethod receiver name t span = .ok r' ↔
      r.Admits receiver name ∧ r' = r.withMethod ⟨receiver, ⟨name, .method, t⟩, span⟩ := by
  by_cases hreceiver : Receives receiver
  · rw [addMethod_receives _ _ _ hreceiver, bind_eq_ok]
    constructor
    · rintro ⟨_, hopen, h⟩
      split at h
      · cases h
      next hthere =>
      obtain ⟨members, hmembers, h⟩ := bind_eq_ok.1 h
      split at h
      · cases h
      next hfree =>
      rcases hfind : r.methods.find? _ with _ | previous
      · rw [hfind] at h
        exact ⟨⟨mutable_eq_ok.1 hopen, hreceiver, by simpa using hthere,
          ⟨members, hmembers, by simpa [Keyed.has] using hfree⟩, find?_method_eq_none.1 hfind⟩,
            (Except.ok.inj h).symm⟩
      · rw [hfind] at h
        cases h
    · rintro ⟨⟨hopen, -, hthere, ⟨members, hmembers, hfree⟩, hsingle⟩, rfl⟩
      refine ⟨(), mutable_eq_ok.2 hopen, ?_⟩
      have hnot : ¬members.has name = true := by simp [Keyed.has, hfree]
      rw [hthere, hmembers, find?_method_eq_none.2 hsingle]
      exact if_neg hnot
  · rw [addMethod_refuses _ _ _ hreceiver, bind_eq_ok]
    constructor
    · rintro ⟨_, -, h⟩
      cases h
    · rintro ⟨hadmits, -⟩
      exact absurd hadmits.receives hreceiver

theorem addMethod_eq_ok {r' : Registry} {receiver : Ty} {signature : Signature}
    (h : r.addMethod receiver signature.name signature.type signature.span = .ok r') :
    r' = r.withMethod (methodEntry receiver signature) :=
  (addMethod_iff.1 h).2

/-- The members of a type that receives methods are those of its structure, and its methods. -/
theorem membersOf_receives {t : Ty} {ms : Keyed Member} (ht : Receives t)
    (hms : r.membersOf t = .ok ms) : ∃ structural, r.structuralMembers t = .ok structural ∧
      ms = (r.methodsOf t).foldl (fun members m => members.insert m.1 m.2) structural := by
  rcases ht with ⟨n, rfl⟩ | ⟨n, rfl⟩
  all_goals
    obtain ⟨structural, hstructural, heq⟩ := bind_eq_ok.1 hms
    cases heq
    exact ⟨structural, hstructural, rfl⟩

/-- **A method can be declared on a registered type under a name that is not that of a member.** -/
theorem addMethod_total {receiver : Ty} {signature : Signature} {ms : Keyed Member}
    (hopen : r.frozen = false)
    (hreceiver : Receives receiver) (hthere : r.containsType receiver = true)
    (hms : r.membersOf receiver = .ok ms)
    (hnew : ms.find? signature.name = none) :
    r.addMethod receiver signature.name signature.type signature.span =
      .ok (r.withMethod (methodEntry receiver signature)) := by
  obtain ⟨structural, hstructural, rfl⟩ := membersOf_receives hreceiver hms
  obtain ⟨hnone, hmethods⟩ := Keyed.find?_insertAll_eq_none.1 hnew
  refine addMethod_iff.2 ⟨⟨hopen, hreceiver, hthere, ⟨structural, hstructural, hnone⟩, ?_⟩, rfl⟩
  intro m hm hown
  exact hmethods _ (mem_map_of_mem (mem_filter.2 ⟨hm, decide_eq_true hown⟩))

/-! ### Ending registration -/

theorem walkAliases_congr {r' : Registry} (h : r'.definitions = r.definitions) (span : Span)
    (fuel : Nat) (seen : List Nat) (chain : List String) (t : Ty) :
    r'.walkAliases span fuel seen chain t = r.walkAliases span fuel seen chain t := by
  have hunderlying (n : Nominal) : r'.underlying? n = r.underlying? n := by
    rw [underlying?, underlying?, h]
  fun_induction walkAliases r span fuel seen chain t with
  | case1 seen chain t => rfl
  | case2 fuel seen chain n hmet => rw [walkAliases, if_pos hmet]
  | case3 fuel seen chain n hnew hn => rw [walkAliases, if_neg hnew, hunderlying, hn]
  | case4 fuel seen chain n hnew t hn ih =>
    rw [walkAliases, if_neg hnew, hunderlying, hn]
    exact ih
  | case5 fuel seen chain t hother => rw [walkAliases_done (Ty.isAlias_eq_false.2 hother)]

theorem structuralMembers_congr {r' : Registry} (h : r'.definitions = r.definitions) (t : Ty) :
    r'.structuralMembers t = r.structuralMembers t := by
  have hexposed : r'.exposed = r.exposed := by
    funext w
    cases w <;> simp only [exposed, required, structFields, h]
  rw [structuralMembers_eq, structuralMembers_eq, resolveUnderlying, resolveUnderlying,
    walkAliases_congr h, h, hexposed]

/-- The end of registration changes no members. -/
theorem membersOf_freeze (t : Ty) : r.freeze.membersOf t = r.membersOf t := by
  have hsame : r.freeze.structuralMembers t = r.structuralMembers t :=
    structuralMembers_congr (show r.freeze.definitions = r.definitions from rfl) t
  unfold membersOf
  rw [hsame]
  rfl

/-! ### What registration leaves -/

/-- The registry is closed: what it refers to is registered, and aliases lead somewhere. -/
structure Closed (r : Registry) : Prop where
  named : ∀ name t, r.lookup? name = some t → t.name = name ∧
    ∀ n ∈ t.nominals, r.containsType n = true
  references : ∀ t, r.containsType t = true →
    ∀ u ∈ Registration.referenced r t, r.containsType u = true
  ends : ∀ n, r.containsType (.alias n) = true → ∃ w, r.Leads (.alias n) w

theorem Closed.congr {r' : Registry} (h : r.Closed) (hnames : r'.bindings = r.bindings)
    (hdefinitions : r'.definitions = r.definitions) : r'.Closed := by
  have hlookup (name : String) : r'.lookup? name = r.lookup? name := by
    rw [lookup?, binding?, hnames, lookup?, binding?]
  have hcontains (t : Ty) : r'.containsType t = r.containsType t := by
    rw [containsType, hlookup, containsType]
  have hreferenced (t : Ty) : Registration.referenced r' t = Registration.referenced r t := by
    cases t <;> simp only [Registration.referenced, hdefinitions]
  refine ⟨fun name t ht => ?_, fun t ht u hu => ?_, fun n hn => ?_⟩
  · rw [hlookup] at ht
    simpa only [hcontains] using h.named name t ht
  · rw [hcontains] at ht ⊢
    rw [hreferenced] at hu
    exact h.references t ht u hu
  · rw [hcontains] at hn
    obtain ⟨w, hw⟩ := h.ends n hn
    exact ⟨w, hw.congr hdefinitions⟩

end Registry

namespace Registration

theorem builtins_nominals : ∀ b ∈ Ty.builtins, ∀ n ∈ b.2.nominals, n = b.2 := by decide

theorem nominal_nominals (id : Nat) (decl : TypeDecl) :
    (nominal id decl).nominals = [nominal id decl] := by
  cases decl <;> rfl

theorem binding_of_containsType {r : Registry} {t : Ty} (h : r.containsType t = true) :
    ∃ b ∈ r.bindings, b.type = t := by
  obtain ⟨b, hb, rfl⟩ := Option.map_eq_some_iff.1 (of_decide_eq_true h)
  exact ⟨b, mem_of_find?_eq_some hb, rfl⟩

/-- **Registration leaves a closed registry.** -/
theorem run_closed {types : List (Entry TypeDecl)} {s : Registration} (h : run {} types = .ok s) :
    s.registry.Closed := by
  have hds := introduces_introduced types
  obtain ⟨hsweeping, hstable⟩ := run_settled h
  refine ⟨fun name t ht => ?_, fun t ht => ?_, fun n hn => ?_⟩
  · have hthere := containsType_kept hds hsweeping.toSettling hsweeping.kept (t := t)
    rcases (lookup?_kept hds hsweeping.toSettling hsweeping.kept).1 ht with hbuiltin |
      ⟨d, hd, hname, rfl, hkept⟩
    · refine ⟨builtins_name _ hbuiltin, fun n hn => ?_⟩
      rw [builtins_nominals _ hbuiltin n hn]
      exact hthere.2 (.inl ⟨_, hbuiltin, rfl⟩)
    · obtain ⟨i, hi⟩ := mem_iff_getElem?.1 hd
      have hnominals : d.type.nominals = [d.type] := by
        rw [hds.types i d hi, nominal_nominals]
      refine ⟨(hds.type_name hd).trans hname, ?_⟩
      rw [hnominals, forall_mem_singleton]
      exact hthere.2 (.inr ⟨d, hd, rfl, hname ▸ hkept⟩)
  · obtain ⟨b, hb, rfl⟩ := binding_of_containsType ht
    exact hsweeping.closed hstable hb
  · obtain ⟨b, hb, hb'⟩ := binding_of_containsType hn
    obtain ⟨w, -, hw⟩ := hsweeping.alias_ends hb (by rw [hb']; rfl)
    rw [hb'] at hw
    exact ⟨w, Registry.resolveUnderlying_eq_ok.1 (hw .nowhere)⟩

end Registration

/-! ### One more method -/

namespace Registry

variable {r : Registry}

/-- One method is added; the types that are registered under their names are known. -/
def extension (r : Registry) (e : MethodEntry) :
    Reissue := ⟨Equiv.refl Nat, [e], fun t => r.containsType t = true⟩

/-- **A closed registry with one more method is the same registry issued anew.** -/
theorem Closed.withMethod (h : r.Closed) {e : MethodEntry}
    (hmethods : ∀ m ∈ r.methods, (r.extension e).Known m.member.type)
    (hnew : ∀ ms, r.membersOf e.receiver = .ok ms → ms.find? e.member.name = none) :
    r.Reissued (r.extension e) (r.withMethod e) := by
  refine ⟨fun name => ?_, fun i => ?_, rfl, ?_, ?_, ?_, h.references, hmethods, fun _ => h.ends⟩
  · show r.lookup? name = (r.lookup? name).map (Ty.rename (Equiv.refl Nat))
    rcases r.lookup? name with _ | t
    · rfl
    · rw [Option.map_some, Ty.rename_refl]
  · show r.definitions[i]? = (r.definitions[i]?).map (Definition.rename (Equiv.refl Nat))
    rcases r.definitions[i]? with _ | d
    · rfl
    · rw [Option.map_some, Definition.rename_refl]
  · have hsame : r.methods.map (MethodEntry.rename (Equiv.refl Nat)) = r.methods :=
      map_id'' (fun m => m.rename_refl) r.methods
    exact congrArg (· ++ [e]) hsame.symm
  · intro t ms name m hms hm e' he' hreceiver hname
    obtain rfl := mem_singleton.1 he'
    have hown : e'.receiver = t := hreceiver.trans (Ty.rename_refl t)
    rw [← hown] at hms
    rw [← hname, hnew ms hms] at hm
    cases hm
  · exact fun name t ht => (h.named name t ht).2

end Registry

end TreeTyping
