/-
Registries in use.

A registry in use is one that registration of types has left; methods may have been declared since,
and registration may have ended.  What holds of all of them is stated once: they are closed, only
aliases and structs have methods, and an interface requires each member under its own name and no
name twice.  So the types over such a registry, those whose nominal types are registered under their
names, all have members; and an interface exposes just what it requires, each member under the name
it is found by.
-/
import TreeTyping.Proofs.Registry.Extension

namespace TreeTyping

open List

/-! ### What interfaces require -/

/-- Each member is under its own name, and no name is used twice. -/
structure Member.OwnNames (members : Keyed Member) : Prop where
  own : ∀ e ∈ members, e.2.name = e.1
  distinct : (members.map Prod.fst).Nodup

namespace Member.OwnNames

theorem nil : OwnNames [] := ⟨forall_mem_nil _, nodup_nil⟩

theorem insert {members : Keyed Member} (h : OwnNames members) {m : Member}
    (hnew : members.has m.name = false) : OwnNames (members.insert m.name m) := by
  have hnone : members.find? m.name = none := by
    rw [Keyed.has, Option.isSome_eq_false_iff] at hnew
    exact Option.isNone_iff_eq_none.1 hnew
  rw [Keyed.insert_of_find?_eq_none hnone]
  constructor
  · intro e he
    rcases mem_append.1 he with he | he
    · exact h.own e he
    · obtain rfl := mem_singleton.1 he
      rfl
  · rw [map_append, map_singleton, ← concat_eq_append]
    refine List.Nodup.concat (fun hname => ?_) h.distinct
    obtain ⟨e, he, hkey⟩ := mem_map.1 hname
    have hfound := Keyed.find?_of_mem h.distinct he
    rw [hkey, hnone] at hfound
    cases hfound

end Member.OwnNames

namespace Registration

theorem linkMember_new {r : Registry} {interface : String} {seen : Keyed Member} {decl : MemberDecl}
    {m : Member} (h : linkMember r interface seen decl = .ok m) : seen.has m.name = false := by
  unfold linkMember at h
  split at h
  case h_3 => cases h
  case h_4 => split at h <;> cases h
  all_goals
    split at h
    · cases h
    · next hnew =>
        obtain ⟨t, -, ht⟩ := Except.bind_eq_ok.1 h
        cases ht
        exact Bool.eq_false_iff.2 hnew

theorem linkMembers_ownNames (r : Registry) (interface : String) {seen : Keyed Member}
    (members : List MemberDecl)
    (hseen : Member.OwnNames seen) : Member.OwnNames (linkMembers r interface seen members).1 := by
  induction members generalizing seen with
  | nil => exact hseen
  | cons decl rest ih =>
    rw [linkMembers]
    split
    · next m hm => exact ih (hseen.insert (linkMember_new hm))
    · exact hseen

theorem definitionOf_ownNames {r : Registry} {decl : TypeDecl} {members : Keyed Member}
    (h : (definitionOf r decl).1 = .interface members) : Member.OwnNames members := by
  unfold definitionOf at h
  split at h
  · split at h <;> cases h
  · cases h
  · cases h
    exact linkMembers_ownNames r _ _ .nil

theorem run_ownNames {types : List (Entry TypeDecl)} {s : Registration} (h : run {} types = .ok s)
    (i : Nominal) : Member.OwnNames (s.registry.required i) := by
  unfold Registry.required
  split
  · next members hi =>
      rw [(run_settled h).1.definitions] at hi
      rcases mem_cons.1 (mem_of_getElem? hi) with hempty | hdeclared
      · cases hempty
        exact .nil
      · obtain ⟨d, -, hd⟩ := mem_map.1 hdeclared
        exact definitionOf_ownNames hd
  · exact .nil

end Registration

namespace Registry

variable {r : Registry}

/-! ### How a registry comes about -/

/-- The registries that registration leaves, with any methods declared since, and open or frozen. -/
inductive Produced : Registry → Prop
  | registered {types : List (Entry TypeDecl)} {s : Registration}
      (h : Registration.run {} types = .ok s) : Produced s.registry
  | declared {r r' : Registry} {receiver t : Ty} {name : String} {span : Span} (h : Produced r)
      (hadd : r.addMethod receiver name t span = .ok r') : Produced r'
  | frozen {r : Registry} (h : Produced r) : Produced r.freeze

/-- What holds of a registry in use. -/
structure InOrder (r : Registry) : Prop where
  closed : r.Closed
  receivers : ∀ m ∈ r.methods, Receives m.receiver
  required : ∀ i, Member.OwnNames (r.required i)

/-- Declaring a method on a type that can have some keeps a registry in order. -/
theorem InOrder.withMethod (h : r.InOrder) {e : MethodEntry} (he : Receives e.receiver) :
    (r.withMethod e).InOrder := by
  refine ⟨h.closed.congr rfl rfl, fun m hm => ?_, h.required⟩
  rcases mem_append.1 hm with hm | hm
  · exact h.receivers m hm
  · obtain rfl := mem_singleton.1 hm
    exact he

/-- **Every registry in use is in order.** -/
theorem Produced.inOrder (h : r.Produced) : r.InOrder := by
  induction h with
  | registered h =>
    refine ⟨Registration.run_closed h, ?_, Registration.run_ownNames h⟩
    rw [Registration.run_methods h]
    exact forall_mem_nil _
  | declared _ hadd ih =>
    obtain ⟨hadmits, rfl⟩ := addMethod_iff.1 hadd
    exact ih.withMethod hadmits.receives
  | frozen _ ih => exact ⟨ih.closed.congr rfl rfl, ih.receivers, ih.required⟩

/-! ### The types over a registry -/

/-- The nominal types that a type is built from are registered under their names. -/
def Over (r : Registry) (t : Ty) : Prop := ∀ n ∈ t.nominals, r.containsType n = true

instance (t : Ty) : Decidable (r.Over t) :=
  inferInstanceAs (Decidable (∀ n ∈ t.nominals, r.containsType n = true))

namespace InOrder

variable (h : r.InOrder)

include h

/-- What an annotation denotes is a type over the registry. -/
theorem typeOf_over {e : TypeExpr} {t : Ty} (ht : r.typeOf e = .ok t) : r.Over t :=
  typeOf_known (v := ⟨Equiv.refl Nat, [], fun t => r.containsType t = true⟩)
    (fun name t hname => (h.closed.named name t hname).2) e ht

/-- Every type over the registry leads somewhere. -/
theorem leads_total {t : Ty} (ht : r.Over t) : ∃ w, r.Leads t w := by
  by_cases halias : t.isAlias = true
  · obtain ⟨n, rfl⟩ := Ty.isAlias_eq_true.1 halias
    exact h.closed.ends n (ht _ mem_cons_self)
  · exact ⟨t, .done (by simpa using halias)⟩

/-- What is behind an alias over the registry is over it. -/
theorem underlying_over {n : Nominal} {t : Ty} (hn : r.Over (.alias n))
    (ht : r.underlying? n = some t) : r.Over t := by
  intro m hm
  refine h.closed.references (.alias n) (hn _ mem_cons_self) m ?_
  unfold underlying? at ht
  split at ht
  · next hd =>
      rw [Registration.referenced, hd]
      cases ht
      exact hm
  · cases ht

theorem leads_over {t w : Ty} (hlead : r.Leads t w) (ht : r.Over t) : r.Over w := by
  induction hlead with
  | done => exact ht
  | step hn _ ih => exact ih (h.underlying_over ht hn)

/-- **Every type over the registry has members.** -/
theorem membersOf_total {t : Ty} (ht : r.Over t) : ∃ ms, r.membersOf t = .ok ms := by
  refine membersOf_of_ends fun n halias => ?_
  subst halias
  exact h.closed.ends n (ht _ mem_cons_self)

/-- A type that is no alias, struct or interface has no members. -/
theorem membersOf_eq_nil {t : Ty} (ht : t.isNominal = false) : r.membersOf t = .ok [] := by
  have hnone : r.methodsOf t = [] := by
    rw [methodsOf, map_eq_nil_iff, filter_eq_nil_iff]
    intro m hm hown
    obtain rfl := of_decide_eq_true hown
    rcases h.receivers m hm with ⟨n, hn⟩ | ⟨n, hn⟩
    · rw [hn] at ht
      cases ht
    · rw [hn] at ht
      cases ht
  unfold membersOf
  split
  · cases ht
  · cases ht
  · cases ht
  · exact congrArg Except.ok hnone

end InOrder

/-! ### A registry in use -/

/-- Two interfaces, of which the second asks for more, a struct with a label and an alias of it. -/
def shelf : List (Entry TypeDecl) :=
  let int : TypeExpr := .simple .nowhere "int"
  let label : TypeExpr := .simple .nowhere "string"
  [.proper (.interface .nowhere "Sized" [.method .nowhere "size" [] (some int)]),
   .proper (.interface .nowhere "Labelled"
     [.field .nowhere "label" label, .method .nowhere "size" [] (some int)]),
   .proper (.struct .nowhere "Box" [⟨⟨.root 0, .nowhere⟩, "label", label⟩]),
   .proper (.alias .nowhere "Crate" (.simple .nowhere "Box"))]

/-- The registry of `shelf`, with a method declared on the struct. -/
def shelved : Except Failure Registry := do
  let s ← Registration.run {} shelf
  s.registry.addMethod (.struct ⟨3, "Box"⟩) "size" (.function [] (some .int)) .nowhere

theorem shelved_produced {r : Registry} (h : shelved = .ok r) : r.Produced := by
  obtain ⟨s, hs, hadd⟩ := Except.bind_eq_ok.1 h
  exact .declared (.registered hs) hadd

end Registry

end TreeTyping
