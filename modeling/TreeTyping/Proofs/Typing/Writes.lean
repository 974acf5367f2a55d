/-
Which writes are noted down, and in which order.

Of the sites of a piece of syntax, those leave a write that are checked to their end.  Whether one
is can be read off the types that are recorded in the end: a declaration has come to its end if its
variable has a type, and an assignment if both of its sides have types and the one can be assigned
to the other, for nothing else can fail behind that.  What is written can be read off as well.  So
for every piece of syntax the writes in the log are those of its sites, in order, with a table of
types that agrees with the log on the places of the syntax.  A piece that is never reached has no
types, and so it leaves no writes.
-/
import TreeTyping.Proofs.Syntax.Lexical
import TreeTyping.Proofs.Typing.Frame
import TreeTyping.Proofs.Typing.Following
import TreeTyping.Proofs.Typing.OwnType
import TreeTyping.Proofs.Typing.Scoping

namespace TreeTyping

open List

/-! ### Names -/

/-- Every name leads to the declaration that is visible under it. -/
def Scopes.Resolves (s : Scopes) (v : Visible) : Prop :=
  ∀ name, ((s.lookup? name).bind Symbol.declaration?).map (fun d => d.origin.place) = v.lookup name

namespace Scopes.Resolves

variable {s s' : Scopes} {v : Visible}

/-- In a new scope, the same is visible. -/
theorem push (h : s.Resolves v) (name : String) : (s.push name).Resolves v := h

/-- A symbol that is defined is visible in front of all others. -/
theorem define (h : s.Resolves v) {symbol : Symbol} {d : Declaration}
    (hdefine : s.define symbol = .ok (.inl s'))
    (hd : symbol.declaration? = some d) : s'.Resolves ((symbol.name, d.origin.place) :: v) := by
  intro name
  rw [define_lookup? hdefine, lookup_cons]
  by_cases hname : name = symbol.name
  · rw [if_pos hname, Option.bind_some, hd, hname, beq_self_eq_true]
    rfl
  · rw [if_neg hname, beq_eq_false_iff_ne.2 hname]
    exact h name

end Scopes.Resolves

/-! ### Writes -/

namespace Fact

/-- The write that a fact is, with the place that declares the variable. -/
def write? : Fact → Option (Place × Write)
  | .wrote d w => some (d.origin.place, w)
  | _ => none

/-- The writes among facts, in order, each with the place that declares the variable. -/
def written (facts : List Fact) : List (Place × Write) := facts.filterMap write?

theorem written_append (a b : List Fact) : written (a ++ b) = written a ++ written b :=
  filterMap_append

theorem written_of_remarks {facts : List Fact} (h : ∀ fact ∈ facts, fact.isRemark = true) :
    written facts = [] := by
  refine filterMap_eq_nil_iff.2 fun fact hfact => ?_
  have hremark := h fact hfact
  cases fact with
  | wrote d w => cases hremark
  | _ => rfl

theorem writesAt_eq (q : Place) (facts : List Fact) :
    writesAt q facts = (written facts).filterMap fun entry => if entry.1 = q then
      some entry.2 else none := by
  rw [writesAt, written, filterMap_filterMap]
  refine filterMap_congr fun fact _ => ?_
  cases fact <;> rfl

end Fact

/--
The first write to a variable that is declared: the default of its declared type, or the value it is
declared with, under the type that is recorded for it.
-/
def VarDecl.firstWrite? (r : Registry) (type? : Place → Option Ty) (d : VarDecl) : Option Write :=
  match d.initializer with
  | none => (r.typeOf? d.typeExpr).toOption.join.bind fun t =>
    (r.default t).toOption.map fun v => ⟨.default, t, v, d.origin.span⟩
  | some e => (e.typeIn? type?).map fun t => ⟨.initializer, t, e.constant, d.origin.span⟩

/-- The write that an assignment leaves if it is checked to its end. -/
def Assignment.write? (r : Registry) (type? : Place → Option Ty) (a : Assignment) : Option Write :=
  match a.target.typeIn? type?, a.value.typeIn? type? with
  | some t, some found =>
    if (r.isAssignable t found).toOption = some true then
      some ⟨.assignment, found, a.value.constant, a.origin.span⟩
    else none
  | _, _ => none

/-- The write that a site leaves if checked to its end, with the place declaring the variable. -/
def Site.event? (r : Registry) (type? : Place → Option Ty) : Site → Option (Place × Write)
  | .declared d =>
    if (type? d.origin.place).isSome then (d.firstWrite? r type?).map (Prod.mk d.origin.place)
      else none
  | .assigned a => a.declaration?.bind fun q => (a.write? r type?).map (Prod.mk q)

namespace Assignment

variable {r : Registry} {type? : Place → Option Ty} {a : Assignment}

theorem write?_of_target (h : a.target.typeIn? type? = none) : a.write? r type? = none := by
  rw [write?, h]

theorem write?_of_value (h : a.value.typeIn? type? = none) : a.write? r type? = none := by
  rw [write?, h]
  cases a.target.typeIn? type? <;> rfl

theorem write?_of_types {t found : Ty} (ht : a.target.typeIn? type? = some t)
    (hfound : a.value.typeIn? type? = some found) : a.write? r type? =
      if (r.isAssignable t found).toOption = some true then
        some ⟨.assignment, found, a.value.constant, a.origin.span⟩
      else none := by
  rw [write?, ht, hfound]

theorem event?_eq_none (h : a.write? r type? = none) :
    Site.event? r type? (.assigned a) = none := by
  rw [Site.event?, h]
  cases a.declaration? <;> rfl

end Assignment

theorem Expr.typeIn?_congr {e : Expr} {type? other : Place → Option Ty}
    (h : ∀ p ∈ e.places, type? p = other p) : e.typeIn? type? = e.typeIn? other := by
  rcases ho : e.origin? with _ | o
  · rw [typeIn?, typeIn?, ho]
    rfl
  · rw [typeIn?, typeIn?, ho]
    exact h _ (mem_places_of_origin ho)

theorem Expr.typeIn?_eq_none {e : Expr} {type? : Place → Option Ty}
    (h : ∀ p ∈ e.places, type? p = none) : e.typeIn? type? = none := by
  rw [typeIn?_congr h, typeIn?]
  cases e.origin? <;> rfl

/-! ### Logs and sites -/

/-- A table has what facts say about places. -/
def AgreesOn (type? : Place → Option Ty) (facts : List Fact) (places : List Place) : Prop :=
  ∀ p ∈ places, type? p = Fact.typeAt? p facts

/-- Types are recorded for the given places only. -/
def Fact.Within (places : List Place) (facts : List Fact) : Prop := ∀ p ∈ recorded facts, p ∈ places

/-- Where two lists of facts are about places apart, a table agrees with both if with each. -/
theorem AgreesOn.append {type? : Place → Option Ty} {facts more : List Fact}
    {places others : List Place}
    (h : AgreesOn type? (facts ++ more) (places ++ others)) (hfacts : Fact.Within places facts)
    (hmore : Fact.Within others more) (hnodup : (places ++ others).Nodup) :
    AgreesOn type? facts places ∧ AgreesOn type? more others := by
  obtain ⟨-, -, hapart⟩ := nodup_append'.1 hnodup
  refine ⟨fun p hp => ?_, fun p hp => ?_⟩
  · rw [h p (mem_append_left _ hp), Fact.typeAt?_append,
      Fact.typeAt?_eq_none fun hmem => hapart hp (hmore p hmem), Option.none_or]
  · rw [h p (mem_append_right _ hp), Fact.typeAt?_append,
      Fact.typeAt?_eq_none fun hmem => hapart (hfacts p hmem) hp, Option.or_none]

/--
What facts say about the sites of a piece of syntax with the given places.  Types are recorded for
these places only.  A table that agrees with the facts on the places tells which sites have left
writes: these are the writes among the facts, in order, and every variable with a type has its first
write.
-/
structure Traced (r : Registry) (facts : List Fact) (places : List Place) (sites : List Site) :
    Prop where
  within : Fact.Within places facts
  account : places.Nodup → ∀ type?, AgreesOn type? facts places →
    Fact.written facts = sites.filterMap (Site.event? r type?) ∧
    ∀ d, .declared d ∈ sites → (type? d.origin.place).isSome = true →
      (d.firstWrite? r type?).isSome = true

namespace Traced

variable {r : Registry} {facts more : List Fact} {places others : List Place}
  {sites later : List Site}

/-- Facts about one piece of syntax and then facts about another. -/
theorem append (h : Traced r facts places sites) (h' : Traced r more others later) :
    Traced r (facts ++ more) (places ++ others) (sites ++ later) := by
  refine ⟨fun p hp => ?_, fun hnodup type? hagrees => ?_⟩
  · rw [Fact.recorded_append] at hp
    exact mem_append.2 ((mem_append.1 hp).imp (h.within p) (h'.within p))
  · obtain ⟨hplaces, hothers, -⟩ := nodup_append'.1 hnodup
    obtain ⟨hfacts, hmore⟩ := hagrees.append h.within h'.within hnodup
    obtain ⟨hwritten, hfirst⟩ := h.account hplaces type? hfacts
    obtain ⟨hwritten', hfirst'⟩ := h'.account hothers type? hmore
    refine ⟨?_, fun d hd => (mem_append.1 hd).elim (hfirst d) (hfirst' d)⟩
    rw [Fact.written_append, hwritten, hwritten', filterMap_append]

theorem perm (h : Traced r facts places sites) (hperm : places.Perm others) :
    Traced r facts others sites :=
  ⟨fun p hp => hperm.subset (h.within p hp), fun hnodup type? hagrees =>
    h.account (hperm.nodup_iff.2 hnodup) type? fun p hp => hagrees p (hperm.subset hp)⟩

/-- Facts without writes, about a piece of syntax without sites. -/
theorem plain (hwithin : Fact.Within places facts) (h : Fact.written facts = []) :
    Traced r facts places [] :=
  ⟨hwithin, fun _ _ _ => ⟨h, fun _ hd => absurd hd not_mem_nil⟩⟩

theorem remarks (h : ∀ fact ∈ facts, fact.isRemark = true) : Traced r facts places [] := by
  refine plain (fun q hq => ?_) (Fact.written_of_remarks h)
  rw [Fact.recorded_of_remarks h] at hq
  exact absurd hq not_mem_nil

/-- A piece of syntax that is never reached. -/
theorem unreached {v : Visible} (h : SitesIn v places sites) : Traced r [] places sites := by
  refine ⟨forall_mem_nil _, fun _ type? hagrees => ?_⟩
  have hnone (p : Place) (hp : p ∈ places) : type? p = none := hagrees p hp
  have hdeclared (d : VarDecl) (hd : .declared d ∈ sites) : type? d.origin.place = none :=
    hnone _ (h.declared _ hd _ rfl)
  refine ⟨?_, fun d hd hsome => ?_⟩
  · refine (filterMap_eq_nil_iff.2 fun site hsite => ?_).symm
    cases site with
    | declared d => rw [Site.event?, hdeclared d hsite]; rfl
    | assigned a =>
      have htarget : a.target.typeIn? type? = none :=
        Expr.typeIn?_eq_none fun p hp => hnone p ((h.assigned a hsite).1 hp)
      exact Assignment.event?_eq_none (Assignment.write?_of_target htarget)
  · rw [hdeclared d hd] at hsome
    cases hsome

end Traced

namespace Inference

variable {α β : Type} {r : Registry} {env : Env} {places others : List Place}
  {sites later : List Site} {v : Visible} {scopes : Scopes}

/-- One inference after another, about one piece of syntax and then about another. -/
theorem traced_bind {x : Inference α} {f : α → Inference β} (hx : Traced r x.log places sites)
    (hf : ∀ a, x.result = .ok a → Traced r (f a).log others later)
    (hlater : SitesIn v others later) :
    Traced r (x >>= f).log (places ++ others) (sites ++ later) := by
  rcases hresult : x.result with e | a
  · have h := hx.append (.unreached hlater)
    rwa [append_nil, ← log_bind_of_error hresult] at h
  · rw [log_bind_of_ok hresult]
    exact hx.append (hf a hresult)

/-- An inference about a piece of syntax without sites, before another. -/
theorem traced_behind {x : Inference α} {f : α → Inference β} (hx : Traced r x.log places [])
    (hf : ∀ a, x.result = .ok a → Traced r (f a).log others later)
    (hlater : SitesIn v others later) :
    Traced r (x >>= f).log (places ++ others) later :=
  traced_bind hx hf hlater

/-- An inference before another that neither records nor writes. -/
theorem traced_last {x : Inference α} {f : α → Inference β} (hx : Traced r x.log places sites)
    (hf : ∀ a, (f a).log = []) : Traced r (x >>= f).log places sites := by
  rcases hresult : x.result with e | a
  · rwa [log_bind_of_error hresult]
  · rwa [log_bind_of_ok hresult, hf, append_nil]

/-- What finds out what expressions do writes nothing. -/
theorem Leaves.unwritten {wordBits : Number} {spots : List Spot} {x : Inference α}
    (h : Leaves (Fact.OfExpr wordBits spots) x) : Fact.written x.log = [] := by
  refine filterMap_eq_nil_iff.2 fun fact hfact => ?_
  cases fact with
  | wrote d w => exact (h _ hfact).elim
  | _ => rfl

theorem Tracks.facts_within {marked : List Place} {x : Inference α} (h : Tracks r x places marked) :
    Fact.Within places x.log :=
  fun _ hp => not_imp_not.1 h.not_recorded hp

/-- Where no place occurs twice, no type is recorded twice. -/
theorem Tracks.recorded_nodup {marked : List Place} {x : Inference α} (h : Tracks r x places marked)
    (hnodup : places.Nodup) : (Fact.recorded x.log).Nodup :=
  nodup_iff_count_le_one.2 fun p => (h.types p).trans (nodup_iff_count_le_one.1 hnodup p)

theorem Told.traced {wordBits : Number} {spots : List Spot} {x : Inference α}
    (h : Told (Fact.OfExpr wordBits) r x spots) (hplaces : spots.map Prod.fst = places) :
    Traced r x.log places [] :=
  hplaces ▸ .plain h.tracks.facts_within h.leaves.unwritten

/-! ### Declarations -/

theorem define_log {what : String} {symbol : Symbol} {span : Span} :
    (define what scopes symbol span).log = [] := by
  rw [define]
  rcases scopes.define symbol with e | next | previous <;> rfl

/-- A declaration that fails leaves what its first write does; else type and write are noted. -/
theorem declare_log (env : Env) (d : VarDecl) :
    ((∃ e, (declare env d).result = .error e) ∧ (declare env d).log = (declaredWrite env d).log) ∨
      ∃ scopes t w n, (declare env d).result = .ok scopes ∧ (declaredWrite env d).result = .ok
        (t, w) ∧ (declare env d).log =
          (declaredWrite env d).log ++
          [.typed d.origin.place t, .wrote d.declaration w, .noted n] := by
  rcases hx : (declaredWrite env d).result with e | ⟨t, w⟩
  · exact .inl ⟨⟨e, result_bind_of_error hx⟩, log_bind_of_error hx⟩
  · rw [declare, log_bind_of_ok hx, result_bind_of_ok hx]
    rcases hdefine : (define "variable" env.scopes
        ⟨d.name, .variable, t, some d.origin.span, some d.declaration⟩ d.origin.span).result with
          e | scopes
    · rw [log_bind_of_error hdefine, result_bind_of_error hdefine, define_log, append_nil]
      exact .inl ⟨⟨e, rfl⟩, rfl⟩
    · rw [log_bind_of_ok hdefine, result_bind_of_ok hdefine, define_log]
      exact .inr ⟨_, t, w, _, rfl, rfl, rfl⟩

/-- The type of a variable is not found before its first write. -/
theorem declaredWrite_untyped {d : VarDecl} (h : d.origin.place ∉ Expr.placesOf? d.initializer) :
    Fact.typeAt? d.origin.place (declaredWrite env d).log = none := by
  rw [← Expr.spotsOf?_places] at h
  exact Fact.typeAt?_eq_none (declaredWrite_own.tracks.not_recorded h)

theorem declare_typed {d : VarDecl} (h : d.origin.place ∉ Expr.placesOf? d.initializer) :
    (Fact.typeAt? d.origin.place (declare env d).log).isSome = true ↔
      ∃ scopes, (declare env d).result = .ok scopes := by
  rcases declare_log env d with ⟨⟨e, hresult⟩, hlog⟩ | ⟨scopes, t, w, n, hresult, -, hlog⟩
  · rw [hlog, hresult, declaredWrite_untyped h]
    exact iff_of_false Bool.false_ne_true fun hok => by cases hok.choose_spec
  · rw [hlog, hresult, Fact.typeAt?_append, declaredWrite_untyped h, Option.or_none]
    exact iff_of_true (by simp [Fact.typeAt?]) ⟨scopes, rfl⟩

theorem firstWrite?_of_result {d : VarDecl} {t : Ty} {w : Write} {type? : Place → Option Ty}
    (h : (declaredWrite env d).result = .ok (t, w))
    (hinit : ∀ e declared found, d.initializer = some e → env.registry.typeOf? d.typeExpr = .ok
      declared → (infer env declared e).result = .ok found → e.typeIn? type? = some found) :
    d.firstWrite? env.registry type? = some w := by
  obtain ⟨declared, hdeclared, ⟨hnone, h⟩ | ⟨e, he, h⟩⟩ := declaredWrite_result h
  · obtain ⟨rfl, v, hv, rfl⟩ := defaultWrite_result h
    rw [VarDecl.firstWrite?, hnone]
    show (env.registry.typeOf? d.typeExpr).toOption.join.bind _ = _
    rw [hdeclared]
    show (env.registry.default t).toOption.map _ = _
    rw [hv]
    rfl
  · obtain ⟨found, hfound, rfl, -⟩ := initialWrite_result h
    rw [VarDecl.firstWrite?, he]
    show (e.typeIn? type?).map _ = _
    rw [hinit e declared found he hdeclared hfound]
    rfl

theorem mem_log_bind {x : Inference α} {f : α → Inference β} {fact : Fact} (h : fact ∈ x.log) :
    fact ∈ (x >>= f).log := by
  rcases hresult : x.result with e | a
  · rwa [log_bind_of_error hresult]
  · rw [log_bind_of_ok hresult]
    exact mem_append_left _ h

theorem mem_declare_log {d : VarDecl} {e : Expr} {declared : Option Ty} {fact : Fact}
    (he : d.initializer = some e)
    (hdeclared : env.registry.typeOf? d.typeExpr = .ok declared)
    (h : fact ∈ (infer env declared e).log) :
    fact ∈ (declare env d).log := by
  refine mem_log_bind ?_
  have hlift : (lift (env.registry.typeOf? d.typeExpr)).result = .ok declared := hdeclared
  rw [declaredWrite, log_bind_of_ok hlift, he]
  exact mem_append_right _ (mem_log_bind h)

/-- **A declaration leaves its first write exactly if its variable gets a type.** -/
theorem declare_traced {d : VarDecl} :
    Traced env.registry (declare env d).log (Stmt.declare d).places [.declared d] := by
  refine ⟨declare_records.facts_within, fun hnodup type? hagrees => ?_⟩
  obtain ⟨hnew, hinit⟩ := nodup_cons.1 hnodup
  have hunwritten : Fact.written (declaredWrite env d).log = [] :=
    declaredWrite_own.leaves.unwritten
  have huntyped : Fact.typeAt? d.origin.place (declaredWrite env d).log = none :=
    declaredWrite_untyped hnew
  have htype := hagrees _ mem_cons_self
  rcases declare_log env d with ⟨-, hlog⟩ | ⟨_, t, w, n, -, hresult, hlog⟩
  · -- the declaration fails, so its variable has no type
    rw [hlog, huntyped] at htype
    have hevent : Site.event? env.registry type? (.declared d) = none := by
      rw [Site.event?, htype]
      rfl
    refine ⟨?_, fun d' hd' hsome => ?_⟩
    · rw [hlog, hunwritten, filterMap_cons_none hevent]
      rfl
    · cases mem_singleton.1 hd'
      rw [htype] at hsome
      cases hsome
  · rw [hlog, Fact.typeAt?_append, huntyped, Option.or_none] at htype
    have hsome : type? d.origin.place = some t := by
      rw [htype]
      simp [Fact.typeAt?]
    have hfirst : d.firstWrite? env.registry type? = some w := by
      refine firstWrite?_of_result hresult fun e declared found he hdeclared hfound => ?_
      rw [he] at hinit
      -- the type of the initializer is recorded once, so it is the one in the table
      have hroot : e.typeIn? (Fact.typeAt? · (infer env declared e).log) = some found := by
        rw [infer_typeIn? hinit, hfound]
        rfl
      obtain ⟨o, ho, hroot⟩ := Option.bind_eq_some_iff.1 hroot
      have hmem := mem_declare_log he hdeclared (Fact.mem_of_typeAt? hroot)
      have hplace : o.place ∈ (Stmt.declare d).places := by
        rw [Stmt.places, he]
        exact mem_cons_of_mem _ (Expr.mem_places_of_origin ho)
      rw [Expr.typeIn?, ho, Option.bind_some, hagrees _ hplace]
      exact Fact.table_holds (declare_records.recorded_nodup hnodup) _ _ hmem
    refine ⟨?_, fun d' hd' _ => ?_⟩
    · have hevent : Site.event? env.registry type? (.declared d) = some (d.origin.place, w) := by
        rw [Site.event?, hsome, hfirst]
        rfl
      rw [hlog, Fact.written_append, hunwritten, filterMap_cons_some hevent]
      rfl
    · cases mem_singleton.1 hd'
      rw [hfirst]
      rfl

/-! ### Assignments -/

/--
An assignment that is checked to its end leaves the write that a table gives for it, to what its
target names.  Otherwise the table gives none, and none is left.
-/
structure Assigns (r : Registry) (type? : Place → Option Ty) (a : Assignment) (x : Inference Unit) :
    Prop where
  written : Fact.written x.log = (Site.event? r type? (.assigned a)).toList
  checked : (∃ u, x.result = .ok u) ↔ (a.write? r type?).isSome = true

namespace Assigns

variable {type? : Place → Option Ty} {a : Assignment} {x : Inference α} {f : α → Inference Unit}
  (hx : Fact.written x.log = [])

include hx

/-- Something that writes nothing, before the rest of an assignment. -/
theorem behind {i : α} (hi : x.result = .ok i) (h : Assigns r type? a (f i)) :
    Assigns r type? a (x >>= f) := by
  refine ⟨?_, ?_⟩
  · rw [log_bind_of_ok hi, Fact.written_append, hx, nil_append]
    exact h.written
  · rw [result_bind_of_ok hi]
    exact h.checked

/-- Where a part of an assignment fails, there is no write. -/
theorem failed {e : Failure} (he : x.result = .error e) (hnone : a.write? r type? = none) :
    Assigns r type? a (x >>= f) := by
  refine ⟨?_, ?_⟩
  · rw [log_bind_of_error he, hx, Assignment.event?_eq_none hnone]
    rfl
  · rw [result_bind_of_error he, hnone]
    exact iff_of_false (fun hok => by cases hok.choose_spec) Bool.false_ne_true

end Assigns

/-- An expression before another thing: a table that agrees with both has the expression's type. -/
theorem typeIn?_of_agrees {e : Expr} {expected : Option Ty} {f : Ty → Inference β}
    {type? : Place → Option Ty}
    (hf : ∀ t, Fact.Within others (f t).log) (hnodup : (e.places ++ others).Nodup)
    (h : AgreesOn type? (infer env expected e >>= f).log (e.places ++ others)) :
    e.typeIn? type? = (infer env expected e).result.toOption ∧
      ∀ t, (infer env expected e).result = .ok t → AgreesOn type? (f t).log others := by
  have hwithin : Fact.Within e.places (infer env expected e).log := infer_records.facts_within
  have htype (hagrees : AgreesOn type? (infer env expected e).log e.places) :
      e.typeIn? type? = (infer env expected e).result.toOption :=
    (Expr.typeIn?_congr hagrees).trans (infer_typeIn? (nodup_append'.1 hnodup).1)
  rcases hresult : (infer env expected e).result with err | t
  · rw [log_bind_of_error hresult] at h
    refine ⟨hresult ▸ htype fun p hp => h p (mem_append_left _ hp), fun t ht => ?_⟩
    cases ht
  · rw [log_bind_of_ok hresult] at h
    obtain ⟨hfirst, hrest⟩ := h.append hwithin (hf t) hnodup
    refine ⟨hresult ▸ htype hfirst, fun t' ht' => ?_⟩
    cases ht'
    exact hrest

theorem recordAssignment_written (h : env.scopes.Resolves v) (target : Expr) (w : Write) :
    Fact.written (recordAssignment env target w).log =
      ((target.declaration? v).map fun q => (q, w)).toList := by
  cases target with
  | identifier o name =>
    rw [recordAssignment, Expr.declaration?, ← h name]
    cases (env.scopes.lookup? name).bind Symbol.declaration? <;> rfl
  | _ => rfl

theorem recordAssignment_result {target : Expr} {w : Write} :
    ∃ u, (recordAssignment env target w).result = .ok u := by
  cases target with
  | identifier o name =>
    rw [recordAssignment]
    split <;> exact ⟨_, rfl⟩
  | _ => exact ⟨_, rfl⟩

theorem Quiet.unwritten {x : Inference α} (h : Quiet x) : Fact.written x.log = [] :=
  Fact.written_of_remarks h

theorem traced_quiet {x : Inference α} (h : Quiet x) : Traced r x.log places [] := .remarks h

theorem infer_unwritten (expected : Option Ty) (e : Expr) :
    Fact.written (infer env expected e).log = [] :=
  infer_told.leaves.unwritten

/-- What an assignment does behind the types of its sides. -/
def store (env : Env) (o : Origin) (target e : Expr) (t found : Ty) : Inference Unit := do
  requireAssignable env.registry t found (← spanOf e.span?)
  recordAssignment env target ⟨.assignment, found, e.constant, o.span⟩

theorem assign_eq (env : Env) (o : Origin) (target e : Expr) : assign env o target e = (do
    requireTarget env target
    let t ← infer env none target
    let found ← infer env (some t) e
    store env o target e t found) := rfl

theorem store_records {o : Origin} {target e : Expr} {t found : Ty} :
    Records env.registry (store env o target e t found) [] :=
  .skip spanOf_plain.silent fun _ => .skip requireAssignable_idle.silent fun _ =>
    recordAssignment_silent rfl

section Assigning

variable {v : Visible} (h : env.scopes.Resolves v) {o : Origin} {target e : Expr}
  {type? : Place → Option Ty} {t : Ty}

include h

/-- Behind the types of its sides, an assignment fails only if the one does not fit the other. -/
theorem store_assigns {found : Ty} (hfound : (infer env (some t) e).result = .ok found)
    (ht : target.typeIn? type? = some t) (hvalue : e.typeIn? type? = some found) :
    Assigns env.registry type? ⟨o, target, e, target.declaration? v⟩
      (store env o target e t found) := by
  have hwrite : Assignment.write? env.registry type? ⟨o, target, e, target.declaration? v⟩ = _ :=
    Assignment.write?_of_types ht hvalue
  obtain ⟨span, hspan⟩ := span_of_infer hfound
  have hresult : (spanOf e.span?).result = .ok span := by
    rw [hspan]
    rfl
  refine .behind (Quiet.unwritten spanOf_plain.leaves) hresult ?_
  rcases hok : (requireAssignable env.registry t found span).result with err | ⟨⟩
  · refine .failed requireAssignable_idle.quiet.unwritten hok ?_
    rw [hwrite, if_neg fun hassignable => ?_]
    have hpassed : (requireAssignable env.registry t found span).result = .ok () :=
      requireAssignable_result.2 (Except.toOption_eq_some.1 hassignable)
    rw [hok] at hpassed
    cases hpassed
  · refine .behind requireAssignable_idle.quiet.unwritten hok ?_
    rw [if_pos (Except.toOption_eq_some.2 (requireAssignable_result.1 hok))] at hwrite
    refine ⟨?_, iff_of_true recordAssignment_result (by rw [hwrite]; rfl)⟩
    rw [recordAssignment_written h, Site.event?, hwrite]
    cases target.declaration? v <;> rfl

/-- Behind the type of its target, an assignment leaves a write exactly if its value fits it. -/
theorem value_assigns (ht : target.typeIn? type? = some t) (hnodup : e.places.Nodup)
    (hagrees : AgreesOn type? (infer env (some t) e >>= store env o target e t).log e.places) :
    Assigns env.registry type? ⟨o, target, e, target.declaration? v⟩
      (infer env (some t) e >>= store env o target e t) := by
  have hstore (found : Ty) : Fact.Within [] (store env o target e t found).log :=
    store_records.facts_within
  rw [← append_nil e.places] at hnodup hagrees
  obtain ⟨hvalue, -⟩ := typeIn?_of_agrees hstore hnodup hagrees
  rcases hfound : (infer env (some t) e).result with err | found
  · rw [hfound] at hvalue
    exact .failed (infer_unwritten _ _) hfound (Assignment.write?_of_value hvalue)
  · rw [hfound] at hvalue
    exact .behind (infer_unwritten _ _) hfound (store_assigns h hfound ht hvalue)

/-- **An assignment is checked to its end exactly if its sides get types that go together.** -/
theorem assign_assigns (hnodup : (target.places ++ e.places).Nodup)
    (hagrees : AgreesOn type? (assign env o target e).log (target.places ++ e.places)) :
    Assigns env.registry type? ⟨o, target, e, target.declaration? v⟩ (assign env o target e) := by
  have hvalue (t : Ty) : Records env.registry (infer env (some t) e >>= store env o target e t)
      e.places :=
    .last infer_records fun _ => store_records
  rw [assign_eq] at hagrees ⊢
  rcases htarget : (requireTarget env target).result with err | ⟨⟩
  · refine .failed (Quiet.unwritten requireTarget_plain.leaves) htarget
      (Assignment.write?_of_target ?_)
    refine Expr.typeIn?_eq_none fun p hp => ?_
    rw [hagrees p (mem_append_left _ hp), log_bind_of_error htarget]
    exact Quiet.typeAt?_eq_none requireTarget_plain.leaves _
  · rw [log_bind_of_ok htarget] at hagrees
    have hboth : AgreesOn type? _ ([] ++ (target.places ++ e.places)) := hagrees
    obtain ⟨-, hsides⟩ := hboth.append (requireTarget_plain.silent (r := env.registry)).facts_within
      (Records.bind infer_records hvalue).facts_within hnodup
    obtain ⟨ht, hrest⟩ := typeIn?_of_agrees (fun t => (hvalue t).facts_within) hnodup hsides
    refine .behind (Quiet.unwritten requireTarget_plain.leaves) htarget ?_
    rcases hresult : (infer env none target).result with err | t
    · rw [hresult] at ht
      exact .failed (infer_unwritten _ _) hresult (Assignment.write?_of_target ht)
    · rw [hresult] at ht
      exact .behind (infer_unwritten _ _) hresult
        (value_assigns h ht (nodup_append'.1 hnodup).2.1 (hrest t hresult))

/-- An assignment leaves a write exactly if it is checked to its end, and its target is a name. -/
theorem assign_traced : Traced env.registry (assign env o target e).log (target.places ++ e.places)
    [.assigned ⟨o, target, e, target.declaration? v⟩] := by
  refine ⟨assign_records.facts_within, fun hnodup type? hagrees => ⟨?_, fun d hd => by
    cases mem_singleton.1 hd⟩⟩
  rw [(assign_assigns h hnodup hagrees).written, filterMap_cons]
  cases Site.event? env.registry type? (.assigned ⟨o, target, e, target.declaration? v⟩) <;> rfl

end Assigning

/-! ### Statements -/

/-- Behind a declaration, its variable is visible in addition. -/
theorem declare_resolves {d : VarDecl} (h : env.scopes.Resolves v)
    (hd : (declare env d).result = .ok scopes) :
    scopes.Resolves ((d.name, d.origin.place) :: v) := by
  obtain ⟨t, w, -, hdefine⟩ := declare_result hd
  exact h.define (define_result hdefine) rfl

/-- Behind a statement, what it declares is visible in addition. -/
theorem statement_resolves {around : Surroundings} {s : Stmt} (h : env.scopes.Resolves v)
    (hs : (statement env around s).result = .ok scopes) : scopes.Resolves (s.after v) := by
  obtain ⟨d, rfl, hdeclare⟩ | ⟨hother, rfl⟩ := statement_scopes hs
  · exact declare_resolves h hdeclare
  · cases s with
    | declare d => exact absurd rfl (hother d)
    | _ => exact h

/-- The writes of a statement are those of its sites, in whatever scopes it is checked. -/
def StmtTraced (s : Stmt) : Prop :=
  ∀ v env around, env.scopes.Resolves v → Traced env.registry (statement env around s).log
    s.places (s.sites v)

theorem traced_nothing : Traced r [] places [] := .plain (forall_mem_nil _) rfl

section Blocks

variable {v : Visible} (hv : env.scopes.Resolves v) {around : Surroundings}

include hv

theorem statements_traced {body : List Stmt} (h : ∀ s ∈ body, StmtTraced s) :
    Traced env.registry (statements env around body).log (Stmt.placesOfAll body)
      (Stmt.sitesOfAll v body) := by
  induction body generalizing env v with
  | nil => exact traced_nothing
  | cons s rest ih =>
    obtain ⟨hs, hrest⟩ := forall_mem_cons.1 h
    have hlater : SitesIn (s.after v) (Stmt.placesOfAll rest) (Stmt.sitesOfAll (s.after v) rest) :=
      Stmt.sitesOfAll_in fun s _ => s.sited
    refine traced_bind (hs v env around hv) (fun scopes hscopes => ?_) hlater
    have hafter : (env.withScopes scopes).scopes.Resolves (s.after v) :=
      statement_resolves hv hscopes
    exact ih hafter hrest

theorem block_traced {body : List Stmt} (h : ∀ s ∈ body, StmtTraced s) (scope : String) :
    Traced env.registry (statements (env.inside scope) around body).log (Stmt.placesOfAll body)
      (Stmt.sitesOfAll v body) :=
  statements_traced (show (env.inside scope).scopes.Resolves v from hv.push scope) h

theorem optionalBlock_traced {scope : String} {otherwise : Option (List Stmt)}
    (h : ∀ body ∈ otherwise, ∀ s ∈ body, StmtTraced s) :
    Traced env.registry (optionalBlock env around scope otherwise).log
      (Stmt.placesOfBlock? otherwise) (Stmt.sitesOfBlock? v otherwise) := by
  cases otherwise with
  | none => exact traced_nothing
  | some body => exact traced_last (block_traced hv (h body rfl) scope) fun _ => rfl

theorem branches_traced {more : List Branch} (h : ∀ b ∈ more, ∀ s ∈ b.body, StmtTraced s) :
    Traced env.registry (branches env around more).log (Stmt.placesOfBranches more)
      (Stmt.sitesOfBranches v more) := by
  induction more with
  | nil => exact traced_nothing
  | cons b rest ih =>
    obtain ⟨c, body⟩ := b
    obtain ⟨hb, hrest⟩ := forall_mem_cons.1 h
    have hcondition : Traced env.registry (condition env "elif condition" c).log c.places [] :=
      condition_told.traced c.spots_places
    have hlater : SitesIn v (Stmt.placesOfBranches rest) (Stmt.sitesOfBranches v rest) :=
      Stmt.sitesOfBranches_in fun b _ s _ => s.sited
    refine traced_behind hcondition (fun _ _ => ?_)
      ((Stmt.sitesOfAll_in fun s _ => s.sited).beside hlater)
    exact traced_bind (block_traced hv hb _) (fun _ _ => ih hrest) hlater

theorem cases_traced {subject : Ty} {arms : List Case}
    (h : ∀ a ∈ arms, ∀ s ∈ a.body, StmtTraced s) :
    Traced env.registry (cases env around subject arms).log (Stmt.placesOfCases arms)
      (Stmt.sitesOfCases v arms) := by
  induction arms with
  | nil => exact traced_nothing
  | cons a rest ih =>
    obtain ⟨values, body⟩ := a
    obtain ⟨ha, hrest⟩ := forall_mem_cons.1 h
    have hvalues : Traced env.registry (armValues env subject values).log (Expr.placesOfAll values)
        [] :=
      armValues_told.traced (Expr.spotsOfAll_places fun e _ => e.spots_places)
    have hlater : SitesIn v (Stmt.placesOfCases rest) (Stmt.sitesOfCases v rest) :=
      Stmt.sitesOfCases_in fun a _ s _ => s.sited
    refine traced_behind hvalues (fun _ _ => ?_)
      ((Stmt.sitesOfAll_in fun s _ => s.sited).beside hlater)
    exact traced_bind (block_traced hv ha _) (fun _ _ => ih hrest) hlater

end Blocks

theorem loopScope_traced {o : Origin} {name : String} {t : Ty} :
    Traced env.registry (loopScope env o name t).log [o.place] [] := by
  have htold : ExprTold env (loopScope env o name t) _ := loopScope_told.ofExpr
  exact htold.traced rfl

/-- In the body of a loop, the variable of the loop is visible. -/
theorem loopScope_resolves {o : Origin} {name : String} {t : Ty} (hv : env.scopes.Resolves v)
    (h : (loopScope env o name t).result = .ok scopes) :
    scopes.Resolves ((name, o.place) :: v) := by
  obtain ⟨next, hdefine, h⟩ := bind_result_eq_ok.1 h
  obtain rfl := Except.ok.inj h
  exact (hv.push "for loop").define (define_result hdefine) rfl

/-- **The writes of a statement are those of its sites.** -/
theorem stmtTraced (s : Stmt) : StmtTraced s := by
  induction s using Stmt.byForm with intro v env around hv
  | declare d => exact declare_traced
  | assign o target e => exact traced_last (assign_traced hv) fun _ => rfl
  | expr o e =>
    exact traced_last ((framed e env none).1.traced e.spots_places) fun _ => rfl
  | ret o e? =>
    exact traced_last (giveBack_told.traced (Expr.spotsOf?_places _)) fun _ => rfl
  | panic o e? =>
    exact traced_last (panicMessage_told.traced (Expr.spotsOf?_places _)) fun _ => rfl
  | brk o | cont o => exact traced_last (traced_quiet requireLoop_plain.leaves) fun _ => rfl
  | pass o => exact traced_nothing
  | cond o c body more otherwise hbody hmore hlast =>
    have hends : SitesIn v (Stmt.placesOfBlock? otherwise) (Stmt.sitesOfBlock? v otherwise) :=
      Stmt.sitesOfBlock?_in fun b _ s _ => s.sited
    have hlater := (Stmt.sitesOfBranches_in fun (b : Branch) (_ : b ∈ more) s _ => s.sited).beside
      hends
    refine traced_behind (condition_told.traced c.spots_places)
      (fun _ _ => ?_) ((Stmt.sitesOfAll_in fun s _ => s.sited).beside hlater)
    refine traced_bind (block_traced hv hbody _) (fun _ _ => ?_) hlater
    refine traced_bind (branches_traced hv hmore) (fun _ _ => ?_) hends
    exact traced_last (optionalBlock_traced hv hlast) fun _ => rfl
  | select o subject arms otherwise harms hlast =>
    have hends : SitesIn v (Stmt.placesOfBlock? otherwise) (Stmt.sitesOfBlock? v otherwise) :=
      Stmt.sitesOfBlock?_in fun b _ s _ => s.sited
    refine traced_behind (infer_told.traced subject.spots_places)
      (fun _ _ => ?_) ((Stmt.sitesOfCases_in fun a _ s _ => s.sited).beside hends)
    refine traced_bind (cases_traced hv harms) (fun _ _ => ?_) hends
    exact traced_last (optionalBlock_traced hv hlast) fun _ => rfl
  | loop o c body hbody =>
    refine traced_behind (condition_told.traced c.spots_places)
      (fun _ _ => ?_) (Stmt.sitesOfAll_in fun s _ => s.sited)
    exact traced_last (block_traced hv hbody _) fun _ => rfl
  | iterate o name e body hbody =>
    have hsites : SitesIn ((name, o.place) :: v) (Stmt.placesOfAll body)
        (Stmt.sitesOfAll ((name, o.place) :: v) body) :=
      Stmt.sitesOfAll_in fun s _ => s.sited
    have hloop : Traced env.registry (statement env around (.iterate o name e body)).log
        (e.places ++ ([o.place] ++ Stmt.placesOfAll body))
          (Stmt.sitesOfAll ((name, o.place) :: v) body) := by
      refine traced_behind (iterated_told.traced e.spots_places)
        (fun t _ => ?_) hsites.behind
      refine traced_behind loopScope_traced (fun scopes hscopes => ?_) hsites
      have hv' : ((env.withScopes scopes).inside "for body").scopes.Resolves
          ((name, o.place) :: v) :=
        (loopScope_resolves hv hscopes).push "for body"
      exact traced_last (statements_traced hv' hbody) fun _ => rfl
    exact hloop.perm perm_middle
  | block o body hbody => exact traced_last (block_traced hv hbody _) fun _ => rfl
  | foreign f => exact traced_nothing
  | unreadable => exact traced_nothing

/-! ### Functions -/

/-- Parameters leave no writes. -/
theorem parameters_traced {params : List Param} {types : List (String × Ty)} :
    Traced env.registry (parameters scopes params types).log (params.map fun p => p.origin.place)
      [] := by
  have htold : ExprTold env (parameters scopes params types) _ := parameters_told.ofExpr
  exact htold.traced (map_map ..)

/-- A receiver leaves no writes. -/
theorem receiver_traced {param : Option Param} {type : Option Ty} :
    Traced env.registry (receiver scopes param type).log (param.toList.map fun p => p.origin.place)
      [] := by
  have htold : ExprTold env (receiver scopes param type) _ := receiver_told.ofExpr
  exact htold.traced (map_map ..)

/-- Behind parameters, all of them are visible. -/
theorem parameters_resolves {params : List Param} {types : List (String × Ty)} {scopes' : Scopes}
    (hlength : types.length = params.length) (hv : scopes.Resolves v)
    (h : (parameters scopes params types).result = .ok scopes') :
    scopes'.Resolves (v.withParams params) := by
  induction params generalizing types scopes v with
  | nil =>
    obtain rfl : scopes = scopes' := Except.ok.inj h
    exact hv
  | cons p rest ih =>
    cases types with
    | nil => cases hlength
    | cons type types =>
      obtain ⟨next, hdefine, h⟩ := bind_result_eq_ok.1 h
      obtain ⟨_, -, h⟩ := bind_result_eq_ok.1 h
      exact ih (Nat.succ.inj hlength) (hv.define (define_result hdefine) rfl) h

/-- Behind a receiver, it is visible. -/
theorem receiver_resolves {param : Option Param} {type : Option Ty} {scopes' : Scopes}
    (hsome : type.isSome = param.isSome) (hv : scopes.Resolves v)
    (h : (receiver scopes param type).result = .ok scopes') :
    scopes'.Resolves (v.withParams param.toList) := by
  cases param with
  | none =>
    obtain rfl : scopes = scopes' := Except.ok.inj h
    exact hv
  | some p =>
    cases type with
    | none => cases hsome
    | some t =>
      obtain ⟨next, hdefine, h⟩ := bind_result_eq_ok.1 h
      obtain rfl := Except.ok.inj h
      exact hv.define (define_result hdefine) rfl

/-- **The writes of a function are those of its sites.** -/
theorem function_traced {f : FunctionDef} {signature : Signature} (hv : env.scopes.Resolves v)
    (hparams : signature.params.length = f.params.length)
    (hreceiver : signature.receiver.isSome = f.receiver.isSome) :
    Traced env.registry (function env f signature).log f.places (f.sites v) := by
  have hbody : SitesIn (f.visible v) (Stmt.placesOfAll f.body) (f.sites v) :=
    Stmt.sitesOfAll_in fun s _ => s.sited
  have hentered : Traced env.registry (function env f signature).log
      ((f.receiver.toList.map fun p => p.origin.place) ++
        ((f.params.map fun p => p.origin.place) ++ Stmt.placesOfAll f.body)) (f.sites v) := by
    refine traced_behind receiver_traced (fun scopes hscopes => ?_) hbody.behind
    have hr : scopes.Resolves (v.withParams f.receiver.toList) :=
      receiver_resolves hreceiver (hv.push _) hscopes
    refine traced_behind parameters_traced (fun scopes' hscopes' => ?_) hbody
    have hp : (env.withScopes scopes').scopes.Resolves (f.visible v) :=
      parameters_resolves hparams hr hscopes'
    exact traced_last (statements_traced hp fun s _ => stmtTraced s) fun _ => rfl
  refine hentered.perm (perm_append_comm.trans ?_)
  rw [FunctionDef.places, append_assoc]

end Inference

end TreeTyping
