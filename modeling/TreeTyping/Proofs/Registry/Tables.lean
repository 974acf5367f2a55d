/-
The tables of a registry.

A registry is kept in tables that calls write to one after the other: types by name, the places of
their definitions, the methods of every type, and the places of those.  What a call has written when
it fails stays written.  A method gets a table to go to before its name is looked for among the
methods of the type, and the place of a method stays where it is when the type is taken back.

The tables show a registry.  A call on them comes to what the registry says of it.  If that is a
failure, the tables are exactly the ones it was started on: a table that is made for a method is
empty, and no name is found in it.
-/
import Mathlib.Logic.Function.Basic
import TreeTyping.Proofs.Registry.Extension

namespace TreeTyping.Registry

open List
open Function (update)

/-- A call that changes a registry.  A type is bound to its own name. -/
inductive Change where
  | define (type : Ty) (span : Span)
  | remove (name : String)
  | addMethod (receiver : Ty) (name : String) (signature : Ty) (span : Span)
  | addMethodTo (receiver name : String) (signature : Ty) (span : Span)
  | freeze

/-- What a call comes to. -/
def attempt (r : Registry) : Change → Except Failure Registry
  | .define t span => r.define t.name t span
  | .remove name => r.remove name
  | .addMethod receiver name signature span => r.addMethod receiver name signature span
  | .addMethodTo receiver name signature span => r.addMethodTo receiver name signature span
  | .freeze => .ok r.freeze

/-- The registry with a type bound to its own name. -/
def withBinding (r : Registry) (t : Ty) (span : Span) : Registry :=
  { r with bindings := r.bindings ++ [⟨t.name, t, some span⟩] }

/-- The registry with a name taken back, and the methods of the type it was bound to. -/
def without (r : Registry) (name : String) : Registry :=
  { r with
    bindings := r.bindings.filter fun b => b.name ≠ name
    methods := r.methods.filter fun m => r.lookup? name ≠ some m.receiver }

section Changed

variable {r : Registry} {t : Ty}

theorem binding?_withBinding (hfree : r.binding? t.name = none) (span : Span) (name : String) :
    (r.withBinding t span).binding? name =
      if name = t.name then some ⟨t.name, t, some span⟩ else r.binding? name := by
  rw [binding?, withBinding, find?_append]
  by_cases hname : name = t.name
  · subst hname
    rw [show r.bindings.find? _ = none from hfree]
    simp
  · simp [binding?, hname, Ne.symm hname]

theorem binding?_without (name other : String) :
    (r.without name).binding? other = if other = name then none else r.binding? other := by
  rw [binding?, without, find?_filter]
  by_cases hother : other = name
  · simp [hother]
  · rw [if_neg hother, binding?]
    congr 1
    funext b
    by_cases hb : b.name = other <;> simp [hb, hother]

theorem methodsOf_without (name : String) (t : Ty) :
    (r.without name).methodsOf t = if r.lookup? name = some t then [] else r.methodsOf t := by
  rw [methodsOf, without, filter_filter]
  by_cases ht : r.lookup? name = some t
  · rw [if_pos ht, ht]
    simp [eq_comm]
  · rw [if_neg ht, methodsOf]
    congr 2
    funext m
    by_cases hm : m.receiver = t <;> simp [hm, ht]

theorem methodsOf_withMethod (e : MethodEntry) (t : Ty) : (r.withMethod e).methodsOf t =
    if e.receiver = t then r.methodsOf t ++ [(e.member.name, e.member)] else r.methodsOf t := by
  rw [methodsOf, withMethod, filter_append, map_append]
  by_cases he : e.receiver = t <;> simp [methodsOf, he]

theorem find?_methodsOf (t : Ty) (name : String) : (r.methodsOf t).find? name =
    (r.methods.find? fun m => m.receiver = t && m.member.name = name).map MethodEntry.member := by
  rw [methodsOf]
  induction r.methods with
  | nil => rfl
  | cons m rest ih =>
    by_cases ht : m.receiver = t
    · by_cases hname : m.member.name = name <;> simp [Keyed.find?, ht, hname, ih]
    · simp [ht, ih]

theorem remove_eq (name : String) :
    r.remove name = r.mutable >>= fun _ => .ok (r.without name) := by
  rw [without]
  unfold remove
  refine congrArg (r.mutable >>= ·) (funext fun _ => ?_)
  rcases r.lookup? name with _ | t <;> simp [eq_comm] <;> rfl

end Changed

structure Tables where
  types : Keyed Ty := Ty.builtins
  spans : String → Option Span := fun _ => none
  /-- The methods of a type by name; a type may have no table yet. -/
  methods : Ty → Option (Keyed Member) := fun _ => none
  methodSpans : Ty × String → Option Span := fun _ => none
  definitions : List Definition
  frozen : Bool := false

namespace Tables

/-! ### Calls -/

/-- A call on the tables.  What it has written stays when it fails. -/
abbrev Call := EStateM Failure Tables

/-- A step that writes nothing. -/
def look {α : Type} (x : Tables → Except Failure α) : Call α := fun s =>
  match x s with
  | .ok a => .ok a s
  | .error f => .error f s

def methodsOf (s : Tables) (t : Ty) : Keyed Member := (s.methods t).getD []

/-- The tables with one for the methods of a type, which is empty where there was none. -/
def withTable (s : Tables) (t : Ty) : Tables :=
  { s with methods := update s.methods t (some (s.methodsOf t)) }

def unfrozen : Call Unit :=
  look fun s => if s.frozen then .error (.fault .frozenRegistry) else .ok ()

def define (t : Ty) (span : Span) : Call Unit := do
  unfrozen
  look fun s =>
    if s.types.has t.name then complain (.duplicate "type" t.name (s.spans t.name)) span
    else .ok ()
  modify fun s => { s with types := s.types.insert t.name t }
  modify fun s => { s with spans := update s.spans t.name (some span) }

def remove (name : String) : Call Unit := do
  unfrozen
  let t? ← look fun s => .ok (s.types.find? name)
  modify fun s => { s with types := s.types.filter fun e => e.1 ≠ name }
  modify fun s => { s with spans := update s.spans name none }
  if let some t := t? then
    modify fun s => { s with methods := update s.methods t none }

/-- What is asked of the receiver of a method. -/
def receive (s : Tables) (receiver : Ty) (name : String) (span : Span) : Except Failure Unit :=
  match receiver with
  | .alias _ | .struct _ => do
    if s.types.find? receiver.name ≠ some receiver then
      complain (.unknownType receiver.name) span
    if (← ({ definitions := s.definitions } : Registry).structuralMembers receiver).has name then
      complain (.duplicate ("member of " ++ Cause.tick receiver.name) name none) span
  | receiver => complain (.methodReceiver receiver.name) span

/-- Writes a method to the table of its receiver, which is made before the name is looked for. -/
def declare (receiver : Ty) (name : String) (signature : Ty) (span : Span) : Call Unit := do
  modify (·.withTable receiver)
  look fun s =>
    if (s.methodsOf receiver).has name then
      complain (.duplicate ("method of " ++ Cause.tick receiver.name) name
        (s.methodSpans (receiver, name))) span
    else .ok ()
  modify fun s =>
    let methods := (s.methodsOf receiver).insert name ⟨name, .method, signature⟩
    { s with methods := update s.methods receiver (some methods) }
  modify fun s => { s with methodSpans := update s.methodSpans (receiver, name) (some span) }

def addMethod (receiver : Ty) (name : String) (signature : Ty) (span : Span) : Call Unit := do
  unfrozen
  look fun s => s.receive receiver name span
  declare receiver name signature span

def call : Change → Call Unit
  | .define t span => define t span
  | .remove name => remove name
  | .addMethod receiver name signature span => addMethod receiver name signature span
  | .addMethodTo receiver name signature span => do
    unfrozen
    let t ← look fun s =>
      (s.types.find? receiver).elim (complain (.unknownType receiver) span) .ok
    addMethod t name signature span
  | .freeze => modify fun s => { s with frozen := true }

/-- The tables that a call leaves, whatever it comes to. -/
def after (s : Tables) (c : Change) : Tables :=
  match call c s with
  | .ok _ s' | .error _ s' => s'

/-- The tables that several calls leave. -/
def afterAll (s : Tables) (calls : List Change) : Tables := calls.foldl after s

/-! ### What tables show -/

/-- The tables hold the types, methods and places of a registry. -/
structure Shows (s : Tables) (r : Registry) : Prop where
  types : s.types = r.bindings.map fun b => (b.name, b.type)
  spans : ∀ name, s.spans name = r.definitionSpan? name
  methods : ∀ t, s.methodsOf t = r.methodsOf t
  methodSpans : ∀ m ∈ r.methods, s.methodSpans (m.receiver, m.member.name) = some m.span
  definitions : s.definitions = r.definitions
  frozen : s.frozen = r.frozen

/-- A call comes to what is said of it.  Where that is a failure the tables are what they were. -/
structure Answers (s : Tables) (x : Except Failure Registry) (m : Call Unit) : Prop where
  fails : ∀ f, x = .error f → m s = .error f s
  succeeds : ∀ r, x = .ok r → ∃ s', m s = .ok () s' ∧ s'.Shows r

variable {s s' : Tables} {r : Registry} {x : Except Failure Registry} {k : Call Unit}

theorem methodsOf_withTable (t : Ty) : (s.withTable t).methodsOf t = s.methodsOf t := by
  simp [methodsOf, withTable]

/-- A table in which a name is found was there before. -/
theorem withTable_eq {t : Ty} {name : String} {m : Member}
    (h : (s.methodsOf t).find? name = some m) : s.withTable t = s := by
  rw [withTable]
  cases hown : s.methods t with
  | none =>
    rw [methodsOf, hown] at h
    cases h
  | some own => rw [methodsOf, hown, Option.getD_some, ← hown, Function.update_eq_self]

theorem Shows.lookup? (h : s.Shows r) (name : String) : s.types.find? name = r.lookup? name := by
  rw [h.types, Registry.lookup?, binding?]
  induction r.bindings with
  | nil => rfl
  | cons b rest ih =>
    rw [map_cons, Keyed.find?, find?_cons]
    by_cases hb : b.name = name <;> simp [hb, ih]

theorem Shows.fresh (definitions : List Definition) :
    ({ definitions } : Tables).Shows { definitions } := by
  refine ⟨?_, fun name => ?_, fun _ => rfl, forall_mem_nil _, rfl, rfl⟩
  · rw [map_map]
    exact (map_id _).symm
  · rw [definitionSpan?, binding?]
    rcases hb : List.find? _ _ with _ | b
    · rfl
    · obtain ⟨builtin, -, rfl⟩ := mem_map.1 (mem_of_find?_eq_some hb)
      rfl

section Look

variable {α : Type} {y : Tables → Except Failure α}

theorem look_bind_ok {a : α} (hy : y s = .ok a) (k : α → Call Unit) :
    (look y >>= k) s = k a s := by
  show EStateM.bind (look y) k s = _
  rw [EStateM.bind, look, hy]

theorem look_bind_error {f : Failure} (hy : y s = .error f) (k : α → Call Unit) :
    (look y >>= k) s = .error f s := by
  show EStateM.bind (look y) k s = _
  rw [EStateM.bind, look, hy]

end Look

namespace Answers

theorem wrote (hm : k s = .ok () s') (h : s'.Shows r) : Answers s (.ok r) k := by
  refine ⟨fun f hf => ?_, fun r' hr => ?_⟩
  · cases hf
  · cases hr
    exact ⟨s', hm, h⟩

theorem of_error {f : Failure} (h : Answers s x k) (hk : k s = .error f s') :
    s' = s ∧ x = .error f := by
  rcases x with f' | r
  · have hsame := hk.symm.trans (h.fails f' rfl)
    cases hsame
    exact ⟨rfl, rfl⟩
  · obtain ⟨s'', hs'', -⟩ := h.succeeds r rfl
    cases hk.symm.trans hs''

theorem of_ok (h : Answers s x k) (hk : k s = .ok () s') : ∃ r, x = .ok r ∧ s'.Shows r := by
  rcases x with f | r
  · cases hk.symm.trans (h.fails f rfl)
  · obtain ⟨s'', hs'', hr⟩ := h.succeeds r rfl
    cases hk.symm.trans hs''
    exact ⟨r, rfl, hr⟩

section Look

variable {α : Type} {y : Tables → Except Failure α} {k : α → Call Unit}

theorem look_ok {a : α} (hy : y s = .ok a) (h : Answers s x (k a)) :
    Answers s x (look y >>= k) :=
  ⟨fun f hf => (look_bind_ok hy k).trans (h.fails f hf),
    fun r hr => look_bind_ok hy k ▸ h.succeeds r hr⟩

theorem look_error {f : Failure} (hy : y s = .error f) : Answers s (.error f) (look y >>= k) := by
  refine ⟨fun f' hf => ?_, fun r hr => ?_⟩
  · cases hf
    exact look_bind_error hy k
  · cases hr

end Look

theorem unfrozen (h : s.Shows r) (hk : Answers s x k) :
    Answers s (r.mutable >>= fun _ => x) (unfrozen >>= fun _ => k) := by
  have hfrozen := h.frozen
  rw [mutable]
  cases hr : r.frozen <;> rw [hr] at hfrozen
  · exact look_ok (by rw [hfrozen]; rfl) hk
  · exact look_error (by rw [hfrozen]; rfl)

end Answers

theorem after_of_refused {c : Change} {f : Failure} (h : call c s = .error f s') :
    s.after c = s' := by
  rw [after, h]

/-! ### Every call -/

namespace Shows

theorem define (h : s.Shows r) (t : Ty) (span : Span) :
    Answers s (r.define t.name t span) (define t span) := by
  refine .unfrozen h ?_
  have hlookup := h.lookup? t.name
  have hspan := h.spans t.name
  rw [Registry.lookup?] at hlookup
  rw [definitionSpan?] at hspan
  rcases hb : r.binding? t.name with _ | previous <;> rw [hb] at hlookup hspan
  · refine .look_ok (a := ()) (by simp [Keyed.has, hlookup]) (.wrote rfl ?_)
    refine ⟨?_, fun name => ?_, h.methods, h.methodSpans, h.definitions, h.frozen⟩
    · show s.types.insert t.name t = _
      rw [Keyed.insert_of_find?_eq_none hlookup, h.types, map_append]
      rfl
    · show update s.spans t.name _ name = ((r.withBinding t span).binding? name).bind _
      rw [binding?_withBinding hb, Function.update_apply, h.spans]
      split <;> rfl
  · exact .look_error (by simp [Keyed.has, hlookup, hspan]; rfl)

theorem remove (h : s.Shows r) (name : String) : Answers s (r.remove name) (remove name) := by
  rw [remove_eq]
  refine .unfrozen h (.look_ok (by rw [h.lookup?]) ?_)
  have htypes : (s.types.filter fun e => e.1 ≠ name) =
      (r.without name).bindings.map fun b => (b.name, b.type) := by
    rw [h.types, filter_map]
    rfl
  have hspans (other : String) :
      update s.spans name none other = (r.without name).definitionSpan? other := by
    rw [definitionSpan?, binding?_without, Function.update_apply, h.spans]
    split <;> rfl
  have hmethodSpans : ∀ m ∈ (r.without name).methods,
      s.methodSpans (m.receiver, m.member.name) = some m.span :=
    fun m hm => h.methodSpans m (mem_filter.1 hm).1
  rcases hlookup : r.lookup? name with _ | t
  · refine .wrote rfl ⟨htypes, hspans, fun u => ?_, hmethodSpans, h.definitions, h.frozen⟩
    rw [methodsOf_without, hlookup]
    exact h.methods u
  · refine .wrote rfl ⟨htypes, hspans, fun u => ?_, hmethodSpans, h.definitions, h.frozen⟩
    show (update s.methods t none u).getD [] = _
    rw [methodsOf_without, hlookup, Function.update_apply, ← h.methods u]
    by_cases hu : u = t
    · simp [hu]
    · simp [hu, Ne.symm hu, methodsOf]

/-- What is asked of an alias or struct before anything is written. -/
theorem receive_eq (h : s.Shows r) {receiver : Ty} (hreceives : Receives receiver) (name : String)
    (span : Span) : s.receive receiver name span =
      if !r.containsType receiver then complain (.unknownType receiver.name) span
      else r.structuralMembers receiver >>= fun members =>
        if members.has name then
          complain (.duplicate ("member of " ++ Cause.tick receiver.name) name none) span
        else .ok () := by
  rcases hreceives with ⟨n, rfl⟩ | ⟨n, rfl⟩
  all_goals
    unfold receive
    dsimp only
    rw [h.lookup?, structuralMembers_congr h.definitions]
    cases hthere : r.containsType _
    · rw [if_pos (of_decide_eq_false hthere)]
      rfl
    · rw [if_neg (not_not.2 (of_decide_eq_true hthere))]
      rfl

/-- **A method is added, or nothing is changed by the attempt.** -/
theorem declare (h : s.Shows r) (receiver : Ty) (name : String) (signature : Ty) (span : Span) :
    Answers s ((r.methods.find? fun m => m.receiver = receiver && m.member.name = name).elim
      (.ok (r.withMethod ⟨receiver, ⟨name, .method, signature⟩, span⟩)) fun previous =>
        complain (.duplicate ("method of " ++ Cause.tick receiver.name) name (some previous.span))
          span)
      (declare receiver name signature span) := by
  have hfound : (s.methodsOf receiver).find? name = _ := h.methods receiver ▸ find?_methodsOf ..
  rcases hfind : r.methods.find? fun m => m.receiver = receiver && m.member.name = name with
    _ | previous <;> rw [hfind] at hfound ⊢
  · refine .wrote ((look_bind_ok (a := ()) (if_neg ?_) _).trans rfl) ?_
    · simp [methodsOf_withTable, Keyed.has, hfound]
    refine ⟨h.types, h.spans, fun t => ?_, fun m hm => ?_, h.definitions, h.frozen⟩
    · show (update (update s.methods receiver _) receiver
        (some (((s.withTable receiver).methodsOf receiver).insert name _)) t).getD [] = _
      rw [methodsOf_withTable, Keyed.insert_of_find?_eq_none hfound, methodsOf_withMethod,
        Function.update_idem, Function.update_apply, ← h.methods]
      by_cases ht : t = receiver
      · simp [ht]
      · simp [ht, Ne.symm ht, methodsOf]
    · show update s.methodSpans (receiver, name) _ _ = _
      rcases mem_append.1 hm with hm | hm
      · rw [Function.update_of_ne, h.methodSpans m hm]
        intro hsame
        exact find?_method_eq_none.1 hfind m hm (congrArg Prod.fst hsame) (congrArg Prod.snd hsame)
      · obtain rfl := mem_singleton.1 hm
        exact Function.update_self ..
  · have hspan : s.methodSpans (receiver, name) = some previous.span := by
      have hprevious := find?_some hfind
      simp only [Bool.and_eq_true, decide_eq_true_eq] at hprevious
      rw [← hprevious.1, ← hprevious.2]
      exact h.methodSpans previous (mem_of_find?_eq_some hfind)
    refine ⟨fun f hf => ?_, fun r hr => ?_⟩
    · cases hf
      show (look _ >>= _) (s.withTable receiver) = _
      rw [withTable_eq hfound]
      refine look_bind_error ((if_pos ?_).trans (by rw [hspan]; rfl)) _
      rw [Keyed.has, hfound]
      rfl
    · cases hr

theorem addMethod (h : s.Shows r) (receiver : Ty) (name : String) (signature : Ty) (span : Span) :
    Answers s (r.addMethod receiver name signature span)
      (addMethod receiver name signature span) := by
  by_cases hreceives : Receives receiver
  · rw [addMethod_receives _ _ _ hreceives]
    refine .unfrozen h ?_
    have hreceive := h.receive_eq hreceives name span
    cases hthere : r.containsType receiver <;> rw [hthere] at hreceive
    · exact .look_error hreceive
    rcases hmembers : r.structuralMembers receiver with f | members <;> rw [hmembers] at hreceive
    · exact .look_error hreceive
    replace hreceive : s.receive receiver name span = if members.has name then
        complain (.duplicate ("member of " ++ Cause.tick receiver.name) name none) span
      else .ok () := hreceive
    show Answers s (if members.has name then _ else _) _
    split
    · next hhas => exact .look_error (hreceive.trans (if_pos hhas))
    next hhas =>
    exact .look_ok (hreceive.trans (if_neg hhas)) (h.declare receiver name signature span)
  · rw [addMethod_refuses _ _ _ hreceives]
    refine .unfrozen h (.look_error ?_)
    unfold receive
    split
    · exact absurd (.inl ⟨_, rfl⟩) hreceives
    · exact absurd (.inr ⟨_, rfl⟩) hreceives
    · rfl

/-- **A call on the tables of a registry comes to what the registry says of it.** -/
theorem call (h : s.Shows r) (c : Change) : Answers s (r.attempt c) (call c) := by
  cases c with
  | define t span => exact h.define t span
  | remove name => exact h.remove name
  | addMethod receiver name signature span => exact h.addMethod receiver name signature span
  | addMethodTo receiver name signature span =>
    refine .unfrozen h ?_
    have hlookup := h.lookup? receiver
    rw [resolve]
    rcases hr : r.lookup? receiver with _ | t <;> rw [hr] at hlookup
    · exact .look_error (by rw [hlookup]; rfl)
    · exact .look_ok (by rw [hlookup]; rfl) (h.addMethod t name signature span)
  | freeze =>
    exact .wrote rfl ⟨h.types, h.spans, h.methods, h.methodSpans, h.definitions, rfl⟩

theorem after_of_ok (h : s.Shows r) {c : Change} {r' : Registry} (hc : r.attempt c = .ok r') :
    (s.after c).Shows r' := by
  obtain ⟨s', hs', hr'⟩ := (h.call c).succeeds r' hc
  rw [after, hs']
  exact hr'

theorem after_of_error (h : s.Shows r) {c : Change} {f : Failure} (hc : r.attempt c = .error f) :
    s.after c = s :=
  after_of_refused ((h.call c).fails f hc)

end Shows

/-- Frozen tables stay as they are. -/
theorem after_frozen (h : s.frozen = true) (c : Change) : s.after c = s := by
  have hrefused (k : Unit → Call Unit) : (unfrozen >>= k) s = .error (.fault .frozenRegistry) s :=
    look_bind_error (by rw [h]; rfl) k
  cases c with
  | freeze =>
    show { s with frozen := true } = s
    rw [← h]
  | _ => exact after_of_refused (hrefused _)

theorem afterAll_frozen (h : s.frozen = true) (calls : List Change) : s.afterAll calls = s := by
  induction calls with
  | nil => rfl
  | cons c rest ih =>
    rw [afterAll, foldl_cons, after_frozen h]
    exact ih

end Tables

end TreeTyping.Registry
