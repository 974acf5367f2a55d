/-
Which types have a default, and which have a size.

Both are settled by what is in place in a type.  A size is found exactly when nothing there contains
itself; a struct that does is complained about, and an alias that does through arrays and aliases
alone keeps the recursion going for ever.  A default stops at a struct that is inside itself, so
only such an alias is left to keep it from ending.

That an alias in place keeps the default from ending has to be shown against this stop: it is met on
a way that enters no struct twice, since from the second time on the way could have been taken from
the first.
-/
import Mathlib.Tactic
import TreeTyping.Proofs.Registry.Produced

namespace TreeTyping.Registry

open List TreeTyping.Except
open Relation (TransGen ReflTransGen)

variable {r : Registry} {R : Ty → Ty → Prop} {t u : Ty} {n : Nominal}

/-! ### In place in a type over a registry -/

/-- Where all ways from a type end, none comes back. -/
theorem not_transGen_of_acc {a b : Ty} (h : Acc (flip R) a) (hpath : ReflTransGen R a b) :
    ¬TransGen R b b := by
  induction h with
  | intro a _ ih =>
    intro hself
    rcases hpath.cases_head with rfl | ⟨c, hc, hrest⟩
    · obtain ⟨c, hc, hrest⟩ := TransGen.head'_iff.1 hself
      exact ih c hc hrest hself
    · exact ih c hc hrest hself

/-- What is in place in a type over the registry is over it. -/
theorem InOrder.inline_over (h : r.InOrder) (hpath : ReflTransGen (r.Inline r.Holds) t u)
    (ht : r.Over t) : r.Over u := by
  induction hpath with
  | refl => exact ht
  | tail _ hstep ih =>
    cases hstep with
    | held hholds =>
      cases hholds with
      | behind hn => exact h.underlying_over ih hn
      | element => exact ih
    | @field s f hf =>
      intro m hm
      refine h.closed.references (.struct s) (ih _ mem_cons_self) m ?_
      unfold structFields at hf
      split at hf
      · next hd =>
          rw [Registration.referenced, hd]
          exact mem_flatMap.2 ⟨f, hf, hm⟩
      · cases hf

theorem Produced.struct_defined (h : r.Produced) (hn : r.containsType (.struct n) = true) :
    n.id ∈ r.identities := by
  induction h with
  | @registered types s h =>
    have hds := Registration.introduces_introduced types
    obtain ⟨hsweeping, -⟩ := Registration.run_settled h
    rcases (Registration.containsType_kept hds hsweeping.toSettling hsweeping.kept).1 hn with
      ⟨b, hb, htype⟩ | ⟨d, hd, htype, -⟩
    · simp only [Ty.builtins, mem_append, mem_map, mem_singleton] at hb
      rcases hb with ⟨p, -, rfl⟩ | rfl <;> cases htype
    · obtain ⟨i, hi⟩ := mem_iff_getElem?.1 hd
      have hid : n.id = i + 1 := by
        rw [hds.types i d hi] at htype
        cases hdecl : d.decl <;> rw [hdecl] at htype <;> cases htype
        rfl
      have hlt := (List.getElem?_eq_some_iff.1 hi).1
      rw [identities, hsweeping.definitions, mem_range, hid]
      simpa [Registration.linkedScope, Registration.scopeWith] using hlt
  | declared _ hadd ih =>
    obtain ⟨-, rfl⟩ := addMethod_iff.1 hadd
    exact ih hn
  | frozen _ ih => exact ih hn

/-! ### Ways that enter no struct twice -/

/-- The alias is in place in the type, on a way that enters open structs only, each once. -/
inductive Within (r : Registry) (R : Ty → Ty → Prop) : (Nat → Prop) → Ty → Nominal → Prop
  | held {opened : Nat → Prop} {t : Ty} {n : Nominal} (h : ReflTransGen R t (.alias n)) :
      Within r R opened t n
  | field {opened : Nat → Prop} {t : Ty} {n s : Nominal} {f : String × Ty}
      (h : ReflTransGen R t (.struct s))
      (hs : opened s.id) (hf : f ∈ r.structFields s)
      (hrest : Within r R (fun i => opened i ∧ i ≠ s.id) f.2 n) :
      Within r R opened t n

namespace Within

variable {opened : Nat → Prop}

theorem head (hstep : R t u) (h : r.Within R opened u n) : r.Within R opened t n := by
  cases h with
  | held h => exact .held (h.head hstep)
  | field h hs hf hrest => exact .field (h.head hstep) hs hf hrest

theorem mono {more : Nat → Prop} (h : r.Within R opened t n) (hmore : ∀ i, opened i → more i) :
    r.Within R more t n := by
  induction h generalizing more with
  | held h => exact .held h
  | field h hs hf _ ih => exact .field h (hmore _ hs) hf (ih fun i hi => ⟨hmore i hi.1, hi.2⟩)

/-- A way that enters a struct could start there. -/
theorem avoid (h : r.Within R opened t n) (s : Nominal) :
    r.Within R (fun i => opened i ∧ i ≠ s.id) t n ∨ r.Within R opened (.struct s) n := by
  induction h with
  | held h => exact .inl (.held h)
  | @field opened t n s' f h hs hf hrest ih =>
    by_cases hsame : s'.id = s.id
    · refine .inr (.field .refl (hsame ▸ hs) (structFields_congr hsame ▸ hf) ?_)
      rwa [← hsame]
    · rcases ih with hrest | hstart
      · refine .inl (.field h ⟨hs, hsame⟩ hf (hrest.mono fun i hi => ?_))
        exact ⟨⟨hi.1.1, hi.2⟩, hi.1.2⟩
      · exact .inr (hstart.mono fun i hi => hi.1)

end Within

theorem mem_identities_of_field {f : String × Ty} (hf : f ∈ r.structFields n) :
    n.id ∈ r.identities := by
  unfold structFields at hf
  split at hf
  · next hd => exact mem_range.2 (List.getElem?_eq_some_iff.1 hd).1
  · cases hf

/-- **Every alias in place is met on a way that enters no struct twice.** -/
theorem within_of_inline (h : ReflTransGen (r.Inline R) t (.alias n)) :
    r.Within R (fun i => i ∈ r.identities) t n := by
  induction h using ReflTransGen.head_induction_on with
  | refl => exact .held .refl
  | head hstep _ ih =>
    cases hstep with
    | held hstep => exact ih.head hstep
    | @field s f hf =>
      rcases ih.avoid s with hrest | hstart
      · exact .field .refl (mem_identities_of_field hf) hf hrest
      · exact hstart

/-! ### A default that is found -/

variable {structs aliases : List Nat} {v : Value}

/-- All that a default is filled with has one; behind an alias fewer aliases may be entered. -/
theorem defaultInside_fills (hstep : r.Fills t u) (h : r.defaultInside structs aliases t = .ok v) :
    ∃ left v', r.defaultInside structs left u = .ok v' ∧ left.length ≤ aliases.length ∧
      (t.isAlias = true → left.length < aliases.length) := by
  cases hstep with
  | @behind n _ hn =>
    rw [defaultInside, hn] at h
    dsimp only at h
    split at h
    · next hmem =>
        have hlt := length_erase_lt hmem
        exact ⟨_, v, h, hlt.le, fun _ => hlt⟩
    · cases h
  | @element _ length hlength =>
    rw [defaultInside, if_neg (by omega)] at h
    obtain ⟨v', hv', -⟩ := bind_eq_ok.1 h
    exact ⟨aliases, v', hv', le_rfl, by simp [Ty.isAlias]⟩

theorem defaultInside_along (hpath : ReflTransGen r.Fills t u)
    (h : r.defaultInside structs aliases t = .ok v) :
    ∃ left v', r.defaultInside structs left u = .ok v' ∧ left.length ≤ aliases.length := by
  induction hpath with
  | refl => exact ⟨aliases, v, h, le_rfl⟩
  | tail _ hstep ih =>
    obtain ⟨left, v', hv', hle⟩ := ih
    obtain ⟨left', v'', hv'', hle', -⟩ := defaultInside_fills hstep hv'
    exact ⟨left', v'', hv'', hle'.trans hle⟩

theorem not_transGen_of_defaultInside (h : r.defaultInside structs aliases (.alias n) = .ok v) :
    ¬TransGen r.Fills (.alias n) (.alias n) := by
  -- each time round fewer aliases may be entered
  induction hlength : aliases.length using Nat.strong_induction_on generalizing aliases v with
  | _ length ih =>
    intro hself
    obtain ⟨u, hstep, hrest⟩ := TransGen.head'_iff.1 hself
    obtain ⟨left, v', hv', -, hlt⟩ := defaultInside_fills hstep h
    obtain ⟨left', v'', hv'', hle⟩ := defaultInside_along hrest hv'
    exact ih left'.length (hlength ▸ hle.trans_lt (hlt rfl)) hv'' rfl hself

theorem defaultFields_mem {fields : Keyed Ty} {values : Keyed Value} {f : String × Ty}
    (hf : f ∈ fields)
    (h : r.defaultFields structs aliases fields = .ok values) :
    ∃ v, r.defaultInside structs aliases f.2 = .ok v := by
  induction fields generalizing values with
  | nil => cases hf
  | cons e rest ih =>
    rw [defaultFields] at h
    obtain ⟨v, hv, h⟩ := bind_eq_ok.1 h
    obtain ⟨vs, hvs, -⟩ := bind_eq_ok.1 h
    rcases mem_cons.1 hf with rfl | hf
    · exact ⟨v, hv⟩
    · exact ih hf hvs

theorem not_transGen_of_within {opened : Nat → Prop} (hwithin : r.Within r.Fills opened t n)
    (hopened : ∀ i, opened i → i ∈ structs) (h : r.defaultInside structs aliases t = .ok v) :
    ¬TransGen r.Fills (.alias n) (.alias n) := by
  induction hwithin generalizing structs aliases v with
  | held hpath =>
    obtain ⟨_, _, hv, -⟩ := defaultInside_along hpath h
    exact not_transGen_of_defaultInside hv
  | @field opened t n s f hpath hs hf _ ih =>
    obtain ⟨_, _, hv, -⟩ := defaultInside_along hpath h
    rw [defaultInside, dif_pos (hopened _ hs)] at hv
    obtain ⟨vs, hvs, -⟩ := bind_eq_ok.1 hv
    obtain ⟨v', hv'⟩ := defaultFields_mem hf hvs
    exact ih (fun i hi => (mem_erase_of_ne hi.2).2 (hopened i hi.1)) hv'

/-- **A default is found exactly when in place in the type no alias is filled with itself.** -/
theorem default_iff (t : Ty) :
    (∃ v, r.default t = .ok v) ∧ ¬r.Looped r.Fills t ∨ r.default t = .error .endless ∧
    r.Looped r.Fills t := by
  rcases h : r.default t with f | v
  · obtain ⟨rfl, hlooped⟩ := default_looped h
    exact .inr ⟨rfl, hlooped⟩
  · refine .inl ⟨⟨v, rfl⟩, ?_⟩
    rintro ⟨n, hn, hself⟩
    exact not_transGen_of_within (within_of_inline hn) (fun _ => id) h hself

/-- A size is the measure of a type where nothing contains itself; or a struct or alias does. -/
theorem Produced.size_ends (h : r.Produced) (ht : r.Over t) (bits : Int) :
    (∃ size : Int, r.size (.int bits) t = .ok (.int size) ∧ r.Measures (bits / 8) t size ∧
        ∀ u, ReflTransGen (r.Inline r.Holds) t u → ¬TransGen (r.Inline r.Holds) u u) ∨
      (∃ s, r.size (.int bits) t = .error (.of (.infiniteSize s.name) .nowhere) ∧
        ReflTransGen (r.Inline r.Holds) t (.struct s) ∧ TransGen (r.Inline r.Holds) (.struct s)
          (.struct s)) ∨
      r.size (.int bits) t = .error (.fault .endless) ∧ r.Looped r.Holds t := by
  have hplace {u : Ty} (hu : ReflTransGen (r.Inline r.Holds) t u) : r.Over u :=
    h.inOrder.inline_over hu ht
  have hsized := r.size_sized bits t
  generalize r.size (.int bits) t = x at hsized
  cases hsized with
  | whole size hacc hsize =>
    refine .inl ⟨size, rfl, hsize, fun u hu => ?_⟩
    exact not_transGen_of_acc (forall_mem_singleton.1 hacc) hu
  | endless hu hlooped =>
    obtain rfl := mem_singleton.1 hu
    exact .inr (.inr ⟨rfl, hlooped⟩)
  | @inside _ s hu hs hself =>
    obtain rfl := mem_singleton.1 hu
    have hdefined := h.struct_defined (hplace hs _ mem_cons_self)
    exact .inr (.inl ⟨s, rfl, hs, hself hdefined⟩)
  | lost hu hn herror =>
    obtain rfl := mem_singleton.1 hu
    obtain ⟨w, hw⟩ := h.inOrder.leads_total (hplace hn)
    cases herror.symm.trans (resolveUnderlying_eq_ok.2 hw)

/--
**Defaults and sizes end, except on aliases that hold themselves.**  The default of what an
annotation denotes is found, unless in place in it there is an alias that is filled with itself
through aliases and arrays that are not empty; then the recursion does not end.  Its size is a whole
number exactly when nothing in place in it contains itself.  Otherwise a struct that does is
complained about, or the recursion does not end on an alias that holds itself.
-/
theorem default_and_size_end (h : r.Produced) {e : TypeExpr} (ht : r.typeOf e = .ok t)
    (bits : Int) :
    ((∃ v, r.default t = .ok v) ∧ ¬r.Looped r.Fills t ∨ r.default t = .error .endless ∧
      r.Looped r.Fills t) ∧
    ((∃ size : Int, r.size (.int bits) t = .ok (.int size)) ∧
        (∀ u, ReflTransGen (r.Inline r.Holds) t u → ¬TransGen (r.Inline r.Holds) u u) ∨
      (∃ s, r.size (.int bits) t = .error (.of (.infiniteSize s.name) .nowhere) ∧
        ReflTransGen (r.Inline r.Holds) t (.struct s) ∧ TransGen (r.Inline r.Holds) (.struct s)
          (.struct s)) ∨
      r.size (.int bits) t = .error (.fault .endless) ∧ r.Looped r.Holds t) := by
  refine ⟨default_iff t, ?_⟩
  rcases h.size_ends (h.inOrder.typeOf_over ht) bits with ⟨size, hsize, -, hnone⟩ | hothers
  · exact .inl ⟨⟨size, hsize⟩, hnone⟩
  · exact .inr hothers

/-- An alias of pairs of itself, and a struct with a field of its own type and such pairs. -/
def rings : List (Entry TypeDecl) :=
  let type (name : String) : TypeExpr := .simple .nowhere name
  let array (length : Int) : TypeExpr := .generic .nowhere "array" [type "Ring"] (some length)
  [.proper (.alias .nowhere "Ring" (array 2)),
   .proper (.struct .nowhere "Node"
     [⟨⟨.root 0, .nowhere⟩, "next", type "Node"⟩, ⟨⟨.root 1, .nowhere⟩, "rings", array 0⟩])]

theorem rings_run : ∃ s, Registration.run {} rings = .ok s ∧
    s.registry.typeOf (.simple .nowhere "Ring") = .ok (.alias ⟨1, "Ring"⟩) ∧
    s.registry.typeOf (.simple .nowhere "Node") = .ok (.struct ⟨2, "Node"⟩) ∧
    s.registry.default (.alias ⟨1, "Ring"⟩) = .error .endless ∧
    s.registry.size (.int 64) (.alias ⟨1, "Ring"⟩) = .error (.fault .endless) ∧
    (s.registry.default (.struct ⟨2, "Node"⟩)).toOption.isSome = true ∧
    s.registry.size (.int 64) (.struct ⟨2, "Node"⟩) = .error
      (.of (.infiniteSize "Node") .nowhere) := by
  refine ⟨_, rfl, ?_, ?_, ?_, ?_, ?_, ?_⟩ <;> cbv

/-- The pairs have neither a default nor a size, and the struct is in place in itself. -/
theorem default_and_size_end_rings : ∃ r : Registry, r.Produced ∧
    r.typeOf (.simple .nowhere "Ring") = .ok (.alias ⟨1, "Ring"⟩) ∧
    r.Looped r.Fills (.alias ⟨1, "Ring"⟩) ∧ r.Looped r.Holds (.alias ⟨1, "Ring"⟩) ∧
    ¬r.Looped r.Fills (.struct ⟨2, "Node"⟩) ∧
    ∃ s, ReflTransGen (r.Inline r.Holds) (.struct ⟨2, "Node"⟩) (.struct s) ∧
      TransGen (r.Inline r.Holds) (.struct s) (.struct s) := by
  obtain ⟨s, hs, hring, hnode, hringDefault, hringSize, hnodeDefault, hnodeSize⟩ := rings_run
  have hproduced : s.registry.Produced := .registered hs
  have hends := default_and_size_end hproduced hring 64
  have hends' := default_and_size_end hproduced hnode 64
  refine ⟨s.registry, hproduced, hring, ?_, ?_, ?_, ?_⟩
  · rcases hends.1 with ⟨⟨v, hv⟩, -⟩ | ⟨-, hlooped⟩
    · cases hringDefault.symm.trans hv
    · exact hlooped
  · rcases hends.2 with ⟨⟨size, hsize⟩, -⟩ | ⟨n, hn, -⟩ | ⟨-, hlooped⟩
    · cases hringSize.symm.trans hsize
    · cases hringSize.symm.trans hn
    · exact hlooped
  · rcases hends'.1 with ⟨-, hnot⟩ | ⟨herror, -⟩
    · exact hnot
    · rw [herror] at hnodeDefault
      cases hnodeDefault
  · rcases hends'.2 with ⟨⟨size, hsize⟩, -⟩ | ⟨n, -, hplace, hself⟩ | ⟨herror, -⟩
    · cases hnodeSize.symm.trans hsize
    · exact ⟨n, hplace, hself⟩
    · cases hnodeSize.symm.trans herror

/-- The pairs are registered and can be written down, but have no default and no size. -/
theorem ring_without_end : ∃ s, Registration.run {} rings = .ok s ∧
    s.registry.typeOf (.simple .nowhere "Ring") = .ok (.alias ⟨1, "Ring"⟩) ∧
    s.registry.default (.alias ⟨1, "Ring"⟩) = .error .endless ∧
    s.registry.size (.int 64) (.alias ⟨1, "Ring"⟩) = .error (.fault .endless) := by
  obtain ⟨s, hs, hring, -, hdefault, hsize, -⟩ := rings_run
  exact ⟨s, hs, hring, hdefault, hsize⟩

/-! ### Structs that contain themselves -/

/-- In place in the type there is a struct that is in place in itself. -/
def Recursive (r : Registry) (t : Ty) : Prop :=
  ∃ s, ReflTransGen (r.Inline r.Holds) t (.struct s) ∧
    TransGen (r.Inline r.Holds) (.struct s) (.struct s)

/-- Where no alias holds itself, a size is found unless a struct in place is in place in itself. -/
theorem Produced.size_cases (h : r.Produced) (ht : r.Over t)
    (haliases : ∀ n, r.containsType (.alias n) = true → ¬r.HoldsItself n) (bits : Int) :
    (∃ size : Int, r.size (.int bits) t = .ok (.int size) ∧ r.Measures (bits / 8) t size ∧
      ¬r.Recursive t) ∨
      (∃ s, r.size (.int bits) t = .error (.of (.infiniteSize s) .nowhere)) ∧ r.Recursive t := by
  rcases h.size_ends ht bits with ⟨size, hsize, hmeasures, hnone⟩ | ⟨s, herror, hs, hself⟩ |
    ⟨-, n, hn, hself⟩
  · refine .inl ⟨size, hsize, hmeasures, ?_⟩
    rintro ⟨s, hs, hself⟩
    exact hnone _ hs hself
  · exact .inr ⟨⟨s.name, herror⟩, s, hs, hself⟩
  · exact absurd hself (haliases n (h.inOrder.inline_over hn ht _ mem_cons_self))

/--
**Sizes are exact where only structs contain themselves.**  In a registry that declarations have
produced, in which no alias holds itself through aliases and fixed arrays alone, the size of a type
over it is refused as a mismatch exactly when a struct in place in the type is in place in itself.
Otherwise it is the measure of the type.  Whether there is a size does not depend on the word.
-/
theorem size_eq_ok_iff (h : r.Produced) (ht : r.Over t)
    (haliases : ∀ n, r.containsType (.alias n) = true → ¬r.HoldsItself n) (bits : Int) :
    ((∃ f, r.size (.int bits) t = .error f ∧
      f.diagnostic?.bind Diagnostic.kind? = some .typeMismatch) ↔ r.Recursive t) ∧
    (¬r.Recursive t → ∃ size : Int, r.size (.int bits) t = .ok (.int size) ∧
      r.Measures (bits / 8) t size) ∧
    ((∃ size, r.size (.int 32) t = .ok size) ↔ ∃ size, r.size (.int 64) t = .ok size) := by
  have hfound (bits : Int) : (∃ size, r.size (.int bits) t = .ok size) ↔ ¬r.Recursive t := by
    rcases h.size_cases ht haliases bits with ⟨size, hsize, -, hnone⟩ | ⟨⟨s, herror⟩, hself⟩
    · exact iff_of_true ⟨_, hsize⟩ hnone
    · refine iff_of_false ?_ (not_not_intro hself)
      rintro ⟨size, hsize⟩
      cases herror.symm.trans hsize
  refine ⟨?_, ?_, (hfound 32).trans (hfound 64).symm⟩
  · rcases h.size_cases ht haliases bits with ⟨size, hsize, -, hnone⟩ | ⟨⟨s, herror⟩, hself⟩
    · refine iff_of_false ?_ hnone
      rintro ⟨f, hf, -⟩
      cases hsize.symm.trans hf
    · exact iff_of_true ⟨_, herror, rfl⟩ hself
  · intro hnone
    rcases h.size_cases ht haliases bits with ⟨size, hsize, hmeasures, -⟩ | ⟨-, hself⟩
    · exact ⟨size, hsize, hmeasures⟩
    · exact absurd hself hnone

/-- A struct with a list of itself, an alias of three of them, a struct with two of these side by
side, and a struct with an array of itself. -/
def boards : List (Entry TypeDecl) :=
  let type (name : String) : TypeExpr := .simple .nowhere name
  let array (element : String) (length : Int) : TypeExpr :=
    .generic .nowhere "array" [type element] (some length)
  let field (name : String) (e : TypeExpr) : Param := ⟨⟨.root 0, .nowhere⟩, name, e⟩
  let points : TypeExpr := .generic .nowhere "list" [type "Point"] none
  [.proper (.struct .nowhere "Point" [field "x" (type "int32"), field "near" points]),
   .proper (.alias .nowhere "Row" (array "Point" 3)),
   .proper (.struct .nowhere "Board" [field "top" (type "Row"), field "bottom" (type "Row")]),
   .proper (.struct .nowhere "Knot" [field "inner" (array "Knot" 2)])]

theorem boards_run : ∃ s, Registration.run {} boards = .ok s ∧
    ((∀ b ∈ s.registry.bindings, b.type.isAlias = true → b.type = .alias ⟨2, "Row"⟩) ∧
      s.registry.Over (.alias ⟨2, "Row"⟩) ∧ s.registry.Over (.struct ⟨3, "Board"⟩) ∧
      s.registry.Over (.struct ⟨4, "Knot"⟩)) ∧
    s.registry.size (.int 64) (.alias ⟨2, "Row"⟩) = .ok (.int 36) ∧
    s.registry.size (.int 64) (.struct ⟨3, "Board"⟩) = .ok (.int 72) ∧
    s.registry.size (.int 64) (.struct ⟨4, "Knot"⟩) = .error
      (.of (.infiniteSize "Knot") .nowhere) := by
  refine ⟨_, by cbv, ?_, ?_, ?_, ?_⟩
  · decide
  · cbv
  · cbv
  · cbv

/-- The two rows take 72 bytes, and the knot is in place in itself. -/
theorem size_eq_ok_iff_boards : ∃ r : Registry, r.Produced ∧
    r.Over (.struct ⟨3, "Board"⟩) ∧ r.Over (.struct ⟨4, "Knot"⟩) ∧
    (∀ n, r.containsType (.alias n) = true → ¬r.HoldsItself n) ∧
    r.Measures 8 (.struct ⟨3, "Board"⟩) 72 ∧ r.Recursive (.struct ⟨4, "Knot"⟩) := by
  obtain ⟨s, hs, ⟨hbindings, hrow, hboard, hknot⟩, hrowSize, hboardSize, hknotSize⟩ := boards_run
  have hproduced : s.registry.Produced := .registered hs
  have haliases : ∀ n, s.registry.containsType (.alias n) = true → ¬s.registry.HoldsItself n := by
    intro n hn hself
    obtain ⟨b, hb, htype⟩ := Option.map_eq_some_iff.1 (of_decide_eq_true hn)
    have hother := hbindings b (mem_of_find?_eq_some hb) (htype ▸ rfl)
    cases htype.symm.trans hother
    rcases hproduced.size_ends hrow 64 with ⟨_, -, -, hnone⟩ | ⟨_, herror, -⟩ | ⟨herror, -⟩
    · exact hnone _ .refl (hself.lift id fun _ _ => .held)
    · cases hrowSize.symm.trans herror
    · cases hrowSize.symm.trans herror
  obtain ⟨hrefused, hfound, -⟩ := size_eq_ok_iff hproduced hboard haliases 64
  refine ⟨s.registry, hproduced, hboard, hknot, haliases, ?_,
    (size_eq_ok_iff hproduced hknot haliases 64).1.1 ⟨_, hknotSize, rfl⟩⟩
  obtain ⟨size, hsize, hmeasures⟩ := hfound fun hself => by
    obtain ⟨f, hf, -⟩ := hrefused.2 hself
    cases hboardSize.symm.trans hf
  cases hboardSize.symm.trans hsize
  exact hmeasures

end TreeTyping.Registry
