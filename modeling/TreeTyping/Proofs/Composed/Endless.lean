/-
What has neither a size nor a default.

A default or a size is never finished for one reason only: in place in the type there is an alias
that holds itself, through arrays of fixed length and other aliases alone.  Both recursions keep the
list of the aliases that may still be entered before the next struct is.  An alias that is no longer
on it has been entered, and all that was entered since then was entered through arrays of fixed
length and aliases; so what is being looked at is held by every alias that is off the list.  When
one of these is met again, it is held by itself.  The list of the structs that may still be entered
is kept in the same way, so a struct of which a size is refused is in place in itself.

Sizes are whole numbers where the word size is one, and then no sum or product is too large.  A size
that is found has been found for all that is in place in the type, so nothing there contains itself.
-/
import Mathlib.Algebra.Ring.Int.Defs
import Mathlib.Data.List.Forall2
import Mathlib.Logic.Relation
import TreeTyping.Composed.Size
import TreeTyping.Proofs.Registry.Callable

namespace TreeTyping

open List

/-- Whether a value of a type is a handle, of one word. -/
def Ty.isHandle : Ty → Bool
  | .array _ none | .hashMap _ _ | .hashSet _ | .list _ | .map _ _ | .set _ | .function _ _ => true
  | _ => false

namespace Registry

open Relation (TransGen ReflTransGen)

variable {r : Registry}

/-- What a value holds in place: what an alias stands for, and the elements of a fixed array. -/
inductive Holds (r : Registry) : Ty → Ty → Prop
  | behind {n : Nominal} {t : Ty} (h : r.underlying? n = some t) : Holds r (.alias n) t
  | element {e : Ty} {length : Int} : Holds r (.array e (some length)) e

/-- An alias holds itself, through fixed arrays and aliases alone. -/
def HoldsItself (r : Registry) (n : Nominal) : Prop := TransGen r.Holds (.alias n) (.alias n)

/-- A recursion without end, on an alias that holds itself. -/
def Unending (r : Registry) (f : Fault) : Prop := f = .endless ∧ ∃ n, r.HoldsItself n

/-- What a default is filled with: what an alias stands for, and any elements of a fixed array. -/
inductive Fills (r : Registry) : Ty → Ty → Prop
  | behind {n : Nominal} {t : Ty} (h : r.underlying? n = some t) : Fills r (.alias n) t
  | element {e : Ty} {length : Int} (h : 0 < length) : Fills r (.array e (some length)) e

theorem Fills.holds {t u : Ty} (h : r.Fills t u) : r.Holds t u := by
  cases h with
  | behind h => exact .behind h
  | element h => exact .element

/-- What is in place in a value of a type: what it holds, and the fields of a struct. -/
inductive Inline (r : Registry) (R : Ty → Ty → Prop) : Ty → Ty → Prop
  | held {t u : Ty} (h : R t u) : Inline r R t u
  | field {n : Nominal} {f : String × Ty} (h : f ∈ r.structFields n) : Inline r R (.struct n) f.2

/-- In place in the type there is an alias that leads back to itself. -/
def Looped (r : Registry) (R : Ty → Ty → Prop) (t : Ty) : Prop :=
  ∃ n, ReflTransGen (r.Inline R) t (.alias n) ∧ TransGen R (.alias n) (.alias n)

variable {R : Ty → Ty → Prop}

theorem Looped.step {t u : Ty} (hstep : r.Inline R t u) (h : r.Looped R u) : r.Looped R t := by
  obtain ⟨n, hn, hself⟩ := h
  exact ⟨n, hn.head hstep, hself⟩

theorem mem_identities {n : Nominal} {t : Ty} (h : r.underlying? n = some t) :
    n.id ∈ r.identities :=
  mem_range.2 (lt_definitions h)

theorem Holds.congr {n n' : Nominal} {t : Ty} (hid : n'.id = n.id) (h : r.Holds (.alias n') t) :
    r.Holds (.alias n) t := by
  cases h with
  | behind h => exact .behind (underlying?_congr hid ▸ h)

theorem Fills.congr {n n' : Nominal} {t : Ty} (hid : n'.id = n.id) (h : r.Fills (.alias n') t) :
    r.Fills (.alias n) t := by
  cases h with
  | behind h => exact .behind (underlying?_congr hid ▸ h)

theorem structFields_congr {n n' : Nominal} (hid : n'.id = n.id) :
    r.structFields n' = r.structFields n := by
  rw [structFields, structFields, hid]

theorem Leads.holds {t w : Ty} (h : r.Leads t w) : ReflTransGen r.Holds t w := by
  induction h with
  | done _ => exact .refl
  | step hn _ ih => exact ReflTransGen.head (.behind hn) ih

theorem Leads.behind {n : Nominal} {w : Ty} (h : r.Leads (.alias n) w) :
    ∃ u, r.underlying? n = some u ∧ TransGen r.Holds (.alias n) w := by
  cases h with
  | done h => cases h
  | step hn h => exact ⟨_, hn, TransGen.head' (.behind hn) h.holds⟩

/-! ### What has been entered -/

/-- The types made of identities that are not left have been entered: they lead to the type. -/
def Entered (r : Registry) (R : Ty → Ty → Prop) (made : Nominal → Ty) (left : List Nat) (t : Ty) :
    Prop :=
  ∀ i ∈ r.identities, i ∉ left → ∃ n : Nominal, n.id = i ∧ TransGen R (made n) t

namespace Entered

variable {made : Nominal → Ty} {left : List Nat} {t u : Ty} {n : Nominal}

theorem identities : r.Entered R made r.identities t := fun _ hi hnot => absurd hi hnot

theorem along (h : r.Entered R made left t) (hpath : ReflTransGen R t u) :
    r.Entered R made left u := by
  intro i hi hnot
  obtain ⟨n, hn, hleads⟩ := h i hi hnot
  exact ⟨n, hn, hleads.trans_left hpath⟩

theorem step (h : r.Entered R made left t) (hstep : R t u) : r.Entered R made left u :=
  h.along (.single hstep)

/-- Entering a type takes its identity off the list, and it leads to what it leads to. -/
theorem enter (h : r.Entered R made left (made n)) (hu : TransGen R (made n) u) :
    r.Entered R made (left.erase n.id) u := by
  intro i hi hnot
  by_cases hin : i = n.id
  · exact ⟨n, hin.symm, hu⟩
  · obtain ⟨m, hm, hleads⟩ := h i hi fun hmem => hnot ((mem_erase_of_ne hin).2 hmem)
    exact ⟨m, hm, hleads.trans hu⟩

/-- A type that is met again leads back to itself. -/
theorem met (h : r.Entered R made left (made n)) (hn : n.id ∈ r.identities) (hnot : n.id ∉ left)
    (hcongr : ∀ m u, m.id = n.id → R (made m) u → R (made n) u) : TransGen R (made n) (made n) := by
  obtain ⟨m, hm, hleads⟩ := h n.id hn hnot
  obtain ⟨v, hv, hrest⟩ := TransGen.head'_iff.1 hleads
  exact TransGen.head' (hcongr m v hm hv) hrest

end Entered

theorem length_erase_lt {i : Nat} {ids : List Nat} (h : i ∈ ids) :
    (ids.erase i).length < ids.length := by
  have hpos := length_pos_of_mem h
  rw [length_erase_of_mem h]
  omega

/-- Induction over a type inside the structs and aliases that were entered already. -/
theorem entering {P : List Nat → List Nat → Ty → Prop}
    (step : ∀ structs aliases t,
      (∀ n u, t = .alias n → n.id ∈ aliases → P structs (aliases.erase n.id) u) →
      (∀ e length, t = .array e length → P structs aliases e) →
      (∀ n ids u, t = .struct n → n.id ∈ structs → P (structs.erase n.id) ids u) →
      P structs aliases t)
    (structs aliases : List Nat) (t : Ty) : P structs aliases t :=
  step structs aliases t
    (fun n u _ _hmem => entering step structs (aliases.erase n.id) u)
    (fun e _ _harray => entering step structs aliases e)
    (fun n ids u _ _hmem => entering step (structs.erase n.id) ids u)
termination_by (structs.length, aliases.length, sizeOf t)
decreasing_by
  · exact Prod.Lex.right _ (Prod.Lex.left _ _ (length_erase_lt _hmem))
  · rw [_harray]
    exact Prod.Lex.right _ (Prod.Lex.right _ (by simp only [Ty.array.sizeOf_spec]; omega))
  · exact Prod.Lex.left _ _ (length_erase_lt _hmem)

/-! ### Defaults -/

theorem defaultFields_looped {structs aliases : List Nat} {fields : Keyed Ty} {f : Fault}
    (h : ∀ e ∈ fields, ∀ {f}, r.defaultInside structs aliases e.2 = .error f → f = .endless ∧
      r.Looped r.Fills e.2)
    (hf : r.defaultFields structs aliases fields = .error f) :
    f = .endless ∧ ∃ e ∈ fields, r.Looped r.Fills e.2 := by
  induction fields with
  | nil =>
    rw [defaultFields] at hf
    cases hf
  | cons e rest ih =>
    obtain ⟨ht, hrest⟩ := forall_mem_cons.1 h
    rw [defaultFields] at hf
    rcases htype : r.defaultInside structs aliases e.2 with f' | v
    · rw [htype] at hf
      cases hf
      exact (ht htype).imp_right fun hlooped => ⟨e, mem_cons_self, hlooped⟩
    · rw [htype] at hf
      rcases hothers : r.defaultFields structs aliases rest with f' | vs
      · rw [hothers] at hf
        cases hf
        obtain ⟨hendless, e, he, hlooped⟩ := ih hrest hothers
        exact ⟨hendless, e, mem_cons_of_mem _ he, hlooped⟩
      · rw [hothers] at hf
        cases hf

theorem defaultInside_looped (structs aliases : List Nat) (t : Ty)
    (h : r.Entered r.Fills .alias aliases t) {f : Fault}
    (hf : r.defaultInside structs aliases t = .error f) : f = .endless ∧ r.Looped r.Fills t := by
  induction structs, aliases, t using entering generalizing f with
  | step structs aliases t halias harray hstruct
  match t with
  | .alias n =>
    rw [defaultInside] at hf
    split at hf
    · cases hf
    · next u hu =>
        split at hf
        · next hmem =>
            have hrest := halias n u rfl hmem (h.enter (.single (.behind hu))) hf
            exact hrest.imp_right (.step (.held (.behind hu)))
        · next hnot =>
            cases hf
            exact ⟨rfl, n, .refl, h.met (mem_identities hu) hnot fun _ _ => Fills.congr⟩
  | .array e (some length) =>
    rw [defaultInside] at hf
    split at hf
    · cases hf
    · next hlength =>
        have hstep : r.Fills (.array e (some length)) e := .element (by omega)
        rcases he : r.defaultInside structs aliases e with f' | v
        · rw [he] at hf
          cases hf
          exact (harray e _ rfl (h.step hstep) he).imp_right (.step (.held hstep))
        · rw [he] at hf
          cases hf
  | .struct n =>
    rw [defaultInside] at hf
    split at hf
    · next hmem =>
        rcases hfields : r.defaultFields (structs.erase n.id) r.identities (r.structFields n) with
          f' | vs
        · rw [hfields] at hf
          cases hf
          obtain ⟨hendless, e, he, hlooped⟩ :=
            defaultFields_looped (fun e _ => hstruct n _ e.2 rfl hmem .identities) hfields
          exact ⟨hendless, hlooped.step (.field he)⟩
        · rw [hfields] at hf
          cases hf
    · cases hf
  | .primitive _ | .array _ none | .hashMap _ _ | .hashSet _ | .list _ | .map _ _ | .set _
  | .function _ _
  | .interface _ =>
    rw [defaultInside] at hf
    cases hf

/-- **A default is found, unless in place in the type an alias is filled with itself.** -/
theorem default_looped {t : Ty} {f : Fault} (h : r.default t = .error f) :
    f = .endless ∧ r.Looped r.Fills t :=
  defaultInside_looped _ _ t .identities h

theorem default_safe {t : Ty} {f : Fault} (h : r.default t = .error f) : r.Unending f := by
  obtain ⟨hendless, n, -, hself⟩ := default_looped h
  exact ⟨hendless, n, hself.lift id fun _ _ => Fills.holds⟩

/-! ### Sizes -/

/-- The size of a type by what is in place in it, where a word has so many bytes. -/
inductive Measures (r : Registry) (word : Int) : Ty → Int → Prop
  | primitive {p : Primitive} {bits : Nat} (h : p.width.bits? = some bits) :
      Measures r word (.primitive p) (bits / 8)
  | machine {p : Primitive} (h : p.width.bits? = none) : Measures r word (.primitive p) word
  | handle {t : Ty} (h : t.isHandle = true) : Measures r word t word
  | interface {n : Nominal} : Measures r word (.interface n) (2 * word)
  | fixed {e : Ty} {length size : Int} (h : Measures r word e size) :
      Measures r word (.array e (some length)) (length * size)
  | struct {n : Nominal} {sizes : List Int}
      (h : List.Forall₂ (fun f size => Measures r word f.2 size) (r.structFields n) sizes) :
      Measures r word (.struct n) sizes.sum
  | alias {n : Nominal} {t : Ty} {size : Int} (hn : r.underlying? n = some t)
      (h : Measures r word t size) : Measures r word (.alias n) size

/-- What the size of types comes to, one after the other; a whole number has the property. -/
inductive Sized (r : Registry) (P : Int → Prop) (ts : List Ty) : Except Failure Number → Prop
  /-- A whole number, and what is in place in the types contains nothing without end. -/
  | whole (size : Int) (h : ∀ t ∈ ts, Acc (flip (r.Inline r.Holds)) t) (hsize : P size) :
      Sized r P ts (.ok (.int size))
  /-- No answer, since an alias holds itself. -/
  | endless {t : Ty} (ht : t ∈ ts) (h : r.Looped r.Holds t) :
      Sized r P ts (.error (.fault .endless))
  /-- A complaint about a struct, which if it has been defined is in place in itself. -/
  | inside {t : Ty} {s : Nominal} (ht : t ∈ ts) (hs : ReflTransGen (r.Inline r.Holds) t (.struct s))
      (h : s.id ∈ r.identities → TransGen (r.Inline r.Holds) (.struct s) (.struct s)) :
      Sized r P ts (.error (.of (.infiniteSize s.name) .nowhere))
  /-- A complaint about an alias that leads nowhere. -/
  | lost {t : Ty} {n : Nominal} {f : Failure} (ht : t ∈ ts)
      (hn : ReflTransGen (r.Inline r.Holds) t (.alias n))
      (h : r.resolveUnderlying (.alias n) .nowhere = .error f) : Sized r P ts (.error f)

namespace Sized

variable {t : Ty} {ts : List Ty} {x : Except Failure Number} {P Q : Int → Prop}

/-- A type comes to what all that is directly in place in it comes to. -/
theorem of_parts (h : r.Sized P ts x) (hparts : ∀ u, r.Inline r.Holds t u ↔ u ∈ ts)
    (hsize : ∀ size, P size → Q size) : r.Sized Q [t] x := by
  have hself : t ∈ [t] := mem_singleton_self t
  cases h with
  | whole size h hP =>
    refine .whole size (fun u hu => ?_) (hsize size hP)
    obtain rfl := mem_singleton.1 hu
    exact .intro u fun v hv => h v ((hparts v).1 hv)
  | endless hu h => exact .endless hself (h.step ((hparts _).2 hu))
  | inside hu hs h => exact .inside hself (hs.head ((hparts _).2 hu)) h
  | lost hu hn h => exact .lost hself (hn.head ((hparts _).2 hu)) h

theorem of_leads {w : Ty} {word : Int} (h : r.Sized (r.Measures word w) [w] x)
    (hlead : r.Leads t w) : r.Sized (r.Measures word t) [t] x := by
  induction hlead with
  | done => exact h
  | @step n u w hn _ ih =>
    refine (ih h).of_parts (fun v => ?_) fun size => .alias hn
    rw [mem_singleton]
    constructor
    · rintro (⟨⟨hv⟩⟩)
      exact Option.some.inj (hv.symm.trans hn)
    · rintro rfl
      exact .held (.behind hn)

/-- A type in which nothing contains itself can be added in front. -/
theorem cons (h : r.Sized P ts x) (ht : Acc (flip (r.Inline r.Holds)) t) :
    r.Sized P (t :: ts) x := by
  cases h with
  | whole size h hP => exact .whole size (forall_mem_cons.2 ⟨ht, h⟩) hP
  | endless hu h => exact .endless (mem_cons_of_mem _ hu) h
  | inside hu hs h => exact .inside (mem_cons_of_mem _ hu) hs h
  | lost hu hn h => exact .lost (mem_cons_of_mem _ hu) hn h

theorem bind {f : Number → Except Failure Number} (h : r.Sized P [t] x)
    (hf : ∀ size, P size → r.Sized Q ts (f (.int size))) : r.Sized Q (t :: ts) (x >>= f) := by
  have hmem {u : Ty} (hu : u ∈ [t]) : u ∈ t :: ts := by simp_all
  cases h with
  | whole size h hP => exact (hf size hP).cons (forall_mem_singleton.1 h)
  | endless hu h => exact .endless (hmem hu) h
  | inside hu hs h => exact .inside (hmem hu) hs h
  | lost hu hn h => exact .lost (hmem hu) hn h

theorem nothing {size : Int} (h : P size) : r.Sized P [] (.ok (.int size)) :=
  .whole size (forall_mem_nil _) h

theorem leaf (ht : ∀ u, ¬r.Inline r.Holds t u) {size : Int} (h : P size) :
    r.Sized P [t] (.ok (.int size)) :=
  (nothing h).of_parts (fun u => iff_of_false (ht u) not_mem_nil) fun _ => id

end Sized

theorem sizeFields_sized (bits : Int) {structs aliases : List Nat} (before : Int)
    {fields : Keyed Ty}
    (h : ∀ e ∈ fields, r.Sized (r.Measures (bits / 8) e.2) [e.2]
      (r.sizeInside (.int bits) structs aliases e.2))
    {P : Int → Prop}
    (hP : ∀ sizes, List.Forall₂ (fun f size => r.Measures (bits / 8) f.2 size) fields sizes →
      P (before + sizes.sum)) :
    r.Sized P (fields.map Prod.snd)
      (r.sizeFields (.int bits) structs aliases (.int before) fields) := by
  induction fields generalizing before P with
  | nil =>
    rw [sizeFields]
    exact .nothing (Int.add_zero before ▸ hP [] .nil)
  | cons e rest ih =>
    obtain ⟨ht, hrest⟩ := forall_mem_cons.1 h
    rw [sizeFields]
    refine ht.bind fun size hsize => ih (before + size) hrest fun sizes hsizes => ?_
    rw [Int.add_assoc, ← sum_cons]
    exact hP (size :: sizes) (.cons hsize hsizes)

theorem sizeInside_sized (bits : Int) (structs aliases : List Nat) (t : Ty)
    (hstructs : r.Entered (r.Inline r.Holds) .struct structs t)
    (haliases : r.Entered r.Holds .alias aliases t) :
    r.Sized (r.Measures (bits / 8) t) [t] (r.sizeInside (.int bits) structs aliases t) := by
  induction structs, aliases, t using entering with | step structs aliases t halias harray hstruct
  match t with
  | .alias n =>
    rw [sizeInside]
    split
    · next f herror => exact .lost (mem_singleton_self _) .refl herror
    · next w hw =>
        have hlead := resolveUnderlying_eq_ok.1 hw
        obtain ⟨u, hu, hholds⟩ := hlead.behind
        split
        · next hmem =>
            have hplace : ReflTransGen (r.Inline r.Holds) (.alias n) w :=
              hlead.holds.lift id fun _ _ => .held
            exact (halias n w rfl hmem (hstructs.along hplace) (haliases.enter hholds)).of_leads
              hlead
        · next hnot =>
            exact .endless (mem_singleton_self _)
              ⟨n, .refl, haliases.met (mem_identities hu) hnot fun _ _ => Holds.congr⟩
  | .array e (some length) =>
    rw [sizeInside]
    have helement := harray e _ rfl (hstructs.step (.held .element)) (haliases.step .element)
    have hscaled : r.Sized (r.Measures (bits / 8) (.array e (some length))) [e]
        (r.sizeInside (.int bits) structs aliases e >>= scaleSize length) :=
      helement.bind fun size hsize => .nothing (.fixed hsize)
    refine hscaled.of_parts (fun u => ?_) fun _ => id
    rw [mem_singleton]
    constructor
    · rintro ⟨⟨⟩⟩
      rfl
    · rintro rfl
      exact .held .element
  | .struct n =>
    rw [sizeInside]
    split
    · next hmem =>
        refine (sizeFields_sized bits 0 (fun e he => hstruct n _ e.2 rfl hmem
          (hstructs.enter (.single (.field he))) .identities) fun sizes hsizes => ?_).of_parts
            (fun u => ?_) fun _ => id
        · rw [Int.zero_add]
          exact .struct hsizes
        · rw [mem_map]
          constructor
          · rintro (⟨⟨⟩⟩ | hu)
            exact ⟨_, hu, rfl⟩
          · rintro ⟨e, he, rfl⟩
            exact .field he
    · next hnot =>
        refine .inside (mem_singleton_self _) .refl fun hn =>
          hstructs.met hn hnot fun m u hid hu => ?_
        cases hu with
        | held h => cases h
        | field h => exact .field (structFields_congr hid ▸ h)
  | .interface _ =>
    rw [sizeInside]
    exact .leaf (by rintro u ⟨⟨⟩⟩) .interface
  | .primitive p =>
    rw [sizeInside]
    split
    · next hbits => exact .leaf (by rintro u ⟨⟨⟩⟩) (.primitive hbits)
    · next hbits => exact .leaf (by rintro u ⟨⟨⟩⟩) (.machine hbits)
  | .array _ none | .hashMap _ _ | .hashSet _ | .list _ | .map _ _ | .set _ | .function _ _ =>
    rw [sizeInside]
    exact .leaf (by rintro u ⟨⟨⟩⟩) (.handle rfl)

theorem size_sized (bits : Int) (t : Ty) :
    r.Sized (r.Measures (bits / 8) t) [t] (r.size (.int bits) t) :=
  sizeInside_sized bits _ _ t .identities .identities

/-- **A size is found, and is a whole number, unless an alias holds itself.** -/
theorem size_safe (bits : Int) (t : Ty) :
    Safe r.Unending (r.size (.int bits) t) fun size => ∃ n, size = .int n := by
  have hsized := r.size_sized bits t
  generalize r.size (.int bits) t = x at hsized
  cases hsized with
  | whole size h => exact ⟨size, rfl⟩
  | endless _ h =>
    obtain ⟨n, -, hself⟩ := h
    exact ⟨rfl, n, hself⟩
  | inside => exact .complain
  | lost _ _ h => exact (r.resolveUnderlying_safe _ _).of_error h

end Registry

end TreeTyping
