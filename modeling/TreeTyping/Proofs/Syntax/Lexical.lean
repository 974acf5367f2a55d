/-
Declarations and assignments, and which declaration an assignment names.

A name stands for the declaration in the innermost scope around it that declares the name before it.
So the names that are visible at a point of the syntax form one list, with the places that declare
them: what is declared later or further inside stands first.  The list is handed down the syntax.  A
declaration is visible from behind its initializer to the end of its block, and the variable of a
loop in the body of the loop.  A function begins with its receiver and its parameters.

The points at which a variable is written to, the sites, are listed in the order of the text.
Whatever an assignment names is visible there, so it is declared before: in such a list no site that
declares a variable stands behind one that assigns to it.
-/
import Mathlib.Data.List.Nodup
import TreeTyping.Proofs.Syntax.Places

namespace TreeTyping

open List

/-- The names visible at a point, with the places that declare them, innermost and latest first. -/
abbrev Visible := List (String × Place)

/-- The places that declare the visible names. -/
def Visible.places (v : Visible) : List Place := v.map Prod.snd

theorem Visible.mem_places_of_lookup {v : Visible} {name : String} {p : Place}
    (h : v.lookup name = some p) : p ∈ v.places := by
  induction v with
  | nil => cases h
  | cons entry rest ih =>
    rw [lookup_cons] at h
    split at h
    · cases h
      exact mem_cons_self
    · exact mem_cons_of_mem _ (ih h)

/-- The place that declares what an expression names; an expression that is no name has none. -/
def Expr.declaration? (v : Visible) : Expr → Option Place
  | .identifier _ name => v.lookup name
  | _ => none

/-- An assignment where it stands. -/
structure Assignment where
  origin : Origin
  target : Expr
  value : Expr
  /-- The place that declares the variable that is assigned to. -/
  declaration? : Option Place

/-- A point at which a variable may be written to. -/
inductive Site where
  | declared (d : VarDecl)
  | assigned (a : Assignment)

/-- The place that a site declares a variable at. -/
def Site.declares? : Site → Option Place
  | .declared d => some d.origin.place
  | .assigned _ => none

/-- The place that declares the variable that a site assigns to. -/
def Site.assigns? : Site → Option Place
  | .declared _ => none
  | .assigned a => a.declaration?

/-! ### Sites in the order of the text -/

/-- The names that are visible behind a statement of a block. -/
def Stmt.after (v : Visible) : Stmt → Visible
  | .declare d => (d.name, d.origin.place) :: v
  | _ => v

namespace Stmt

mutual

/-- The sites in a statement. -/
def sites (v : Visible) : Stmt → List Site
  | .declare d => [.declared d]
  | .assign o target value => [.assigned ⟨o, target, value, target.declaration? v⟩]
  | .cond _ _ body more otherwise =>
    sitesOfAll v body ++ (sitesOfBranches v more ++ sitesOfBlock? v otherwise)
  | .select _ _ arms otherwise => sitesOfCases v arms ++ sitesOfBlock? v otherwise
  | .loop _ _ body => sitesOfAll v body
  | .iterate o name _ body => sitesOfAll ((name, o.place) :: v) body
  | .block _ body => sitesOfAll v body
  | .expr _ _ | .ret _ _ | .panic _ _ | .brk _ | .cont _ | .pass _ | .foreign _ | .unreadable => []

def sitesOfAll (v : Visible) : List Stmt → List Site
  | [] => []
  | s :: rest => s.sites v ++ sitesOfAll (s.after v) rest

def sitesOfBlock? (v : Visible) : Option (List Stmt) → List Site
  | none => []
  | some body => sitesOfAll v body

def sitesOfBranches (v : Visible) : List Branch → List Site
  | [] => []
  | .mk _ body :: rest => sitesOfAll v body ++ sitesOfBranches v rest

def sitesOfCases (v : Visible) : List Case → List Site
  | [] => []
  | .mk _ body :: rest => sitesOfAll v body ++ sitesOfCases v rest

end

end Stmt

/-- The names that are visible behind parameters. -/
def Visible.withParams (v : Visible) : List Param → Visible
  | [] => v
  | p :: rest => withParams ((p.name, p.origin.place) :: v) rest

/-- The names visible where the body of a function begins: also its receiver and parameters. -/
def FunctionDef.visible (v : Visible) (f : FunctionDef) : Visible :=
  (v.withParams f.receiver.toList).withParams f.params

/-- The sites in a function. -/
def FunctionDef.sites (v : Visible) (f : FunctionDef) :
    List Site := Stmt.sitesOfAll (f.visible v) f.body

def VarDecl.sitesOfEntry : Entry VarDecl → List Site
  | .proper d => [.declared d]
  | .foreign _ => []

def FunctionDef.sitesOfEntry (v : Visible) : Entry FunctionDef → List Site
  | .proper f => f.sites v
  | .foreign _ => []

/-! ### Sites are where they belong -/

/--
Sites among the given places, where the given names are visible: each is made of places among them,
no place is declared twice, and whatever is assigned to is visible or declared before.
-/
structure SitesIn (v : Visible) (places : List Place) (sites : List Site) : Prop where
  declared : ∀ site ∈ sites, ∀ q ∈ site.declares?, q ∈ places
  assigned : ∀ a, .assigned a ∈ sites → a.target.places ⊆ places ∧ a.value.places ⊆ places
  named : ∀ site ∈ sites, ∀ q ∈ site.assigns?, q ∈ v.places ∨ q ∈ places
  distinct : places.Nodup → (sites.filterMap Site.declares?).Nodup
  ordered : v.places.Disjoint places → places.Nodup →
    sites.Pairwise fun first later => ∀ q ∈ first.assigns?, later.declares? ≠ some q

namespace SitesIn

variable {v w : Visible} {places more : List Place} {sites others : List Site}

theorem nil : SitesIn v places [] :=
  ⟨forall_mem_nil _, fun _ h => absurd h not_mem_nil, forall_mem_nil _, fun _ => .nil,
    fun _ _ => .nil⟩

theorem declaration (d : VarDecl) (hd : d.origin.place ∈ places) :
    SitesIn v places [.declared d] := by
  refine ⟨?_, fun a ha => ?_, ?_, fun _ => nodup_singleton _, fun _ _ => pairwise_singleton _ _⟩
  · exact forall_mem_singleton.2 fun q hq => Option.some.inj hq ▸ hd
  · cases mem_singleton.1 ha
  · exact forall_mem_singleton.2 fun q hq => absurd hq (Option.not_mem_none q)

theorem assignment (o : Origin) (target value : Expr) :
    SitesIn v (target.places ++ value.places)
      [.assigned ⟨o, target, value, target.declaration? v⟩] := by
  refine ⟨?_, fun a ha => ?_, ?_, fun _ => .nil, fun _ _ => pairwise_singleton _ _⟩
  · exact forall_mem_singleton.2 fun q hq => absurd hq (Option.not_mem_none q)
  · cases mem_singleton.1 ha
    exact ⟨subset_append_left _ _, subset_append_right _ _⟩
  · refine forall_mem_singleton.2 fun q hq => .inl ?_
    cases target with
    | identifier origin name => exact Visible.mem_places_of_lookup hq
    | _ => cases hq

/-- Sites of one part and then of another, where what the first declares may be visible too. -/
theorem append (h : SitesIn v places sites) (h' : SitesIn w more others)
    (hw : ∀ q ∈ w.places, q ∈ v.places ∨ q ∈ places) : SitesIn v (places ++ more)
      (sites ++ others) := by
  refine ⟨?_, fun a ha => ?_, ?_, fun hnodup => ?_, fun hdisjoint hnodup => ?_⟩
  · refine forall_mem_append.2 ⟨fun site hsite q hq => ?_, fun site hsite q hq => ?_⟩
    · exact mem_append_left _ (h.declared site hsite q hq)
    · exact mem_append_right _ (h'.declared site hsite q hq)
  · rcases mem_append.1 ha with ha | ha
    · obtain ⟨htarget, hvalue⟩ := h.assigned a ha
      exact ⟨subset_append_of_subset_left _ htarget, subset_append_of_subset_left _ hvalue⟩
    · obtain ⟨htarget, hvalue⟩ := h'.assigned a ha
      exact ⟨subset_append_of_subset_right _ htarget, subset_append_of_subset_right _ hvalue⟩
  · refine forall_mem_append.2 ⟨fun site hsite q hq => ?_, fun site hsite q hq => ?_⟩
    · exact (h.named site hsite q hq).imp_right (mem_append_left _)
    · rcases h'.named site hsite q hq with hq | hq
      · exact (hw q hq).imp_right (mem_append_left _)
      · exact .inr (mem_append_right _ hq)
  · obtain ⟨hplaces, hmore, hapart⟩ := nodup_append'.1 hnodup
    rw [filterMap_append]
    refine nodup_append'.2 ⟨h.distinct hplaces, h'.distinct hmore, fun q hq hq' => ?_⟩
    obtain ⟨site, hsite, hdeclares⟩ := mem_filterMap.1 hq
    obtain ⟨site', hsite', hdeclares'⟩ := mem_filterMap.1 hq'
    exact hapart (h.declared site hsite q hdeclares) (h'.declared site' hsite' q hdeclares')
  · obtain ⟨hfirst, hsecond⟩ := disjoint_append_right.1 hdisjoint
    obtain ⟨hplaces, hmore, hapart⟩ := nodup_append'.1 hnodup
    -- what is visible or declared in the first part is not declared in the second
    have hnew {q : Place} (hq : q ∈ v.places ∨ q ∈ places) : q ∉ more :=
      fun hmem => hq.elim (hsecond · hmem) (hapart · hmem)
    refine pairwise_append.2
      ⟨h.ordered hfirst hplaces, h'.ordered (fun q hq => hnew (hw q hq)) hmore, ?_⟩
    intro site hsite site' hsite' q hq hdeclares
    exact hnew (h.named site hsite q hq) (h'.declared site' hsite' q hdeclares)

/-- Sites of one part and then of another, where the same is visible. -/
theorem beside (h : SitesIn v places sites) (h' : SitesIn v more others) :
    SitesIn v (places ++ more) (sites ++ others) :=
  h.append h' fun _ hq => .inl hq

theorem behind (h : SitesIn v more others) : SitesIn v (places ++ more) others := nil.beside h

theorem perm (h : SitesIn v places sites) (hperm : places.Perm more) : SitesIn v more sites := by
  refine ⟨fun site hsite q hq => hperm.subset (h.declared site hsite q hq), fun a ha => ?_,
    fun site hsite q hq => (h.named site hsite q hq).imp_right (hperm.subset ·),
    fun hnodup => h.distinct (hperm.nodup_iff.2 hnodup), fun hdisjoint hnodup => ?_⟩
  · obtain ⟨htarget, hvalue⟩ := h.assigned a ha
    exact ⟨List.Subset.trans htarget hperm.subset, List.Subset.trans hvalue hperm.subset⟩
  · exact h.ordered (fun q hq hmem => hdisjoint hq (hperm.subset hmem)) (hperm.nodup_iff.2 hnodup)

end SitesIn

namespace Stmt

/-- The sites of a statement are where they belong, whatever is visible. -/
def Sited (s : Stmt) : Prop := ∀ v, SitesIn v s.places (s.sites v)

theorem after_places {v : Visible} {s : Stmt} :
    ∀ q ∈ (s.after v).places, q ∈ v.places ∨ q ∈ s.places := by
  intro q hq
  cases s with
  | declare d =>
    rcases mem_cons.1 hq with rfl | hq
    · exact .inr mem_cons_self
    · exact .inl hq
  | _ => exact .inl hq

section Blocks

variable {v : Visible}

theorem sitesOfAll_in {body : List Stmt} (h : ∀ s ∈ body, s.Sited) :
    SitesIn v (placesOfAll body) (sitesOfAll v body) := by
  induction body generalizing v with
  | nil => exact .nil
  | cons s rest ih =>
    obtain ⟨hs, hrest⟩ := forall_mem_cons.1 h
    exact (hs v).append (ih hrest) after_places

theorem sitesOfBlock?_in {otherwise : Option (List Stmt)}
    (h : ∀ body ∈ otherwise, ∀ s ∈ body, s.Sited) :
    SitesIn v (placesOfBlock? otherwise) (sitesOfBlock? v otherwise) := by
  cases otherwise with
  | none => exact .nil
  | some body => exact sitesOfAll_in (h body rfl)

theorem sitesOfBranches_in {more : List Branch} (h : ∀ b ∈ more, ∀ s ∈ b.body, s.Sited) :
    SitesIn v (placesOfBranches more) (sitesOfBranches v more) := by
  induction more with
  | nil => exact .nil
  | cons b rest ih =>
    obtain ⟨c, body⟩ := b
    obtain ⟨hb, hrest⟩ := forall_mem_cons.1 h
    exact .behind ((sitesOfAll_in hb).beside (ih hrest))

theorem sitesOfCases_in {arms : List Case} (h : ∀ a ∈ arms, ∀ s ∈ a.body, s.Sited) :
    SitesIn v (placesOfCases arms) (sitesOfCases v arms) := by
  induction arms with
  | nil => exact .nil
  | cons a rest ih =>
    obtain ⟨values, body⟩ := a
    obtain ⟨ha, hrest⟩ := forall_mem_cons.1 h
    exact .behind ((sitesOfAll_in ha).beside (ih hrest))

end Blocks

theorem sited (s : Stmt) : s.Sited := by
  induction s using Stmt.byForm with intro v
  | declare d => exact .declaration d mem_cons_self
  | assign o target value => exact .assignment o target value
  | cond o c body more otherwise hbody hmore hlast =>
    exact .behind ((sitesOfAll_in hbody).beside
      ((sitesOfBranches_in hmore).beside (sitesOfBlock?_in hlast)))
  | select o subject arms otherwise harms hlast =>
    exact .behind ((sitesOfCases_in harms).beside (sitesOfBlock?_in hlast))
  | loop o c body hbody => exact .behind (sitesOfAll_in hbody)
  | iterate o name iterable body hbody =>
    -- the variable of the loop is the only name that is visible in addition
    have hnone : SitesIn v (o.place :: iterable.places) [] := .nil
    refine hnone.append (sitesOfAll_in hbody) fun q hq => ?_
    rcases mem_cons.1 hq with rfl | hq
    · exact .inr mem_cons_self
    · exact .inl hq
  | block o body hbody => exact sitesOfAll_in hbody
  | _ => exact .nil

end Stmt

theorem Visible.withParams_places (params : List Param) (v : Visible) :
    ∀ q ∈ (v.withParams params).places, q ∈ v.places ∨ q ∈ params.map fun p => p.origin.place := by
  induction params generalizing v with
  | nil => exact fun q hq => .inl hq
  | cons p rest ih =>
    intro q hq
    rcases ih _ q hq with hq | hq
    · rcases mem_cons.1 hq with rfl | hq
      · exact .inr mem_cons_self
      · exact .inl hq
    · exact .inr (mem_cons_of_mem _ hq)

theorem FunctionDef.sites_in (v : Visible) (f : FunctionDef) : SitesIn v f.places (f.sites v) := by
  have hbody : SitesIn (f.visible v) (Stmt.placesOfAll f.body) (f.sites v) :=
    Stmt.sitesOfAll_in fun s _ => s.sited
  have hvisible : ∀ q ∈ (f.visible v).places, q ∈ v.places ∨
      q ∈ f.params.map (fun p => p.origin.place) ++ f.receiver.toList.map fun p =>
        p.origin.place := by
    intro q hq
    rcases Visible.withParams_places _ _ q hq with hq | hq
    · exact (Visible.withParams_places _ _ q hq).imp_right (mem_append_right _)
    · exact .inr (mem_append_left _ hq)
  refine (SitesIn.nil.append hbody hvisible).perm ?_
  rw [FunctionDef.places, append_assoc]
  exact perm_append_comm.append_left _

end TreeTyping
