/-
A derivation covers everything that occurs.

A derivation for an expression has one for each expression in it, and one for a block has one for
each statement in it, however deep and whether control reaches it or not.  So the table of a
derivation has a type at every place, but for two exceptions: the name of the type in a conversion
is not an expression with a value, and neither is a call of a procedure, which therefore stands
alone as a statement.

Further down the scopes are others, and inside a loop breaks are allowed.  The types and functions
that names refer to stay the same throughout.
-/
import TreeTyping.Proofs.Syntax.Places
import TreeTyping.Proofs.Typing.Derivation

namespace TreeTyping

open List

variable {table : TypeTable}

/-! ### Expressions -/

theorem HasType.recorded {env : Env} {e : Expr} {t : Ty} (h : HasType env table e t) :
    ∃ o, e.origin? = some o ∧ table o.place = some t := by
  cases h with
  | literal _ ht | identifier _ ht | binary _ _ _ _ ht | unary _ _ _ ht | call _ _ _ ht
  | conversion _ _ _ _ ht | methodCall _ _ _ _ ht | member _ _ ht | indexList _ _ _ _ _ ht
  | indexMap _ _ _ _ _ ht | cast _ _ _ ht | list _ _ _ ht | map _ _ _ _ _ ht | set _ _ _ ht
  | record _ _ _ _ _ ht => exact ⟨_, rfl, ht⟩

theorem HaveTypes.mem {env : Env} : ∀ {es : List Expr} {types : List Ty}, HaveTypes env table es
    types → ∀ e ∈ es, ∃ t, HasType env table e t
  | _, _, .nil, _, he => nomatch he
  | _, _, .cons hfirst hrest, e, he => by
      rcases mem_cons.1 he with rfl | he
      · exact ⟨_, hfirst⟩
      · exact hrest.mem e he

/-- `e` is the call of a type's name, which converts to that type, and `c` is the name. -/
inductive NamesConversion (env : Env) (table : TypeTable) : Expr → Expr → Prop
  | intro {o n : Origin} {name : String} {operand : Expr} {t : Ty}
      (hn : env.typeOfName? name = none)
      (hr : env.registry.lookup? name = some t) (ht : table o.place = some t) :
      NamesConversion env table (.identifier n name) (.call o (.identifier n name) [operand])

/-- The parts of a typed expression are typed, the name of the type in a conversion apart. -/
theorem HasType.children {env : Env} {e c : Expr} {t : Ty} (h : HasType env table e t)
    (hc : c ∈ e.children) : (∃ s, HasType env table c s) ∨ NamesConversion env table c e := by
  cases h with
  | literal | identifier => cases hc
  | binary hl hr =>
    rcases mem_cons.1 hc with rfl | hc
    · exact .inl ⟨_, hl⟩
    · exact .inl ⟨_, mem_singleton.1 hc ▸ hr⟩
  | unary he => exact .inl ⟨_, mem_singleton.1 hc ▸ he⟩
  | call hn hs =>
    rcases mem_cons.1 hc with rfl | hc
    · exact .inl ⟨_, hn⟩
    · exact .inl (hs.mem c hc)
  | conversion hn hr he hconv ht =>
    rcases mem_cons.1 hc with rfl | hc
    · exact .inr (.intro hn hr ht)
    · exact .inl ⟨_, mem_singleton.1 hc ▸ he⟩
  | methodCall ho hm hs =>
    rcases mem_cons.1 hc with rfl | hc
    · exact .inl ⟨_, ho⟩
    · exact .inl (hs.mem c hc)
  | member ho => exact .inl ⟨_, mem_singleton.1 hc ▸ ho⟩
  | indexList ho _ _ hi | indexMap ho _ _ hi =>
    rcases mem_cons.1 hc with rfl | hc
    · exact .inl ⟨_, ho⟩
    · exact .inl ⟨_, mem_singleton.1 hc ▸ hi⟩
  | cast _ he => exact .inl ⟨_, mem_singleton.1 hc ▸ he⟩
  | list hs | set hs => exact .inl (hs.mem c hc)
  | map hk hv =>
    obtain ⟨entry, hentry, hc⟩ := mem_flatMap.1 hc
    rcases mem_cons.1 hc with rfl | hc
    · exact .inl (hk.mem _ (mem_map_of_mem hentry))
    · exact .inl (hv.mem c (mem_singleton.1 hc ▸ mem_map_of_mem hentry))
  | record _ _ hs => exact .inl (hs.mem c hc)

theorem CallsProcedure.children {env : Env} {e c : Expr} (h : CallsProcedure env table e)
    (hc : c ∈ e.children) : ∃ s, HasType env table c s := by
  cases h with
  | call hn hs =>
    rcases mem_cons.1 hc with rfl | hc
    · exact ⟨_, hn⟩
    · exact hs.mem c hc
  | methodCall ho hm hs =>
    rcases mem_cons.1 hc with rfl | hc
    · exact ⟨_, ho⟩
    · exact hs.mem c hc

/-- **All that occurs in a typed expression is typed**, names of types in conversions apart. -/
theorem HasType.occurs {env : Env} {a e : Expr} {t : Ty} (h : HasType env table e t)
    (ha : a.Occurs e) : (∃ s, HasType env table a s) ∨
      ∃ call, call.Occurs e ∧ NamesConversion env table a call := by
  induction ha generalizing t with
  | self => exact .inl ⟨t, h⟩
  | inside hc ha ih =>
    rcases h.children hc with ⟨s, hs⟩ | hconv
    · rcases ih hs with hs | ⟨call, hcall, hname⟩
      · exact .inl hs
      · exact .inr ⟨call, .inside hc hcall, hname⟩
    · cases hconv with
      | intro hn hr ht =>
        -- A name has no parts, so what occurs in it is the name itself.
        cases ha with
        | self => exact .inr ⟨_, .self, .intro hn hr ht⟩
        | inside hcc _ => cases hcc

/-! ### Statements -/

/-- Two environments in which names of types and functions mean the same. -/
structure Env.Agrees (env inner : Env) : Prop where
  registry : inner.registry = env.registry
  functions : inner.functions = env.functions

theorem Env.Agrees.refl (env : Env) : env.Agrees env := ⟨rfl, rfl⟩

theorem Env.Agrees.trans {env inner innermost : Env} (h : env.Agrees inner)
    (h' : inner.Agrees innermost) : env.Agrees innermost :=
  ⟨h'.registry.trans h.registry, h'.functions.trans h.functions⟩

/-- The expressions of a typed statement are typed, or one of them is a call of a procedure. -/
theorem StmtTyped.exprs {env : Env} {around : Surroundings} {s : Stmt} {scopes : Scopes} {e : Expr}
    (h : StmtTyped table env around s scopes) (he : e ∈ s.exprs) :
    (∃ t, HasType env table e t) ∨ ∃ o, s = .expr o e ∧ CallsProcedure env table e := by
  cases h with
  | declare h =>
    obtain ⟨hd, -, -⟩ := h
    cases hd with
    | plain hi => simp [Stmt.exprs, hi] at he
    | initialized hi _ hinit =>
      simp only [Stmt.exprs, hi, Option.toList_some, mem_singleton] at he
      exact .inl ⟨_, he ▸ hinit⟩
  | assign _ _ ht hv =>
    rcases mem_cons.1 he with rfl | he
    · exact .inl ⟨_, ht⟩
    · exact .inl ⟨_, mem_singleton.1 he ▸ hv⟩
  | value hv => exact .inl ⟨_, mem_singleton.1 he ▸ hv⟩
  | procedure hp =>
    obtain rfl := mem_singleton.1 he
    exact .inr ⟨_, rfl, hp⟩
  | returnValue _ _ hv | panicWith hv => exact .inl ⟨_, mem_singleton.1 he ▸ hv⟩
  | cond hc _ hcs =>
    rcases mem_cons.1 he with rfl | he
    · exact .inl ⟨_, hc⟩
    · obtain ⟨b, hb, rfl⟩ := mem_map.1 he
      exact .inl ⟨_, hcs b hb⟩
  | select hs hvs =>
    rcases mem_cons.1 he with rfl | he
    · exact .inl ⟨_, hs⟩
    · obtain ⟨a, ha, he⟩ := mem_flatMap.1 he
      exact .inl ⟨_, hvs a ha e he⟩
  | loop hc => exact .inl ⟨_, mem_singleton.1 he ▸ hc⟩
  | iterate hi => exact .inl ⟨_, mem_singleton.1 he ▸ hi⟩
  | returnNothing | panic | brk | cont | pass | block => cases he

/-- The surroundings, inside a loop if `l` says so. -/
def Surroundings.within (around : Surroundings) (l : Bool) : Surroundings :=
  { around with inLoop := around.inLoop || l }

theorem Surroundings.within_false (around : Surroundings) : around.within false = around := by
  rw [within, Bool.or_false]

theorem Surroundings.within_within (around : Surroundings) (l l' : Bool) :
    (around.within l).within l' = around.within (l || l') := by
  rw [within, within, within, Bool.or_assoc]

theorem Surroundings.looping_eq (around : Surroundings) : around.looping = around.within true := by
  rw [within, looping, Bool.or_true]

theorem StmtTyped.blocks {env : Env} {around : Surroundings} {s : Stmt} {scopes : Scopes} {l : Bool}
    {body : List Stmt} (h : StmtTyped table env around s scopes) (hb : (l, body) ∈ s.blocks) :
    ∃ inner, env.Agrees inner ∧ BodyTyped table inner (around.within l) body := by
  cases h with
  | cond hc hfirst hcs hmore hlast =>
    obtain ⟨rfl, hwhich⟩ := Stmt.mem_blocks_cond.1 hb
    rw [around.within_false]
    rcases hwhich with rfl | ⟨b, hmem, rfl⟩ | hwhich
    · exact ⟨env.inside _, ⟨rfl, rfl⟩, hfirst⟩
    · exact ⟨env.inside _, ⟨rfl, rfl⟩, hmore b hmem⟩
    · exact ⟨env.inside _, ⟨rfl, rfl⟩, hlast _ hwhich⟩
  | select hs hvs harms hlast =>
    obtain ⟨rfl, hwhich⟩ := Stmt.mem_blocks_select.1 hb
    rw [around.within_false]
    rcases hwhich with ⟨a, hmem, rfl⟩ | hwhich
    · exact ⟨env.inside _, ⟨rfl, rfl⟩, harms a hmem⟩
    · exact ⟨env.inside _, ⟨rfl, rfl⟩, hlast _ hwhich⟩
  | loop hc hbody =>
    obtain ⟨rfl, rfl⟩ := Prod.mk.inj (mem_singleton.1 hb)
    exact ⟨env.inside _, ⟨rfl, rfl⟩, around.looping_eq ▸ hbody⟩
  | iterate he hw hi hd ht hbody =>
    obtain ⟨rfl, rfl⟩ := Prod.mk.inj (mem_singleton.1 hb)
    refine ⟨_, ?_, around.looping_eq ▸ hbody⟩
    exact ⟨rfl, rfl⟩
  | block hbody =>
    obtain ⟨rfl, rfl⟩ := Prod.mk.inj (mem_singleton.1 hb)
    rw [around.within_false]
    exact ⟨env.inside _, ⟨rfl, rfl⟩, hbody⟩
  | declare | assign | value | procedure | returnValue | returnNothing | panic | panicWith | brk
  | cont
  | pass => cases hb

theorem BodyTyped.mem : ∀ {env : Env} {around : Surroundings} {body : List Stmt},
    BodyTyped table env around body → ∀ s ∈ body,
      ∃ inner scopes, env.Agrees inner ∧ StmtTyped table inner around s scopes
  | _, _, _, .nil, _, hs => nomatch hs
  | env, around, _, .cons hfirst hrest, s, hs => by
      rcases mem_cons.1 hs with rfl | hs
      · exact ⟨env, _, .refl env, hfirst⟩
      · obtain ⟨inner, scopes, hagrees, h⟩ := hrest.mem s hs
        exact ⟨inner, scopes, ⟨hagrees.registry, hagrees.functions⟩, h⟩

theorem StmtTyped.occurs {l : Bool} {a s : Stmt} (ha : Stmt.Occurs l a s) : ∀ {env : Env}
    {around : Surroundings} {scopes : Scopes}, StmtTyped table env around s scopes →
      ∃ inner out, env.Agrees inner ∧ StmtTyped table inner (around.within l) a out := by
  induction ha with
  | self s =>
    intro env around scopes h
    exact ⟨env, scopes, .refl env, by rwa [around.within_false]⟩
  | inside hb hs ha ih =>
    intro env around scopes h
    obtain ⟨inner, hagrees, hbody⟩ := h.blocks hb
    obtain ⟨inner', _, hagrees', hs⟩ := hbody.mem _ hs
    obtain ⟨innermost, out, hagrees'', ha⟩ := ih hs
    rw [around.within_within] at ha
    exact ⟨innermost, out, (hagrees.trans hagrees').trans hagrees'', ha⟩

/-- **Everything that occurs in a typed body is typed**, in the loops that are around it. -/
theorem BodyTyped.occurs {env : Env} {around : Surroundings} {body : List Stmt} {l : Bool}
    {a : Stmt} (h : BodyTyped table env around body) (ha : Stmt.OccursIn l a body) :
    ∃ inner out, env.Agrees inner ∧ StmtTyped table inner (around.within l) a out := by
  obtain ⟨s, hs, ha⟩ := ha
  obtain ⟨inner, _, hagrees, hs⟩ := h.mem s hs
  obtain ⟨innermost, out, hagrees', ha⟩ := hs.occurs ha
  exact ⟨innermost, out, hagrees.trans hagrees', ha⟩

end TreeTyping
