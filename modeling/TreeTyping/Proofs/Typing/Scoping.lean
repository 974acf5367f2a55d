/-
What statements do to scopes.

A statement leaves the scopes as they are, or adds a symbol to the innermost one.  So whatever is
checked with a scope pushed leaves the scopes below it alone, and they are what is left when that
scope is popped.
-/
import TreeTyping.Proofs.Except
import TreeTyping.Typing.Stmt

namespace TreeTyping

open List

namespace Scopes

variable {symbol : Symbol} {s s' : Scopes}

theorem chain_eq (s : Scopes) : s.chain = s.current :: s.chain.tail := by
  obtain ⟨inner, global⟩ := s
  cases inner <;> rfl

/-- A symbol is written to the innermost scope. -/
theorem write_chain (h : s.write symbol = .ok s') : s'.chain =
    { s.current with symbols := Keyed.insert symbol.name symbol s.current.symbols } ::
    s.chain.tail := by
  have hscope {scope scope' : Scope} (hdefine : scope.define symbol = .ok scope') :
      scope' = { scope with symbols := Keyed.insert symbol.name symbol scope.symbols } := by
    unfold Scope.define at hdefine
    split at hdefine
    · cases hdefine
    · exact (Except.ok.inj hdefine).symm
  obtain ⟨inner, global⟩ := s
  cases inner with
  | nil =>
    obtain ⟨next, hnext, h⟩ := Except.bind_eq_ok.1 h
    cases h
    exact congrArg (· :: []) (hscope hnext)
  | cons scope rest =>
    obtain ⟨next, hnext, h⟩ := Except.bind_eq_ok.1 h
    cases h
    exact congrArg (· :: (rest ++ [global])) (hscope hnext)

/-- A symbol is defined in the innermost scope, which did not have its name before. -/
theorem define_chain (h : s.define symbol = .ok (.inl s')) :
    s.lookupLocal? symbol.name = none ∧ s'.chain =
      { s.current with symbols := Keyed.insert symbol.name symbol s.current.symbols } ::
      s.chain.tail := by
  unfold define at h
  split at h
  · cases h
  · next hfree =>
      obtain ⟨next, hnext, h⟩ := Except.bind_eq_ok.1 h
      cases h
      exact ⟨hfree, write_chain hnext⟩

theorem define_lookupLocal? (h : s.define symbol = .ok (.inl s')) :
    s'.lookupLocal? symbol.name = some symbol := by
  have hcurrent := (chain_eq s').symm.trans (define_chain h).2
  rw [lookupLocal?, Scope.find?, (List.cons.inj hcurrent).1]
  exact Keyed.find?_insert_self _ _ _

/-- A symbol that is defined is found under its name; other names lead where they led before. -/
theorem define_lookup? (h : s.define symbol = .ok (.inl s')) (name : String) :
    s'.lookup? name = if name = symbol.name then some symbol else s.lookup? name := by
  have hscope : Scope.find?
    { s.current with symbols := Keyed.insert symbol.name symbol s.current.symbols } name =
      if name = symbol.name then some symbol else s.current.find? name := by
    split
    · next hname =>
        rw [hname]
        exact Keyed.find?_insert_self _ _ _
    · next hname => exact Keyed.find?_insert_ne hname _ _
  rw [lookup?, (define_chain h).2, findSome?_cons, hscope, lookup?, chain_eq s, findSome?_cons]
  by_cases hname : name = symbol.name
  · rw [if_pos hname, if_pos hname]
  · rw [if_neg hname, if_neg hname, tail_cons]

/-- The innermost scope has got symbols under new names; nothing else has changed. -/
def Grows (s s' : Scopes) : Prop :=
  ∃ added : Keyed Symbol, (∀ e ∈ added, s.lookupLocal? e.1 = none) ∧
    s'.chain = { s.current with symbols := s.current.symbols ++ added } :: s.chain.tail

theorem Grows.refl (s : Scopes) : s.Grows s := by
  refine ⟨[], forall_mem_nil _, ?_⟩
  rw [append_nil]
  exact chain_eq s

theorem Grows.trans {s s' s'' : Scopes} (h : s.Grows s') (h' : s'.Grows s'') : s.Grows s'' := by
  obtain ⟨added, hfree, hchain⟩ := h
  obtain ⟨more, hmore, hchain'⟩ := h'
  obtain ⟨hcurrent, houter⟩ := List.cons.inj ((chain_eq s').symm.trans hchain)
  refine ⟨added ++ more, forall_mem_append.2 ⟨hfree, fun e he => ?_⟩, ?_⟩
  · have hnone := hmore e he
    rw [lookupLocal?, hcurrent, Scope.find?, Keyed.find?_append, Option.or_eq_none_iff] at hnone
    exact hnone.1
  · rw [hchain', hcurrent, houter, append_assoc]

theorem Grows.frozen (h : s.Grows s') : s'.current.frozen = s.current.frozen := by
  obtain ⟨added, -, hchain⟩ := h
  rw [(List.cons.inj ((chain_eq s').symm.trans hchain)).1]

/-- Closing a scope that was opened gives back the scopes around it, however it has grown. -/
theorem Grows.pop {name : String} (h : (s.push name).Grows s') : s'.pop = s := by
  obtain ⟨added, -, hchain⟩ := h
  obtain ⟨inner, global⟩ := s
  obtain ⟨inner', global'⟩ := s'
  cases inner' with
  | nil => simp [chain, push] at hchain
  | cons scope rest =>
    obtain ⟨hinner, hglobal⟩ := append_inj' (List.cons.inj hchain).2 rfl
    cases hinner
    cases hglobal
    rfl

theorem define_grows (h : s.define symbol = .ok (.inl s')) : s.Grows s' := by
  obtain ⟨hfree, hchain⟩ := define_chain h
  refine ⟨[(symbol.name, symbol)], forall_mem_singleton.2 hfree, ?_⟩
  rw [hchain, Keyed.insert_of_find?_eq_none hfree]

end Scopes

namespace Inference

variable {scopes : Scopes} {env : Env}

theorem define_result {what : String} {scopes scopes' : Scopes} {symbol : Symbol} {span : Span}
    (h : (define what scopes symbol span).result = .ok scopes') :
    scopes.define symbol = .ok (.inl scopes') := by
  obtain ⟨defined, hdefined, h⟩ := bind_result_eq_ok.1 h
  cases defined with
  | inl next =>
    cases h
    exact hdefined
  | inr previous => cases h

theorem define_grows {what : String} {scopes scopes' : Scopes} {symbol : Symbol} {span : Span}
    (h : (define what scopes symbol span).result = .ok scopes') : scopes.Grows scopes' :=
  Scopes.define_grows (define_result h)

theorem declare_result {d : VarDecl} (h : (declare env d).result = .ok scopes) :
    ∃ t write, (declaredWrite env d).result = .ok (t, write) ∧
      (define "variable" env.scopes ⟨d.name, .variable, t, some d.origin.span, some d.declaration⟩
        d.origin.span).result = .ok scopes := by
  obtain ⟨⟨t, write⟩, hwrite, h⟩ := bind_result_eq_ok.1 h
  obtain ⟨next, hnext, h⟩ := bind_result_eq_ok.1 h
  obtain rfl := Except.ok.inj h
  exact ⟨t, write, hwrite, hnext⟩

theorem declare_grows {d : VarDecl} (h : (declare env d).result = .ok scopes) :
    env.scopes.Grows scopes := by
  obtain ⟨t, write, -, hdefine⟩ := declare_result h
  exact define_grows hdefine

theorem statement_scopes {around : Surroundings} {s : Stmt}
    (h : (statement env around s).result = .ok scopes) :
    (∃ d, s = .declare d ∧ (declare env d).result = .ok scopes) ∨ (∀ d, s ≠ .declare d) ∧
    scopes = env.scopes := by
  cases s with
  | declare d =>
    rw [statement] at h
    exact .inl ⟨d, rfl, h⟩
  | pass o =>
    rw [statement] at h
    cases h
    exact .inr ⟨fun _ => Stmt.noConfusion, rfl⟩
  | foreign f | unreadable =>
    rw [statement] at h
    cases h
  | assign o target e | expr o e | ret o e | panic o e | brk o | cont o | block o body
  | loop o c body
  | select o subject arms otherwise | iterate o name e body | cond o c body more otherwise =>
    rw [statement] at h
    -- whatever the steps before it conclude, the last one gives the scopes back
    repeat obtain ⟨_, -, h⟩ := bind_result_eq_ok.1 h
    cases h
    exact .inr ⟨fun _ => Stmt.noConfusion, rfl⟩

/-- **A statement changes the innermost scope alone.** -/
theorem statement_grows {around : Surroundings} {s : Stmt}
    (h : (statement env around s).result = .ok scopes) : env.scopes.Grows scopes := by
  obtain ⟨d, -, hdeclare⟩ | ⟨-, rfl⟩ := statement_scopes h
  · exact declare_grows hdeclare
  · exact .refl _

theorem loopScope_grows {o : Origin} {name : String} {t : Ty}
    (h : (loopScope env o name t).result = .ok scopes) :
    (env.scopes.push "for loop").Grows scopes := by
  obtain ⟨next, hnext, h⟩ := bind_result_eq_ok.1 h
  cases h
  exact define_grows hnext

theorem receiver_grows {scopes scopes' : Scopes} {param : Option Param} {type : Option Ty}
    (h : (receiver scopes param type).result = .ok scopes') : scopes.Grows scopes' := by
  unfold receiver at h
  split at h
  · obtain ⟨next, hnext, h⟩ := bind_result_eq_ok.1 h
    obtain ⟨_, -, h⟩ := bind_result_eq_ok.1 h
    cases h
    exact define_grows hnext
  · cases h
    exact .refl _

end Inference

end TreeTyping
