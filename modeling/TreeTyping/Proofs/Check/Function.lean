/-
What the acceptance of a function guarantees.

The body of a function is looked at twice.  Checking its statements counts the loops around each of
them and compares returns with the signature, in all of the body, and says nothing about which parts
are reached.  The analysis of its flow follows the paths through the body and would take a break
outside of loops for an ordinary end.  Together they leave no such break: where both succeed, every
path through the body of a function with a result ends in a return of such a result or never ends.
-/
import TreeTyping.Flow.Body
import TreeTyping.Proofs.Except
import TreeTyping.Proofs.Flow.Exactness
import TreeTyping.Proofs.Syntax.Reading
import TreeTyping.Proofs.Typing.Coverage
import TreeTyping.Proofs.Typing.Frame
import TreeTyping.Proofs.Typing.Soundness

namespace TreeTyping

/-! ### Leaving a loop -/

/-- A break or a continue. -/
def Stmt.isJump : Stmt → Bool
  | .brk _ | .cont _ => true
  | _ => false

theorem Rounds.exit {forever : Bool} {body : List Stmt} {x : Exit} :
    Rounds forever body x → x = .normal ∨ x = .returns
  | .done _ => .inl rfl
  | .again _ _ h => h.exit
  | .broken _ => .inl rfl
  | .returned _ => .inr rfl

theorem jump_of_block {s : Stmt} {body : List Stmt} (hb : (false, body) ∈ s.blocks)
    (h : ∃ a, a.isJump = true ∧ Stmt.OccursIn false a body) :
    ∃ a, a.isJump = true ∧ Stmt.Occurs false a s := by
  obtain ⟨a, ha, hin⟩ := h
  exact ⟨a, ha, .of_block hb hin⟩

mutual

/-- A run that leaves a statement by a break or continue gets to one in no loop inside. -/
theorem Ends.jump : ∀ {s : Stmt} {x : Exit}, Ends s x → ¬(x = .normal ∨ x = .returns) →
    ∃ a, a.isJump = true ∧ Stmt.Occurs false a s
  | _, _, .brk o, _ => ⟨.brk o, rfl, .self _⟩
  | _, _, .cont o, _ => ⟨.cont o, rfl, .self _⟩
  | _, _, .first h, hx => jump_of_block (Stmt.mem_blocks_cond.2 ⟨rfl, .inl rfl⟩) (h.jump hx)
  | _, _, .further hb h, hx =>
    jump_of_block (Stmt.mem_blocks_cond.2 ⟨rfl, .inr (.inl ⟨_, hb, rfl⟩)⟩) (h.jump hx)
  | _, _, .otherwise h, hx =>
    jump_of_block (Stmt.mem_blocks_cond.2 ⟨rfl, .inr (.inr rfl)⟩) (h.jump hx)
  | _, _, .arm ha h, hx => jump_of_block (Stmt.mem_blocks_select.2 ⟨rfl, .inl ⟨_, ha, rfl⟩⟩)
      (h.jump hx)
  | _, _, .default h, hx => jump_of_block (Stmt.mem_blocks_select.2 ⟨rfl, .inr rfl⟩) (h.jump hx)
  | _, _, .block h, hx => jump_of_block List.mem_cons_self (h.jump hx)
  | _, _, .loopForever _ h, hx | _, _, .loop _ h, hx | _, _, .iterate h, hx => absurd h.exit hx
  | _, _, .declare _, hx | _, _, .assign _ _ _, hx | _, _, .expr _ _, hx | _, _, .pass _, hx
  | _, _, .noBranch _ _ _ _, hx | _, _, .noArm _ _ _, hx | _, _, .loopNever _, hx =>
    absurd (.inl rfl) hx
  | _, _, .ret _ _, hx => absurd (.inr rfl) hx

theorem EndsAll.jump : ∀ {body : List Stmt} {x : Exit}, EndsAll body x →
    ¬(x = .normal ∨ x = .returns) → ∃ a, a.isJump = true ∧ Stmt.OccursIn false a body
  | _, _, .nil, hx => absurd (.inl rfl) hx
  | _, _, .next _ h, hx => by
      obtain ⟨a, ha, hin⟩ := h.jump hx
      exact ⟨a, ha, hin.tail⟩
  | _, _, .stop hs _, hx => by
      obtain ⟨a, ha, hin⟩ := hs.jump hx
      exact ⟨a, ha, .head hin⟩

end

/-! ### The two passes together -/

/-- What a check of a function records is in the table of what it records. -/
theorem table_holds_function {env : Env} {p : Place} {t : Tree} {f : FunctionDef}
    {signature : Signature} (hk : t.keysDistinct = true) (hf : FunctionDef.ofTree? p t = some f) :
    (Fact.table (Inference.function env f signature).facts).Holds
    (Inference.function env f signature).log := by
  refine Fact.table_holds (List.nodup_iff_count_le_one.2 fun q => ?_)
  have honce := List.nodup_iff_count_le_one.1 (FunctionDef.spread_ofTree? hk hf).nodup q
  exact Nat.le_trans (Inference.function_records.types q) honce

/-- In the body of a function, breaks and continues have a loop around them. -/
theorem BodyTyped.jump_in_loop {table : TypeTable} {env : Env} {signature : Signature}
    {body : List Stmt}
    {l : Bool} {a : Stmt} (h : BodyTyped table env { signature := some signature } body)
    (hin : Stmt.OccursIn l a body) (ha : a.isJump = true) : l = true := by
  obtain ⟨inner, out, -, htyped⟩ := h.occurs hin
  cases htyped with
  | brk hl | cont hl => exact hl
  | _ => cases ha

theorem BodyTyped.return_fits {table : TypeTable} {env : Env} {signature : Signature}
    {body : List Stmt}
    {l : Bool} {o : Origin} {v : Option Expr}
    (h : BodyTyped table env { signature := some signature } body)
    (hin : Stmt.OccursIn l (.ret o v) body) :
    match signature.result with
    | none => v = none
    | some r => ∃ e origin s, v = some e ∧ e.origin? = some origin ∧ table origin.place = some s ∧
        env.registry.Assignable r s := by
  obtain ⟨inner, out, hagrees, htyped⟩ := h.occurs hin
  cases htyped with
  | returnValue hs hr he ha =>
    obtain rfl := Option.some.inj hs
    obtain ⟨origin, horigin, hrecorded⟩ := he.recorded
    rw [hr]
    exact ⟨_, origin, _, rfl, horigin, hrecorded, hagrees.registry ▸ ha⟩
  | returnNothing hs hr =>
    obtain rfl := Option.some.inj hs
    rw [hr]

/-- A body that was found not to fall through has no run that gets to its end. -/
theorem not_ends_normal {f : FunctionDef} {warn : Bool} {signature : Signature} {e : Exits} {r : Ty}
    (he : (Reach.ofSequence warn f.body).result = .ok e) (hr : signature.result = some r)
    (hcomplaint : (f.bodyFlow warn signature).complaint = none) : ¬EndsAll f.body .normal := by
  intro hends
  have hnormal : e.normal = true := (Reach.ofSequence_exact he .normal).2 hends
  have hflow : Flow.ofExits e = .fallsThrough := by simp [Flow.ofExits, hnormal]
  simp [FunctionDef.bodyFlow, he, hr, hflow, Except.map] at hcomplaint

/--
**What the acceptance of a function guarantees.**  Every break and continue in its body has a loop
around it, so the body is never left by one.  If the function has a result, no run gets to the end
of the body, and every return, reached or not, has a value whose recorded type can be stored under
the result.  If it has none, no return has a value.
-/
theorem accepted_function {env : Env} {p : Place} {t : Tree} {f : FunctionDef}
    {signature : Signature}
    {warn : Bool} {flow : Flow} (hk : t.keysDistinct = true) (hf : FunctionDef.ofTree? p t = some f)
    (hcheck : (Inference.function env f signature).result = .ok ())
    (hflow : (f.bodyFlow warn signature).flow = .ok flow)
    (hcomplaint : (f.bodyFlow warn signature).complaint = none) :
    (∀ l a, Stmt.OccursIn l a f.body → a.isJump = true → l = true) ∧
    (∃ e, (Reach.ofSequence warn f.body).result = .ok e ∧ .breaks ∉ e ∧ .continues ∉ e) ∧
    (∀ r, signature.result = some r → ¬EndsAll f.body .normal ∧
      ∀ l o v, Stmt.OccursIn l (.ret o v) f.body → ∃ e origin s, v = some e ∧
        e.origin? = some origin ∧
        Fact.typeAt? origin.place (Inference.function env f signature).facts = some s ∧
        env.registry.isAssignable r s = .ok true) ∧
    (signature.result = none → ∀ l o v, Stmt.OccursIn l (.ret o v) f.body → v = none) := by
  have hholds : (Fact.table (Inference.function env f signature).facts).Holds _ :=
    table_holds_function hk hf
  obtain ⟨scopes, hbody⟩ := Inference.function_body_ensures () hcheck hholds
  obtain ⟨e, he⟩ : ∃ e, (Reach.ofSequence warn f.body).result = .ok e := by
    rcases he : (Reach.ofSequence warn f.body).result with fault | e
    · simp [FunctionDef.bodyFlow, he, Except.map] at hflow
    · exact ⟨e, rfl⟩
  have hjump : ∀ l a, Stmt.OccursIn l a f.body → a.isJump = true → l = true :=
    fun l a hin ha => hbody.jump_in_loop hin ha
  have hstays : ∀ x, ¬(x = .normal ∨ x = .returns) → x ∉ e := by
    intro x hx hmem
    obtain ⟨a, ha, hin⟩ := ((Reach.ofSequence_exact he x).1 hmem).jump hx
    cases hjump false a hin ha
  refine ⟨hjump, ⟨e, he, hstays _ (by simp), hstays _ (by simp)⟩, fun r hr => ⟨?_, ?_⟩, ?_⟩
  · exact not_ends_normal he hr hcomplaint
  · intro l o v hin
    have hfits := hbody.return_fits hin
    rw [hr] at hfits
    exact hfits
  · intro hr l o v hin
    have hfits := hbody.return_fits hin
    rw [hr] at hfits
    exact hfits

/-- `func pick(n: int) -> int: while true: if n > 0: return n else: continue`, as a tree. -/
def pickTree : Tree :=
  let name : Tree := .node .identifier .nowhere [.text "n"]
  let zero : Tree := .node .literal .nowhere [.int 0, .literalKind .int]
  let positive : Tree := .node .binaryOp .nowhere [name, .operator .gt, zero]
  let branch (s : Tree) : Tree := .node .block .nowhere [.list [s]]
  let choice : Tree := .node .ifStatement .nowhere
    [positive, branch (.node .returnStatement .nowhere [name]), .list [],
     branch (.node .continueStatement .nowhere [])]
  let forever : Tree := .node .whileStatement .nowhere
    [.node .literal .nowhere [.bool true, .literalKind .bool], branch choice]
  let int : Tree := .node .simpleType .nowhere [.text "int"]
  .node .functionDef .nowhere
    [.text "pick", .list [.node .parameter .nowhere [.text "n", int]], int, branch forever, .null]

/-- The function of that tree. -/
def pick : FunctionDef := (FunctionDef.ofTree? (.root 0) pickTree).get rfl

/-- The function is accepted, so no run gets to its end, and it returns an `int` throughout. -/
theorem accepted_pick :
    let env : Env := ⟨{}, .int 64, [], {}⟩
    let signature : Signature := ⟨"pick", [("n", .int)], some .int, none, .nowhere⟩
    (Inference.function env pick signature).result = .ok () ∧
    (pick.bodyFlow true signature).flow = .ok .returns ∧
    (∀ l a, Stmt.OccursIn l a pick.body → a.isJump = true → l = true) ∧ ¬EndsAll pick.body .normal ∧
    ∀ l o v, Stmt.OccursIn l (.ret o v) pick.body → ∃ e origin s, v = some e ∧
      e.origin? = some origin ∧
      Fact.typeAt? origin.place (Inference.function env pick signature).facts = some s ∧
      env.registry.isAssignable .int s = .ok true := by
  intro env signature
  have hread : FunctionDef.ofTree? (.root 0) pickTree = some pick := rfl
  have hcheck : (Inference.function env pick signature).result = .ok () :=
    Except.toOption_eq_some.1 (by decide +kernel)
  have hflow : (pick.bodyFlow true signature).flow = .ok .returns := rfl
  obtain ⟨hjump, -, hresult, -⟩ := accepted_function rfl hread hcheck hflow rfl
  exact ⟨hcheck, hflow, hjump, hresult .int rfl⟩

end TreeTyping
