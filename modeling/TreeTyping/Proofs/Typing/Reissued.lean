/-
Checking in an environment that is issued anew.

An environment refers to a registry, to signatures and to symbols.  When the registry is issued
anew, so are the types of the others.  Every rule is followed by the same rule in the new
environment: expressions yield the same up to identities, statements leave the same scopes, and the
body of a function is checked with the same outcome.  Rules only ever deal with types that are
known, which is what members and interfaces of a new registry are compared for.

The comparison goes by induction on expressions and statements.  One rule is compared on its own: a
member is looked up among more members than before, and a name that was a member is one still.
-/
import TreeTyping.Proofs.Syntax.Occurrence
import TreeTyping.Proofs.Typing.Following
import TreeTyping.Proofs.Typing.Scoping

namespace TreeTyping

open List

/-! ### Environments -/

namespace Reissue

variable (v : Reissue)

/-- The type of what an expression yields is known. -/
def KnownYield : Yield → Prop
  | .value t => v.Known t
  | .nothing _ => True

/-- The types of a signature are known. -/
structure KnownSignature (s : Signature) : Prop where
  params : ∀ p ∈ s.params, v.Known p.2
  result : ∀ t ∈ s.result, v.Known t
  receiver : ∀ t ∈ s.receiver, v.Known t

/-- The types of all symbols in scope are known. -/
def KnownScopes (s : Scopes) : Prop := ∀ scope ∈ s.chain, ∀ e ∈ scope.symbols, v.Known e.2.type

variable {v}

theorem KnownSignature.type {s : Signature} (h : v.KnownSignature s) : v.Known s.type := by
  refine known_function.2 ⟨fun t ht => ?_, h.result⟩
  obtain ⟨p, hp, rfl⟩ := mem_map.1 ht
  exact h.params p hp

namespace KnownScopes

variable {s : Scopes}

theorem lookup? (h : v.KnownScopes s) {name : String} {symbol : Symbol}
    (hs : s.lookup? name = some symbol) : v.Known symbol.type := by
  obtain ⟨scope, hscope, hfind⟩ := exists_of_findSome?_eq_some hs
  exact h scope hscope _ (Keyed.mem_of_find? hfind)

theorem push (h : v.KnownScopes s) (name : String) : v.KnownScopes (s.push name) := by
  intro scope hscope
  rcases mem_cons.1 hscope with rfl | hscope
  · exact forall_mem_nil _
  · exact h scope hscope

theorem define (h : v.KnownScopes s) {symbol : Symbol} (hsymbol : v.Known symbol.type) {s' : Scopes}
    (hs : s.define symbol = .ok (.inl s')) : v.KnownScopes s' := by
  rw [KnownScopes, Scopes.chain_eq, forall_mem_cons] at h
  rw [KnownScopes, (Scopes.define_chain hs).2, forall_mem_cons]
  refine ⟨fun e he => ?_, h.2⟩
  rcases Keyed.mem_insert he with he | heq
  · exact h.1 e he
  · rw [heq]
    exact hsymbol

end KnownScopes

end Reissue

/-- What the name in a call stands for, with the identities in it renamed. -/
def Callee.rename (σ : Renaming) : Callee → Callee
  | .function params result => .function (params.map (Ty.rename σ)) (result.map (Ty.rename σ))
  | .conversion target => .conversion (target.rename σ)
  | .notCallable t => .notCallable (t.rename σ)
  | .unknown => .unknown

/-- What surrounds a statement, with the identities in it renamed. -/
def Surroundings.rename (σ : Renaming) (s : Surroundings) : Surroundings :=
  { s with signature := s.signature.map (Signature.rename σ) }

/-- A write with the identities in its type renamed. -/
def Write.rename (σ : Renaming) (w : Write) : Write := { w with type := w.type.rename σ }

namespace Env

/--
One environment comes from another: the registry is issued anew, signatures and symbols are the same
up to identities, and the types they refer to are known.
-/
structure Reissued (v : Reissue) (env env' : Env) : Prop where
  registry : env.registry.Reissued v env'.registry
  wordBits : env'.wordBits = env.wordBits
  functions : env'.functions = env.functions.mapValues (Signature.rename v.ids)
  scopes : env'.scopes = env.scopes.rename v.ids
  knownFunctions : ∀ e ∈ env.functions, v.KnownSignature e.2
  knownScopes : v.KnownScopes env.scopes

namespace Reissued

variable {v : Reissue} {env env' : Env} (h : env.Reissued v env')

include h

theorem withScopes {scopes : Scopes} (hscopes : v.KnownScopes scopes) :
    (env.withScopes scopes).Reissued v (env'.withScopes (scopes.rename v.ids)) :=
  ⟨h.registry, h.wordBits, h.functions, rfl, h.knownFunctions, hscopes⟩

theorem inside (scope : String) : (env.inside scope).Reissued v (env'.inside scope) := by
  have hinside : env'.inside scope = env'.withScopes ((env.scopes.push scope).rename v.ids) := by
    rw [Env.inside, h.scopes, Scopes.push_rename]
  rw [hinside]
  exact h.withScopes (h.knownScopes.push scope)

theorem typeOfName? (name : String) :
    env'.typeOfName? name = (env.typeOfName? name).map (Ty.rename v.ids) := by
  rw [Env.typeOfName?, Env.typeOfName?, h.scopes, Scopes.lookup?_rename, h.functions,
    Keyed.find?_mapValues]
  rcases env.scopes.lookup? name with _ | symbol
  · rcases env.functions.find? name with _ | signature
    · rfl
    · exact congrArg some (Signature.type_rename _ _)
  · rfl

theorem typeOfName?_known {name : String} {t : Ty} (ht : env.typeOfName? name = some t) :
    v.Known t := by
  unfold Env.typeOfName? at ht
  split at ht
  · next symbol hsymbol =>
      cases ht
      exact h.knownScopes.lookup? hsymbol
  · obtain ⟨signature, hsignature, rfl⟩ := Option.map_eq_some_iff.1 ht
    exact (h.knownFunctions _ (Keyed.mem_of_find? hsignature)).type

theorem calleeOf (name : String) : env'.calleeOf name = (env.calleeOf name).rename v.ids := by
  rw [Env.calleeOf, Env.calleeOf, h.typeOfName?, h.registry.names]
  rcases env.typeOfName? name with _ | t
  · rcases env.registry.lookup? name with _ | t <;> rfl
  · cases t with
    | function params result =>
      simp only [Option.map_some, Ty.rename, Ty.renameList_eq, Ty.renameOption_eq]
      rfl
    | _ => rfl

theorem calleeOf_function {name : String} {params : List Ty} {result : Option Ty}
    (hcallee : env.calleeOf name = .function params result) :
    v.Known (.function params result) := by
  unfold Env.calleeOf at hcallee
  split at hcallee
  · next hname =>
      cases hcallee
      exact h.typeOfName?_known hname
  · cases hcallee
  · split at hcallee <;> cases hcallee

theorem calleeOf_conversion {name : String} {target : Ty}
    (hcallee : env.calleeOf name = .conversion target) : v.Known target := by
  unfold Env.calleeOf at hcallee
  split at hcallee
  · cases hcallee
  · cases hcallee
  · split at hcallee
    · next hlookup =>
        cases hcallee
        exact h.registry.named name target hlookup
    · cases hcallee

end Reissued

end Env

/-! ### Single rules -/

namespace Inference

variable {v : Reissue} {r r' : Registry} {env env' : Env}

/-- An inference that yields something follows another, and the type of what is yielded is known. -/
abbrev Yielded (v : Reissue) (x y : Inference Yield) :
    Prop := Follows v (Yield.rename v.ids) v.KnownYield x y

/-- An inference that leaves scopes follows another, and the types in them are known. -/
abbrev Scoped (v : Reissue) (x y : Inference Scopes) :
    Prop := Follows v (Scopes.rename v.ids) v.KnownScopes x y

theorem value_follows {span? : Option Span} {x y : Inference Yield} (h : Yielded v x y) :
    Types v (value span? x) (value span? y) := by
  refine .bind h fun outcome hknown => ?_
  cases outcome with
  | value t => exact .pure hknown
  | nothing procedure => exact .bind spanOf_follows fun _ _ => .complain

theorem conclude_follows (o : Origin) {t : Ty} (ht : v.Known t) :
    Yielded v (conclude o t) (conclude o (t.rename v.ids)) :=
  .skip (.find rfl) fun _ => .pure ht

theorem concludeCall_follows (o : Origin) (name : String) {result : Option Ty}
    (hresult : ∀ t ∈ result, v.Known t) :
    Yielded v (concludeCall o name result)
      (concludeCall o name (result.map (Ty.rename v.ids))) := by
  cases result with
  | none => exact .pure trivial
  | some t => exact conclude_follows o (hresult t rfl)

theorem typeFor_rename (σ : Renaming) (kind : LiteralKind) (expected : Option Ty) :
    kind.typeFor (expected.map (Ty.rename σ)) = kind.typeFor expected := by
  rcases expected with _ | t
  · rfl
  · cases t <;> rfl

theorem typeFor_primitive (kind : LiteralKind) (expected : Option Ty) :
    ∃ p, kind.typeFor expected = .primitive p := by
  unfold LiteralKind.typeFor
  split
  · split
    · exact ⟨_, rfl⟩
    · cases kind <;> exact ⟨_, rfl⟩
  · cases kind <;> exact ⟨_, rfl⟩

theorem literalType_follows (wordBits : Number) (expected : Option Ty) (negated : Bool)
    (value : Value)
    (kind : Option LiteralKind) (span : Span) :
    Types v (literalType wordBits expected negated value kind span)
      (literalType wordBits (expected.map (Ty.rename v.ids)) negated value kind span) := by
  cases kind with
  | none => exact .faulty
  | some kind =>
    have hsame : literalType wordBits (expected.map (Ty.rename v.ids)) negated value
      (some kind) span =
        literalType wordBits expected negated value (some kind) span := by
      rw [literalType, literalType, typeFor_rename]
    rw [hsame]
    refine .of_result (literalType_plain.silent (r := {})) (literalType_plain.silent (r := {}))
      (fun t ht => ?_) fun _ f hf => hf
    obtain ⟨p, hp⟩ := typeFor_primitive kind expected
    obtain ⟨_, -, heq⟩ := bind_result_eq_ok.1 ht
    obtain rfl : kind.typeFor expected = t := Except.ok.inj heq
    rw [ht, hp]
    exact ⟨rfl, Reissue.known_primitive p⟩

theorem nameType_follows (h : env.Reissued v env') (name : String) (span : Span) :
    Types v (nameType env name span) (nameType env' name span) := by
  unfold nameType
  rw [h.typeOfName?]
  rcases hname : env.typeOfName? name with _ | t
  · exact .complain
  · exact .pure (h.typeOfName?_known hname)

theorem requireCount_follows (name : String) (params : List Ty) (args : List Expr) (span : Span) :
    Passes v (requireCount name params args span)
      (requireCount name (params.map (Ty.rename v.ids)) args span) := by
  unfold requireCount
  rw [length_map]
  split
  · exact .pure trivial
  · exact .complain

theorem binaryResult?_rename (σ : Renaming) (op : Operator) (t w : Ty) :
    op.binaryResult? (t.rename σ) (w.rename σ) = (op.binaryResult? t w).map (Ty.rename σ) := by
  have hstring : w.rename σ = .string ↔ w = .string := Ty.rename_eq_primitive σ w
  have hbool : t.rename σ = .bool ↔ t = .bool := Ty.rename_eq_primitive σ t
  rw [Operator.binaryResult?, Operator.binaryResult?]
  simp only [Ty.isNumeric_rename, hstring, hbool]
  cases op.family with
  | equality => rfl
  | negation => rfl
  | arithmetic => dsimp only; split <;> rfl
  | ordering => dsimp only; split <;> rfl
  | logical => dsimp only; split <;> rfl

theorem unaryResult?_rename (σ : Renaming) (op : Operator) (t w : Ty) :
    op.unaryResult? (t.rename σ) (w.rename σ) = (op.unaryResult? t w).map (Ty.rename σ) := by
  have hbool : t.rename σ = .bool ↔ t = .bool := Ty.rename_eq_primitive σ t
  unfold Operator.unaryResult?
  simp only [Ty.isNumeric_rename, Ty.isSigned_rename, hbool]
  split
  · split <;> rfl
  · split <;> rfl
  · split <;> rfl
  · rfl

theorem binaryResult?_known {op : Operator} {t w u : Ty} (ht : v.Known t)
    (h : op.binaryResult? t w = some u) : v.Known u := by
  cases joins_of_binaryResult? h with
  | arithmetic => exact ht
  | _ => exact Reissue.known_primitive _

theorem unaryResult?_known {op : Operator} {t w u : Ty} (ht : v.Known t)
    (h : op.unaryResult? t w = some u) : v.Known u := by
  cases turns_of_unaryResult? h with
  | not => exact Reissue.known_primitive _
  | _ => exact ht

theorem binaryType_follows (h : r.Reissued v r') (op : Option Operator) {left right : Ty}
    (hleft : v.Known left) (span : Span) :
    Types v (binaryType r op left right span)
      (binaryType r' op (left.rename v.ids) (right.rename v.ids) span) := by
  cases op with
  | none => exact .faulty
  | some op =>
    unfold binaryType
    dsimp only
    simp only [ne_eq, Ty.rename_inj, Ty.name_rename]
    split
    · exact .complain
    · refine .bind (resolve_follows h hleft) fun resolved _ => ?_
      rw [binaryResult?_rename]
      rcases hresult : op.binaryResult? left resolved with _ | t
      · exact .complain
      · exact .pure (binaryResult?_known hleft hresult)

theorem unaryType_follows (h : r.Reissued v r') (op : Option Operator) {operand : Ty}
    (hoperand : v.Known operand)
    (span : Span) : Types v (unaryType r op operand span)
      (unaryType r' op (operand.rename v.ids) span) := by
  refine .bind (resolve_follows h hoperand) fun resolved _ => ?_
  cases op with
  | none => exact .faulty
  | some op =>
    dsimp only
    simp only [unaryResult?_rename, Ty.name_rename]
    rcases hresult : op.unaryResult? operand resolved with _ | t
    · exact .complain
    · exact .pure (unaryResult?_known hoperand hresult)

/-! The type of a composed literal is one of the two types of its backing. -/

section Backings

variable {expected : Option Ty} {b : Backing}

theorem listType_rename {σ : Renaming} :
    listType (expected.map (Ty.rename σ)) (b.rename σ) = (listType expected b).rename σ := by
  rcases expected with _ | t
  · rfl
  · cases t <;> rfl

theorem mapType_rename {σ : Renaming} :
    mapType (expected.map (Ty.rename σ)) (b.rename σ) = (mapType expected b).rename σ := by
  rcases expected with _ | t
  · rfl
  · cases t <;> rfl

theorem setType_rename {σ : Renaming} :
    setType (expected.map (Ty.rename σ)) (b.rename σ) = (setType expected b).rename σ := by
  rcases expected with _ | t
  · rfl
  · cases t <;> rfl

theorem listType_known (h : v.KnownBacking b) : v.Known (listType expected b) := by
  unfold listType
  split
  · exact h.1
  · exact h.2

theorem mapType_known (h : v.KnownBacking b) : v.Known (mapType expected b) := by
  unfold mapType
  split
  · exact h.1
  · exact h.2

theorem setType_known (h : v.KnownBacking b) : v.Known (setType expected b) := by
  unfold setType
  split
  · exact h.1
  · exact h.2

end Backings

section Rules

variable (h : env.Reissued v env')

include h

theorem methodType_follows {object : Ty} (ho : v.Known object) (name : String) (span : Span) :
    Follows v (Prod.map (List.map (Ty.rename v.ids)) (Option.map (Ty.rename v.ids)))
      (fun m => (∀ t ∈ m.1, v.Known t) ∧ ∀ t ∈ m.2, v.Known t)
      (methodType env object name span) (methodType env' (object.rename v.ids) name span) := by
  refine .bind (.lift (P := fun ms => env.registry.membersOf object = .ok ms)
    (h.registry.membersOf object) fun _ hms => hms) fun ms hms => ?_
  rcases h.registry.find?_members_cases ho hms name with ⟨hnone, hnone'⟩ |
    ⟨m, hfind, hfind', hknown⟩
  · rw [hnone]
    refine .fail_of_exact fun hv => ?_
    rw [hnone' hv]
    simp only [Ty.name_rename]
    rfl
  · rw [hfind, hfind']
    obtain ⟨_, kind, type⟩ := m
    dsimp only [Member.rename]
    simp only [Ty.name_rename]
    cases kind with
    | field => exact .complain
    | method =>
      cases type with
      | function params result =>
        simp only [Ty.rename, Ty.renameList_eq, Ty.renameOption_eq]
        exact .pure (Reissue.known_function.1 hknown)
      | _ => exact .faulty

theorem fieldType_follows {object : Ty} (ho : v.Known object) (name : String) (span : Span) :
    Types v (fieldType env object name span) (fieldType env' (object.rename v.ids) name span) := by
  refine .bind (.lift (P := fun ms => env.registry.membersOf object = .ok ms)
    (h.registry.membersOf object) fun _ hms => hms) fun ms hms => ?_
  rcases h.registry.find?_members_cases ho hms name with ⟨hnone, hnone'⟩ |
    ⟨m, hfind, hfind', hknown⟩
  · rw [hnone]
    refine .fail_of_exact fun hv => ?_
    rw [hnone' hv]
    simp only [Ty.name_rename]
    rfl
  · rw [hfind, hfind']
    obtain ⟨_, kind, type⟩ := m
    dsimp only [Member.rename]
    simp only [Ty.name_rename]
    cases kind with
    | field => exact .pure hknown
    | method => exact .complain

theorem conversionExpected_follows {target : Ty} (ht : v.Known target) (operand : Expr) :
    Follows v (Option.map (Ty.rename v.ids)) (fun expected => ∀ t ∈ expected, v.Known t)
      (conversionExpected env target operand)
      (conversionExpected env' (target.rename v.ids) operand) := by
  refine .bind (resolve_follows h.registry ht) fun resolved hresolved => ?_
  split
  · exact .pure (by simpa using hresolved)
  · exact .pure nofun

theorem literalStruct_follows (name : String) (span : Span) :
    Follows v (Prod.map (Ty.rename v.ids) (Keyed.mapValues (Ty.rename v.ids)))
      (fun s => v.Known s.1 ∧ ∀ f ∈ s.2, v.Known f.2)
      (literalStruct env name span) (literalStruct env' name span) := by
  have hnamed : TreeTyping.Safe (fun _ => True) (env.registry.resolve name span) fun t =>
      _ = some t :=
    env.registry.resolve_safe name span
  refine .bind (.lift (P := v.Known) (Registry.resolve_rename h.registry.names name span)
    fun t ht => h.registry.named name t (hnamed.of_ok ht)) fun t ht => ?_
  refine .bind (resolve_follows h.registry ht) fun resolved hresolved => ?_
  simp only [Ty.name_rename]
  cases resolved with
  | struct n =>
    dsimp only [Ty.rename]
    rw [h.registry.structFields]
    exact .pure ⟨ht, h.registry.structFields_known (forall_mem_singleton.1 hresolved)⟩
  | _ => exact .complain

omit h in
theorem requireAllFields_follows (struct : Ty) (declared : Keyed Ty) (given : List String)
    (span : Span) : Passes v (requireAllFields struct declared given span)
      (requireAllFields (struct.rename v.ids) (declared.mapValues (Ty.rename v.ids))
        given span) := by
  unfold requireAllFields
  simp only [Keyed.names_mapValues, Ty.name_rename]
  split
  · exact .pure trivial
  · exact .complain

end Rules

/-! ### Expressions -/

/-- What an expression yields is followed in an environment issued anew, wherever it stands. -/
def Carried (v : Reissue) (env env' : Env) (e : Expr) : Prop :=
  ∀ expected, (∀ t ∈ expected, v.Known t) →
    Yielded v (yieldOf env expected e) (yieldOf env' (expected.map (Ty.rename v.ids)) e)

namespace Carried

variable {e : Expr}

theorem at_place (h : Carried v env env' e) {expected : Option Ty}
    (hexpected : ∀ t ∈ expected, v.Known t) :
    Types v (infer env expected e) (infer env' (expected.map (Ty.rename v.ids)) e) :=
  value_follows (h expected hexpected)

/-- A place that asks for nothing. -/
theorem alone (h : Carried v env env' e) : Types v (infer env none e) (infer env' none e) :=
  value_follows (h none nofun)

/-- A place that asks for a type. -/
theorem wanted (h : Carried v env env' e) {t : Ty} (ht : v.Known t) :
    Types v (infer env (some t) e) (infer env' (some (t.rename v.ids)) e) :=
  value_follows (h (some t) (by simpa using ht))

end Carried

theorem items_follows {elements : List Expr} (h : ∀ e ∈ elements, Carried v env env' e)
    {expected : Option Ty} (hexpected : ∀ t ∈ expected, v.Known t) :
    Follows v (List.map (Ty.rename v.ids)) (fun types => ∀ t ∈ types, v.Known t)
      (items env expected elements) (items env' (expected.map (Ty.rename v.ids)) elements) := by
  induction elements with
  | nil =>
    rw [items, items]
    exact .pure (forall_mem_nil _)
  | cons e rest ih =>
    obtain ⟨he, hrest⟩ := forall_mem_cons.1 h
    rw [items, items]
    exact .bind (he.at_place hexpected) fun t ht => .bind (ih hrest) fun types htypes =>
      .pure (forall_mem_cons.2 ⟨ht, htypes⟩)

theorem entries_follows {pairs : List (Expr × Expr)}
    (h : ∀ e ∈ pairs, Carried v env env' e.1 ∧ Carried v env env' e.2) {expected : Option (Ty × Ty)}
    (hexpected : ∀ e ∈ expected, v.Known e.1 ∧ v.Known e.2) :
    Follows v (List.map (Prod.map (Ty.rename v.ids) (Ty.rename v.ids)))
      (fun types => ∀ e ∈ types, v.Known e.1 ∧ v.Known e.2) (entries env expected pairs)
      (entries env' (expected.map (Prod.map (Ty.rename v.ids) (Ty.rename v.ids))) pairs) := by
  obtain ⟨hkey, hvalue⟩ := entry_known hexpected
  induction pairs with
  | nil =>
    rw [entries, entries]
    exact .pure (forall_mem_nil _)
  | cons e rest ih =>
    obtain ⟨k, w⟩ := e
    obtain ⟨⟨hk, hw⟩, hrest⟩ := forall_mem_cons.1 h
    rw [entries, entries, entry_fst_rename, entry_snd_rename]
    exact .bind (hk.at_place hkey) fun key hkey' => .bind (hw.at_place hvalue) fun value hvalue' =>
      .bind (ih hrest) fun types htypes => .pure (forall_mem_cons.2 ⟨⟨hkey', hvalue'⟩, htypes⟩)

section Expressions

variable (h : env.Reissued v env')

include h

theorem arguments_follows {args : List Expr} (hargs : ∀ e ∈ args, Carried v env env' e)
    {params : List Ty} (hparams : ∀ t ∈ params, v.Known t) :
    Passes v (arguments env params args) (arguments env' (params.map (Ty.rename v.ids)) args) := by
  induction args generalizing params with
  | nil =>
    rw [arguments, arguments]
    · exact .pure trivial
    · intro _ _ _ _ _ h
      cases h
    · intro _ _ _ _ _ h
      cases h
  | cons arg args ih =>
    obtain ⟨harg, hargs⟩ := forall_mem_cons.1 hargs
    cases params with
    | nil =>
      rw [map_nil, arguments, arguments]
      · exact .pure trivial
      · intro _ _ _ _ h
        cases h
      · intro _ _ _ _ h
        cases h
    | cons param params =>
      obtain ⟨hparam, hparams⟩ := forall_mem_cons.1 hparams
      rw [map_cons, arguments, arguments]
      exact .bind (harg.wanted hparam) fun t _ => .bind spanOf_follows fun span _ =>
        .skip (requireAssignable_follows h.registry param t span) fun _ => ih hargs hparams

theorem fields_follows {given : List (String × Expr)} (hgiven : ∀ g ∈ given, Carried v env env' g.2)
    (struct : Ty) {declared : Keyed Ty} (hdeclared : ∀ f ∈ declared, v.Known f.2) :
    Passes v (fields env struct declared given)
      (fields env' (struct.rename v.ids) (declared.mapValues (Ty.rename v.ids)) given) := by
  induction given with
  | nil =>
    rw [fields, fields]
    exact .pure trivial
  | cons g rest ih =>
    obtain ⟨name, e⟩ := g
    obtain ⟨he, hrest⟩ := forall_mem_cons.1 hgiven
    rw [fields, fields, Keyed.find?_mapValues]
    rcases hfind : declared.find? name with _ | t
    · simp only [Option.map_none, Ty.name_rename]
      exact .bind spanOf_follows fun _ _ => .complain
    · exact .bind (he.wanted (hdeclared _ (Keyed.mem_of_find? hfind))) fun found _ =>
        .bind spanOf_follows fun span _ => .skip (requireAssignable_follows h.registry t found span)
          fun _ => ih hrest

theorem binary_carried {o : Origin} {left right : Expr} {op : Option Operator}
    (hl : Carried v env env' left)
    (hr : Carried v env env' right) : Carried v env env' (.binary o left op right) := by
  intro expected _
  rw [yieldOf, yieldOf]
  split
  · exact .bind hr.alone fun rt hrt => .bind (hl.wanted hrt) fun lt hlt =>
      .bind (binaryType_follows h.registry op hlt o.span) fun t ht => conclude_follows o ht
  · exact .bind hl.alone fun lt hlt => .bind (hr.wanted hlt) fun rt hrt =>
      .bind (binaryType_follows h.registry op hlt o.span) fun t ht => conclude_follows o ht

omit h in
theorem yieldOf_unary {o : Origin} {op : Option Operator} {operand : Expr}
    (hother : ∀ inner value kind, operand ≠ .literal inner value kind) (expected : Option Ty) :
    yieldOf env expected (.unary o op operand) =
      infer env none operand >>= fun t => unaryType env.registry op t o.span >>= fun u =>
        conclude o u := by
  rw [yieldOf]
  · rfl
  · exact hother

theorem unary_carried {o : Origin} {operand : Expr} {op : Option Operator}
    (he : Carried v env env' operand) : Carried v env env' (.unary o op operand) := by
  intro expected hexpected
  by_cases hother : ∀ inner value kind, operand ≠ .literal inner value kind
  · rw [yieldOf_unary hother, yieldOf_unary hother]
    exact .bind he.alone fun t ht =>
      .bind (unaryType_follows h.registry op ht o.span) fun u hu => conclude_follows o hu
  · obtain ⟨inner, value, kind, rfl⟩ : ∃ inner value kind, operand = .literal inner value kind := by
      simpa using hother
    have hplace : (if op.any Operator.isSign then expected.map (Ty.rename v.ids) else none) =
        (if op.any Operator.isSign then expected else none).map (Ty.rename v.ids) := by
      split <;> rfl
    rw [yieldOf, yieldOf, h.wordBits, hplace]
    exact .bind (literalType_follows _ _ _ _ _ _) fun t ht => .skip (.find rfl) fun _ =>
      .bind (unaryType_follows h.registry op ht o.span) fun u hu => conclude_follows o hu

theorem conversion_follows {o : Origin} {target : Ty} (ht : v.Known target) {operand : Expr}
    (he : Carried v env env' operand) :
    Yielded v
      (conversionExpected env target operand >>= fun expected => infer env expected operand >>=
        fun source =>
        requireConvertible env.registry target source o.span >>= fun _ => conclude o target)
      (conversionExpected env' (target.rename v.ids) operand >>=
        fun expected => infer env' expected operand >>=
        fun source => requireConvertible env'.registry (target.rename v.ids)
          source o.span >>= fun _ =>
          conclude o (target.rename v.ids)) :=
  .bind (conversionExpected_follows h ht operand) fun _ hexpected => .bind (he.at_place hexpected)
    fun _ hsource => .skip (requireConvertible_follows h.registry ht hsource o.span) fun _ =>
      conclude_follows o ht

theorem call_carried {o : Origin} {callee : Expr} {args : List Expr}
    (hargs : ∀ e ∈ args, Carried v env env' e) : Carried v env env' (.call o callee args) := by
  intro expected _
  cases callee with
  | identifier n name =>
    rw [yieldOf, yieldOf, h.calleeOf]
    rcases hcallee : env.calleeOf name with ⟨params, result⟩ | target | t | _
    · have hknown := h.calleeOf_function hcallee
      obtain ⟨hparams, hresult⟩ := Reissue.known_function.1 hknown
      have htype : (Ty.function params result).rename v.ids =
          .function (params.map (Ty.rename v.ids)) (result.map (Ty.rename v.ids)) := by
        simp only [Ty.rename, Ty.renameList_eq, Ty.renameOption_eq]
      dsimp only [Callee.rename]
      rw [← htype]
      exact .skip (.find rfl) fun _ => .skip (requireCount_follows name params args o.span) fun _ =>
        .skip (arguments_follows h hargs hparams) fun _ => concludeCall_follows o name hresult
    · have hknown := h.calleeOf_conversion hcallee
      dsimp only [Callee.rename]
      rcases args with _ | ⟨operand, _ | ⟨second, more⟩⟩
      · exact .complain
      · exact conversion_follows h hknown (hargs operand mem_cons_self)
      · exact .complain
    · dsimp only [Callee.rename]
      simp only [Ty.name_rename]
      exact .complain
    · exact .complain
  | _ =>
    rw [yieldOf, yieldOf]
    · exact .bind spanOf_follows fun _ _ => .complain
    · intro _ _ h
      cases h
    · intro _ _ h
      cases h

theorem index_carried {o : Origin} {object i : Expr} (ho : Carried v env env' object)
    (hi : Carried v env env' i) : Carried v env env' (.index o object i) := by
  intro expected _
  rw [yieldOf, yieldOf]
  refine .bind ho.alone fun t ht =>
    .bind (resolve_follows h.registry ht) fun resolved hresolved => ?_
  rw [Ty.listElement?_rename, Ty.mapEntry?_rename]
  rcases hlist : resolved.listElement? with _ | element
  · rcases hmap : resolved.mapEntry? with _ | ⟨key, value⟩
    · simp only [Option.map_none, Ty.name_rename]
      exact .complain
    · obtain ⟨hkey, hvalue⟩ := hresolved.mapEntry? _ hmap
      exact .bind (hi.wanted hkey) fun found _ => .bind spanOf_follows fun span _ =>
        .skip (requireAssignable_follows h.registry key found span) fun _ =>
          conclude_follows o hvalue
  · refine .bind hi.alone fun found _ => ?_
    rw [Ty.isInteger_rename]
    simp only [Ty.name_rename]
    split
    · exact conclude_follows o (hresolved.listElement? _ hlist)
    · exact .bind spanOf_follows fun _ _ => .complain

/-- **What an expression yields is followed in an environment that is issued anew.** -/
theorem carried (e : Expr) : Carried v env env' e := by
  induction e using Expr.byForm with
  | literal o value kind =>
    intro expected _
    rw [yieldOf, yieldOf, h.wordBits]
    exact .bind (literalType_follows _ _ _ _ _ _) fun t ht => conclude_follows o ht
  | identifier o name =>
    intro expected _
    rw [yieldOf, yieldOf]
    exact .bind (nameType_follows h name o.span) fun t ht => conclude_follows o ht
  | binary o left op right hl hr => exact binary_carried h hl hr
  | unary o op operand hoperand => exact unary_carried h hoperand
  | call o callee args _ hargs => exact call_carried h hargs
  | methodCall o object method args ho hargs =>
    intro expected _
    rw [yieldOf, yieldOf]
    refine .bind ho.alone fun t ht => .bind (methodType_follows h ht method o.span) fun m hm => ?_
    obtain ⟨hparams, hresult⟩ := hm
    simp only [Ty.name_rename]
    exact .skip (requireCount_follows _ m.1 args o.span) fun _ =>
      .skip (arguments_follows h hargs hparams) fun _ => concludeCall_follows o _ hresult
  | member o object name ho =>
    intro expected _
    rw [yieldOf, yieldOf]
    exact .bind ho.alone fun t ht => .bind (fieldType_follows h ht name o.span) fun u hu =>
      conclude_follows o hu
  | index o object i ho hi => exact index_carried h ho hi
  | cast o typeExpr operand hoperand =>
    intro expected _
    rw [yieldOf, yieldOf]
    refine .bind (.lift (P := v.Known) (Registry.typeOf_rename h.registry.names typeExpr)
      fun t ht => Registry.typeOf_known h.registry.named typeExpr ht) fun target ht => ?_
    exact conversion_follows h ht hoperand
  | list o elements helements =>
    intro expected hexpected
    rw [yieldOf, yieldOf, h.wordBits, expected_rename (Ty.listElement?_rename v.ids)]
    refine .bind (items_follows helements
      (expected_known (fun _ => Reissue.Known.listElement?) hexpected))
      fun types htypes => .bind (listBacking_follows h.registry _ htypes hexpected _ _) fun b hb =>
        .skip (.find rfl) fun _ => ?_
    rw [listType_rename]
    exact conclude_follows o (listType_known hb)
  | map o pairs hpairs =>
    intro expected hexpected
    rw [yieldOf, yieldOf, expected_rename (Ty.mapEntry?_rename v.ids)]
    refine .bind (entries_follows hpairs
      (expected_known (fun _ => Reissue.Known.mapEntry?) hexpected)) fun types htypes => ?_
    have hkeys : ∀ t ∈ types.map Prod.fst, v.Known t := forall_mem_map.2 fun e he => (htypes e he).1
    have hvalues : ∀ t ∈ types.map Prod.snd, v.Known t :=
      forall_mem_map.2 fun e he => (htypes e he).2
    have hfst : (types.map (Prod.map (Ty.rename v.ids) (Ty.rename v.ids))).map Prod.fst =
        (types.map Prod.fst).map (Ty.rename v.ids) := by
      simp [Function.comp_def]
    have hsnd : (types.map (Prod.map (Ty.rename v.ids) (Ty.rename v.ids))).map Prod.snd =
        (types.map Prod.snd).map (Ty.rename v.ids) := by
      simp [Function.comp_def]
    rw [hfst, hsnd]
    refine .bind (mapBacking_follows h.registry hkeys hvalues hexpected _) fun b hb =>
      .skip (.find rfl) fun _ => ?_
    rw [mapType_rename]
    exact conclude_follows o (mapType_known hb)
  | set o elements helements =>
    intro expected hexpected
    rw [yieldOf, yieldOf, expected_rename (Ty.setElement?_rename v.ids)]
    refine .bind (items_follows helements
      (expected_known (fun _ => Reissue.Known.setElement?) hexpected))
      fun types htypes => .bind (setBacking_follows h.registry htypes hexpected _) fun b hb =>
        .skip (.find rfl) fun _ => ?_
    rw [setType_rename]
    exact conclude_follows o (setType_known hb)
  | record o typeName given hgiven =>
    intro expected _
    rw [yieldOf, yieldOf]
    refine .bind (literalStruct_follows h typeName o.span) fun s hs => ?_
    obtain ⟨hstruct, hdeclared⟩ := hs
    exact .skip (fields_follows h hgiven s.1 hdeclared) fun _ =>
      .skip (requireAllFields_follows s.1 s.2 _ o.span) fun _ => conclude_follows o hstruct
  | foreign f =>
    intro expected _
    rw [yieldOf, yieldOf]
    exact .complain
  | unreadable =>
    intro expected _
    rw [yieldOf, yieldOf]
    exact .faulty

end Expressions

/-! ### Single statements -/

theorem define_follows (what : String) {scopes : Scopes} (hscopes : v.KnownScopes scopes)
    {symbol : Symbol} (hsymbol : v.Known symbol.type) (span : Span) :
    Scoped v (define what scopes symbol span)
      (define what (scopes.rename v.ids) (symbol.rename v.ids) span) := by
  refine .bind (.lift (P := fun outcome => scopes.define symbol = .ok outcome)
    (Scopes.define_rename _ _ _) fun _ houtcome => houtcome) fun outcome houtcome => ?_
  cases outcome with
  | inl scopes' => exact .pure (hscopes.define hsymbol houtcome)
  | inr previous => exact .complain

theorem recordBacking_follows (o : Origin) (t : Ty) :
    Passes v (recordBacking o t) (recordBacking o (t.rename v.ids)) := by
  unfold recordBacking
  rw [Backing.ofType?_rename]
  rcases Backing.ofType? t with _ | b
  · exact .pure trivial
  · exact .find rfl

theorem requireLoop_follows (around : Surroundings) (keyword : String) (o : Origin) :
    Passes v (requireLoop around keyword o) (requireLoop (around.rename v.ids) keyword o) := by
  have hsame : requireLoop (around.rename v.ids) keyword o = requireLoop around keyword o := rfl
  rw [hsame]
  unfold requireLoop
  split
  · exact .pure trivial
  · exact .complain

section Statements

variable (h : env.Reissued v env')

include h

theorem defaultOf_follows (t : Ty) : Follows v id (fun _ => True) (defaultOf env.registry t)
    (defaultOf env'.registry (t.rename v.ids)) := by
  unfold defaultOf
  rw [h.registry.default]
  split
  · exact .pure trivial
  · exact .faulty

theorem defaultWrite_follows (d : VarDecl) {declared : Option Ty}
    (hdeclared : ∀ t ∈ declared, v.Known t) :
    Follows v (Prod.map (Ty.rename v.ids) (Write.rename v.ids)) (fun w => v.Known w.1)
      (defaultWrite env d declared) (defaultWrite env' d (declared.map (Ty.rename v.ids))) := by
  cases declared with
  | none => exact .complain
  | some t =>
    exact .bind (defaultOf_follows h t) fun _ _ => .skip (recordBacking_follows d.origin t) fun _ =>
      .pure (hdeclared t rfl)

theorem initialWrite_follows (d : VarDecl) {declared : Option Ty}
    (hdeclared : ∀ t ∈ declared, v.Known t) (e : Expr) :
    Follows v (Prod.map (Ty.rename v.ids) (Write.rename v.ids)) (fun w => v.Known w.1)
      (initialWrite env d declared e) (initialWrite env' d (declared.map (Ty.rename v.ids)) e) := by
  refine .bind ((carried h e).at_place hdeclared) fun found hfound => ?_
  cases declared with
  | none => exact .pure hfound
  | some t =>
    refine .bind spanOf_follows fun span _ =>
      .skip (requireAssignable_follows h.registry t found span) fun _ => ?_
    dsimp only
    split
    · exact .skip (recordBacking_follows d.origin t) fun _ => .pure (hdeclared t rfl)
    · exact .pure (hdeclared t rfl)

theorem declaredWrite_follows (d : VarDecl) :
    Follows v (Prod.map (Ty.rename v.ids) (Write.rename v.ids)) (fun w => v.Known w.1)
      (declaredWrite env d) (declaredWrite env' d) := by
  refine .bind (.lift (P := fun declared => ∀ t ∈ declared, v.Known t)
    (Registry.typeOf?_rename h.registry.names d.typeExpr) fun _ =>
      Registry.typeOf?_known h.registry.named)
    fun declared hdeclared => ?_
  rcases d.initializer with _ | e
  · exact defaultWrite_follows h d hdeclared
  · exact initialWrite_follows h d hdeclared e

/-- **A declaration leaves the same scopes in an environment that is issued anew.** -/
theorem declare_follows (d : VarDecl) : Scoped v (declare env d) (declare env' d) := by
  refine .bind (declaredWrite_follows h d) fun w hw => ?_
  rw [h.scopes]
  exact .bind (define_follows "variable" h.knownScopes hw d.origin.span) fun scopes hscopes =>
    .skip (.find rfl) fun _ => .skip (.remark rfl rfl) fun _ => .skip (.remark rfl rfl) fun _ =>
      .pure hscopes

theorem requireTarget_follows (target : Expr) :
    Passes v (requireTarget env target) (requireTarget env' target) := by
  have hfunction (name : String) : ((env'.scopes.lookup? name).isNone && env'.functions.has name) =
      ((env.scopes.lookup? name).isNone && env.functions.has name) := by
    rw [h.scopes, Scopes.lookup?_rename, h.functions, Keyed.has_mapValues, Option.isNone_map]
  unfold requireTarget
  simp only [hfunction]
  split
  · exact .bind spanOf_follows fun _ _ => .fail
  · split
    · split
      · exact .complain
      · exact .pure trivial
    · exact .pure trivial

theorem recordAssignment_follows (target : Expr) (write write' : Write) :
    Passes v (recordAssignment env target write) (recordAssignment env' target write') := by
  have hdeclaration (name : String) : (env'.scopes.lookup? name).bind Symbol.declaration? =
      (env.scopes.lookup? name).bind Symbol.declaration? := by
    rw [h.scopes, Scopes.lookup?_rename]
    rcases env.scopes.lookup? name with _ | symbol <;> rfl
  unfold recordAssignment
  simp only [hdeclaration]
  split
  · split
    · exact .remark rfl rfl
    · exact .pure trivial
  · exact .pure trivial

theorem assign_follows (o : Origin) (target e : Expr) :
    Passes v (assign env o target e) (assign env' o target e) :=
  .skip (requireTarget_follows h target) fun _ => .bind (carried h target).alone fun t ht =>
    .bind ((carried h e).wanted ht) fun found _ => .bind spanOf_follows fun span _ =>
      .skip (requireAssignable_follows h.registry t found span) fun _ =>
        recordAssignment_follows h target _ _

theorem giveBack_follows {around : Surroundings}
    (haround : ∀ s ∈ around.signature, v.KnownSignature s) (o : Origin)
    (e? : Option Expr) : Passes v (giveBack env around o e?)
      (giveBack env' (around.rename v.ids) o e?) := by
  unfold giveBack
  dsimp only [Surroundings.rename]
  rcases hsignature : around.signature with _ | signature
  · exact .complain
  · dsimp only [Option.map_some]
    simp only [Signature.qualifiedName_rename]
    have hknown := (haround signature hsignature).result
    have hrenamed : (signature.rename v.ids).result = signature.result.map (Ty.rename v.ids) := rfl
    rw [hrenamed]
    rcases hresult : signature.result with _ | t
    · cases e? with
      | none => exact .pure trivial
      | some e => exact .bind spanOf_follows fun _ _ => .complain
    · cases e? with
      | none =>
        simp only [Option.map_some, Ty.name_rename]
        exact .complain
      | some e =>
        exact .bind ((carried h e).wanted (hknown t hresult)) fun found _ =>
          .bind spanOf_follows fun span _ =>
          requireAssignable_follows h.registry t found span

theorem panicMessage_follows (e? : Option Expr) :
    Passes v (panicMessage env e?) (panicMessage env' e?) := by
  cases e? with
  | none => exact .pure trivial
  | some e =>
    refine .bind (carried h e).alone fun t _ => ?_
    have hstring : t.rename v.ids = .string ↔ t = .string := Ty.rename_eq_primitive v.ids t
    simp only [ne_eq, hstring, Ty.name_rename]
    split
    · exact .bind spanOf_follows fun _ _ => .complain
    · exact .pure trivial

theorem condition_follows (what : String) (e : Expr) :
    Passes v (condition env what e) (condition env' what e) := by
  refine .bind (carried h e).alone fun t _ => ?_
  have hbool : t.rename v.ids = .bool ↔ t = .bool := Ty.rename_eq_primitive v.ids t
  simp only [ne_eq, hbool, Ty.name_rename]
  split
  · exact .bind spanOf_follows fun _ _ => .complain
  · exact .pure trivial

theorem armValues_follows {subject : Ty} (hsubject : v.Known subject) (values : List Expr) :
    Passes v (armValues env subject values) (armValues env' (subject.rename v.ids) values) := by
  induction values with
  | nil => exact .pure trivial
  | cons e rest ih =>
    rw [armValues, armValues]
    refine .bind ((carried h e).wanted hsubject) fun t _ => ?_
    simp only [ne_eq, Ty.rename_inj, Ty.name_rename]
    split
    · exact .bind spanOf_follows fun _ _ => .skip .complain fun _ => ih
    · exact ih

theorem iterated_follows (e : Expr) : Types v (iterated env e) (iterated env' e) := by
  refine .bind (carried h e).alone fun t ht => .bind (resolve_follows h.registry ht) fun w hw => ?_
  rw [Ty.iterated?_rename]
  rcases helement : w.iterated? with _ | element
  · simp only [Option.map_none, Ty.name_rename]
    exact .bind spanOf_follows fun _ _ => .complain
  · exact .pure (hw.iterated? _ helement)

theorem loopScope_follows (o : Origin) (name : String) {t : Ty} (ht : v.Known t) :
    Scoped v (loopScope env o name t) (loopScope env' o name (t.rename v.ids)) := by
  unfold loopScope
  rw [h.scopes, Scopes.push_rename]
  exact .bind (define_follows "variable" (h.knownScopes.push _) ht o.span) fun scopes hscopes =>
    .skip (.find rfl) fun _ => .pure hscopes

end Statements

/-! ### Blocks -/

/-- A statement leaves the same scopes in any environment that is issued anew. -/
def StmtCarried (v : Reissue) (s : Stmt) : Prop :=
  ∀ env env' around, env.Reissued v env' →
    (∀ signature ∈ around.signature, v.KnownSignature signature) →
    Scoped v (statement env around s) (statement env' (around.rename v.ids) s)

theorem statements_follows {body : List Stmt} (hbody : ∀ s ∈ body, StmtCarried v s)
    {around : Surroundings}
    (haround : ∀ signature ∈ around.signature, v.KnownSignature signature) {env env' : Env}
    (h : env.Reissued v env') :
    Scoped v (statements env around body) (statements env' (around.rename v.ids) body) := by
  induction body generalizing env env' with
  | nil =>
    rw [statements, statements, h.scopes]
    exact .pure h.knownScopes
  | cons s rest ih =>
    obtain ⟨hs, hrest⟩ := forall_mem_cons.1 hbody
    rw [statements, statements]
    exact .bind (hs env env' around h haround) fun scopes hscopes => ih hrest (h.withScopes hscopes)

section Blocks

variable {around : Surroundings} (h : env.Reissued v env')
  (haround : ∀ signature ∈ around.signature, v.KnownSignature signature)

include h haround

theorem optionalBlock_follows {scope : String} {otherwise : Option (List Stmt)}
    (hbody : ∀ last, otherwise = some last → ∀ s ∈ last, StmtCarried v s) :
    Passes v (optionalBlock env around scope otherwise)
      (optionalBlock env' (around.rename v.ids) scope otherwise) := by
  cases otherwise with
  | none =>
    rw [optionalBlock, optionalBlock]
    exact .pure trivial
  | some body =>
    rw [optionalBlock, optionalBlock]
    exact .bind (statements_follows (hbody body rfl) haround (h.inside scope)) fun _ _ =>
      .pure trivial

theorem branches_follows {more : List Branch} (hmore : ∀ b ∈ more, ∀ s ∈ b.body, StmtCarried v s) :
    Passes v (branches env around more) (branches env' (around.rename v.ids) more) := by
  induction more with
  | nil =>
    rw [branches, branches]
    exact .pure trivial
  | cons b rest ih =>
    obtain ⟨c, body⟩ := b
    obtain ⟨hb, hrest⟩ := forall_mem_cons.1 hmore
    rw [branches, branches]
    exact .skip (condition_follows h "elif condition" c) fun _ =>
      .bind (statements_follows hb haround (h.inside "elif branch")) fun _ _ => ih hrest

theorem cases_follows {subject : Ty} (hsubject : v.Known subject) {arms : List Case}
    (harms : ∀ a ∈ arms, ∀ s ∈ a.body, StmtCarried v s) :
    Passes v (cases env around subject arms)
      (cases env' (around.rename v.ids) (subject.rename v.ids) arms) := by
  induction arms with
  | nil =>
    rw [Inference.cases, Inference.cases]
    exact .pure trivial
  | cons a rest ih =>
    obtain ⟨values, body⟩ := a
    obtain ⟨ha, hrest⟩ := forall_mem_cons.1 harms
    rw [Inference.cases, Inference.cases]
    exact .skip (armValues_follows h hsubject values) fun _ =>
      .bind (statements_follows ha haround (h.inside "match case")) fun _ _ => ih hrest

end Blocks

/-- **A statement leaves the same scopes in an environment that is issued anew.** -/
theorem stmtCarried (s : Stmt) : StmtCarried v s := by
  have hleave {env env' : Env} (h : env.Reissued v env') :
      Scoped v (pure env.scopes) (pure env'.scopes) := by
    rw [h.scopes]
    exact .pure h.knownScopes
  have hlooping {around : Surroundings}
    (h : ∀ signature ∈ around.signature, v.KnownSignature signature) :
      ∀ signature ∈ around.looping.signature, v.KnownSignature signature := h
  induction s using Stmt.byForm with (intro env env' around h haround; rw [statement, statement])
  | declare d => exact declare_follows h d
  | assign o target e => exact .skip (assign_follows h o target e) fun _ => hleave h
  | expr o e =>
    exact .bind (carried h e none fun _ hnone => absurd hnone (Option.not_mem_none _))
      fun _ _ => hleave h
  | ret o e? => exact .skip (giveBack_follows h haround o e?) fun _ => hleave h
  | panic o e? => exact .skip (panicMessage_follows h e?) fun _ => hleave h
  | brk o => exact .skip (requireLoop_follows around "break" o) fun _ => hleave h
  | cont o => exact .skip (requireLoop_follows around "continue" o) fun _ => hleave h
  | pass o => exact hleave h
  | cond o c body more otherwise hbody hmore hlast =>
    exact .skip (condition_follows h "if condition" c) fun _ =>
      .bind (statements_follows hbody haround (h.inside "if branch")) fun _ _ =>
        .skip (branches_follows h haround hmore) fun _ =>
          .skip (optionalBlock_follows h haround hlast) fun _ => hleave h
  | select o subject arms otherwise harms hlast =>
    exact .bind (carried h subject).alone fun t ht =>
      .skip (cases_follows h haround ht harms) fun _ =>
      .skip (optionalBlock_follows h haround hlast) fun _ => hleave h
  | loop o c body hbody =>
    exact .skip (condition_follows h "while condition" c) fun _ =>
      .bind (statements_follows hbody (hlooping haround) (h.inside "while loop"))
        fun _ _ => hleave h
  | iterate o name e body hbody =>
    exact .bind (iterated_follows h e) fun t ht =>
      .bind (loopScope_follows h o name ht) fun scopes hscopes =>
      .bind (statements_follows hbody (hlooping haround) ((h.withScopes hscopes).inside "for body"))
        fun _ _ => hleave h
  | block o body hbody =>
    exact .bind (statements_follows hbody haround (h.inside "block")) fun _ _ => hleave h
  | foreign f => exact .complain
  | unreadable => exact .faulty

/-! ### Functions -/

theorem parameters_follows (params : List Param) {types : List (String × Ty)}
    (htypes : ∀ p ∈ types, v.Known p.2) {scopes : Scopes} (hscopes : v.KnownScopes scopes) :
    Scoped v (parameters scopes params types)
      (parameters (scopes.rename v.ids) params (types.map fun p => (p.1, p.2.rename v.ids))) := by
  induction params generalizing scopes types with
  | nil => exact .pure hscopes
  | cons p params ih =>
    cases types with
    | nil => exact .pure hscopes
    | cons entry types =>
      obtain ⟨hentry, htypes⟩ := forall_mem_cons.1 htypes
      rw [map_cons, parameters, parameters]
      exact .bind (define_follows "parameter" hscopes hentry p.origin.span) fun scopes' hscopes' =>
        .skip (.find rfl) fun _ => ih htypes hscopes'

theorem receiver_follows (param : Option Param) {type : Option Ty} (htype : ∀ t ∈ type, v.Known t)
    {scopes : Scopes} (hscopes : v.KnownScopes scopes) :
    Scoped v (receiver scopes param type)
      (receiver (scopes.rename v.ids) param (type.map (Ty.rename v.ids))) := by
  cases param with
  | none => exact .pure hscopes
  | some p =>
    cases type with
    | none => exact .pure hscopes
    | some t =>
      exact .bind (define_follows "receiver" hscopes (htype t rfl) p.origin.span)
        fun scopes' hscopes' =>
        .skip (.find rfl) fun _ => .pure hscopes'

/-- **The body of a function is checked with the same outcome in an environment issued anew.** -/
theorem function_follows (h : env.Reissued v env') (f : FunctionDef) {signature : Signature}
    (hsignature : v.KnownSignature signature) :
    Passes v (function env f signature) (function env' f (signature.rename v.ids)) := by
  unfold function
  rw [h.scopes, Scopes.push_rename]
  exact .bind (receiver_follows f.receiver hsignature.receiver (h.knownScopes.push _))
    fun scopes hscopes =>
    .bind (parameters_follows f.params hsignature.params hscopes) fun scopes' hscopes' =>
      .bind (statements_follows (fun s _ => stmtCarried s) (by simpa using hsignature)
        (h.withScopes hscopes')) fun _ _ => .pure trivial

end Inference

end TreeTyping
