/-
The name of a type can be read back.

A type that is built from registered types by composition has a name that is a type string.
`ReadsBack` says how the name of one type is read: it spells tokens that derive a type text, and the
type text denotes the type.  So the names of composed types can be put together from those of their
parts.

A name that is also that of a way to compose does no harm: it is read as such only in front of a
bracket, and no type is followed by one.
-/
import TreeTyping.Proofs.TypeText.Grammar
import TreeTyping.Registry.Resolve
import TreeTyping.Syntax.OfTree

namespace TreeTyping

open TypeText

/-! ### What type texts denote -/

namespace Registry

variable {r : Registry} {span : Span}

theorem typesOf_one {first : TypeText} {a : Ty}
    (ha : r.typeOf (.ofTree (first.toTree span)) = .ok a) :
    r.typesOf (TypeExpr.ofTrees (toTrees span [first])) = .ok [a] := by
  simp only [toTrees, TypeExpr.ofTrees, typesOf, ha]
  rfl

theorem typesOf_two {first second : TypeText} {a b : Ty}
    (ha : r.typeOf (.ofTree (first.toTree span)) = .ok a)
    (hb : r.typeOf (.ofTree (second.toTree span)) = .ok b) :
    r.typesOf (TypeExpr.ofTrees (toTrees span [first, second])) = .ok [a, b] := by
  simp only [toTrees, TypeExpr.ofTrees, typesOf, ha, hb]
  rfl

/-- A type text with arguments denotes the composition of what its arguments denote. -/
theorem typeOf_applied {head : String} {args : List TypeText} {types : List Ty}
    (length : Option Nat) (harity : arity? head = some args.length)
    (hargs : r.typesOf (TypeExpr.ofTrees (toTrees span args)) = .ok types) :
    r.typeOf (.ofTree (toTree span (.applied head args length))) =
      composedType span head types (length.map fun n => (n : Int)) := by
  have hexpr : TypeExpr.ofTree (toTree span (.applied head args length)) =
      .generic span head (TypeExpr.ofTrees (toTrees span args))
        (length.map fun n => (n : Int)) := by
    cases length <;> simp [toTree, TypeExpr.ofTree, TypeExpr.lengthOf]
  have hcount : (TypeExpr.ofTrees (toTrees span args)).length = args.length := by
    clear hargs harity hexpr
    induction args with
    | nil => simp [toTrees, TypeExpr.ofTrees]
    | cons arg rest ih => simp [toTrees, TypeExpr.ofTrees, ih]
  rw [hexpr, typeOf, harity]
  dsimp only
  rw [hcount, if_neg (fun h => h rfl), hargs]
  rfl

end Registry

/-! ### Names that can be read back -/

/-- The name of a type spells tokens that derive a type text, and the type text denotes the type. -/
structure ReadsBack (r : Registry) (t : Ty) (ts : List Token) (written : TypeText) : Prop where
  spells : Spells t.name.toList ts
  derives : Derives true ts written
  resolves : ∀ span, r.typeOf (.ofTree (written.toTree span)) = .ok t

namespace ReadsBack

variable {r : Registry} {t e k v : Ty} {ts ks vs : List Token} {written key value : TypeText}

theorem named (h : r.containsType t = true) (hname : IsName t.name.toList) :
    ReadsBack r t [.name t.name] (.named t.name) := by
  refine ⟨.single (.name t.name) hname, .named t.name, fun span => ?_⟩
  have hlookup : r.lookup? t.name = some t := of_decide_eq_true h
  simp only [toTree, TypeExpr.ofTree, Registry.typeOf, Registry.resolve, hlookup]

/-- A length stands behind the first argument. -/
theorem spells_length (n : Nat) :
    Spells (',' :: ' ' :: Nat.toDigits 10 n) [.mark ',', .digits (Nat.toDigits 10 n)] := by
  have hdigits : Token.Proper (.digits (Nat.toDigits 10 n)) := by
    refine ⟨Nat.toDigits_ne_nil, fun d hd => ?_⟩
    rw [Text.isDigit, digitValue?_of_isDigit
      (Nat.isDigit_of_mem_toDigits (by decide) (by decide) hd)]
    rfl
  simpa using (Spells.mark rfl).append
    ((Spells.single _ hdigits).blank (b := ' ') (List.cons_ne_nil _ _) rfl)

/-- Another type stands behind the first argument. -/
theorem spells_behind (hv : ReadsBack r v vs value) {c : Char} (hc : isMark c = true) :
    Spells (c :: ' ' :: v.name.toList) (.mark c :: vs) := by
  simpa using (Spells.mark hc).append (hv.spells.blank (b := ' ') hv.derives.ne_nil rfl)

theorem applied (he : ReadsBack r e ts written) {head : String} {inner : List Char}
    {others : List Token} {args : List TypeText} {lengths : List Nat} (hinner : Spells inner others)
    (hargs : Arguments true others args lengths) (hhead : IsName head.toList)
    (hname : t.name.toList = head.toList ++ '[' :: (e.name.toList ++ (inner ++ [']'])))
    (htype : ∀ span, r.typeOf
      (.ofTree (toTree span (.applied head (written :: args) lengths.getLast?))) = .ok t) :
    ReadsBack r t ([.name head, .mark '['] ++ ts ++ others ++ [.mark ']'])
      (.applied head (written :: args) lengths.getLast?) := by
  refine ⟨?_, .applied he.derives hargs, htype⟩
  have hopen := (Spells.single (.name head) hhead).append (Spells.mark (c := '[') rfl)
  rw [hname]
  simpa using ((hopen.append he.spells).append hinner).append (Spells.mark (c := ']') rfl)

theorem set (he : ReadsBack r e ts written) :
    ReadsBack r (.set e) ([.mark '\x7b'] ++ ts ++ [.mark '\x7d'])
      (.applied "set" [written] none) := by
  refine ⟨?_, .set he.derives, fun span => Registry.typeOf_applied none rfl
    (Registry.typesOf_one (he.resolves span))⟩
  have hall := ((Spells.mark (c := '\x7b') rfl).append he.spells).append
    (Spells.mark (c := '\x7d') rfl)
  simpa [Ty.name] using hall

theorem map (hk : ReadsBack r k ks key) (hv : ReadsBack r v vs value) :
    ReadsBack r (.map k v) ([.mark '\x7b'] ++ ks ++ [.mark ':'] ++ vs ++ [.mark '\x7d'])
      (.applied "map" [key, value] none) := by
  refine ⟨?_, .map hk.derives hv.derives, fun span =>
    Registry.typeOf_applied none rfl (Registry.typesOf_two (hk.resolves span) (hv.resolves span))⟩
  have hkey := (Spells.mark (c := '\x7b') rfl).append hk.spells
  have hall := (hkey.append (hv.spells_behind (c := ':') rfl)).append
    (Spells.mark (c := '\x7d') rfl)
  simpa [Ty.name] using hall

end ReadsBack

/-! ### Composed types -/

/--
The types that are built from registered types by composition.  A registered type is registered
under its own name, and its name is one that can be written.  An array of fixed length does not hold
arrays of fixed length.
-/
inductive Displayable (r : Registry) : Ty → Prop
  | registered {t : Ty} (h : r.containsType t = true) (hname : IsName t.name.toList) :
      Displayable r t
  | list {e : Ty} (he : Displayable r e) : Displayable r (.list e)
  | map {k v : Ty} (hk : Displayable r k) (hv : Displayable r v) : Displayable r (.map k v)
  | set {e : Ty} (he : Displayable r e) : Displayable r (.set e)
  | array {e : Ty} (he : Displayable r e) : Displayable r (.array e none)
  | fixedArray {e : Ty} {length : Int} (he : Displayable r e) (hlength : 0 ≤ length)
      (hflat : Registry.isFixedArray e = false) : Displayable r (.array e (some length))
  | hashMap {k v : Ty} (hk : Displayable r k) (hv : Displayable r v) : Displayable r (.hashMap k v)
  | hashSet {e : Ty} (he : Displayable r e) : Displayable r (.hashSet e)

namespace Displayable

variable {r : Registry} {t : Ty}

theorem isName_head (head : String) (h : head ∈ ["list", "array", "hashset", "hashmap"]) :
    IsName head.toList := by
  simp only [List.mem_cons, List.not_mem_nil, or_false] at h
  rcases h with rfl | rfl | rfl | rfl
  all_goals exact ⟨_, _, rfl, rfl, List.all_eq_true.1 (by decide)⟩

/-- **The name of a composed type is read back, by the names of its parts.** -/
theorem readsBack (h : Displayable r t) : ∃ ts written, ReadsBack r t ts written := by
  induction h with
  | registered h hname => exact ⟨_, _, .named h hname⟩
  | list _ ih =>
    obtain ⟨ts, written, he⟩ := ih
    refine ⟨_, _, he.applied .nil .nil (isName_head "list" (by simp)) (by simp [Ty.name]) ?_⟩
    intro span
    exact Registry.typeOf_applied none rfl (Registry.typesOf_one (he.resolves span))
  | set _ ih =>
    obtain ⟨ts, written, he⟩ := ih
    exact ⟨_, _, he.set⟩
  | map _ _ ihk ihv =>
    obtain ⟨ks, key, hk⟩ := ihk
    obtain ⟨vs, value, hv⟩ := ihv
    exact ⟨_, _, hk.map hv⟩
  | array _ ih =>
    obtain ⟨ts, written, he⟩ := ih
    refine ⟨_, _, he.applied .nil .nil (isName_head "array" (by simp)) (by simp [Ty.name]) ?_⟩
    intro span
    exact Registry.typeOf_applied none rfl (Registry.typesOf_one (he.resolves span))
  | @fixedArray e length _ hlength hflat ih =>
    obtain ⟨ts, written, he⟩ := ih
    obtain ⟨n, rfl⟩ := Int.eq_ofNat_of_zero_le hlength
    have hdigits : (toString (n : Int)).toList = Nat.toDigits 10 n := by
      show (toString n).toList = _
      simp
    have hname : (Ty.array e (some n)).name.toList = "array".toList ++
        '[' :: (e.name.toList ++ (',' :: ' ' :: Nat.toDigits 10 n ++ [']'])) := by
      rw [Ty.name]
      simp only [String.toList_append, hdigits]
      simp
    refine ⟨_, _, he.applied (ReadsBack.spells_length n) (.length .nil fun _ => rfl)
      (isName_head "array" (by simp)) hname ?_⟩
    intro span
    rw [readDigits_toDigits]
    show r.typeOf (.ofTree (toTree span (.applied "array" [written] (some n)))) = _
    rw [Registry.typeOf_applied (some n) rfl (Registry.typesOf_one (he.resolves span))]
    show Registry.arrayType span e (some (n : Int)) = _
    rw [Registry.arrayType, if_neg (by omega), hflat]
    rfl
  | hashMap _ _ ihk ihv =>
    obtain ⟨ks, key, hk⟩ := ihk
    obtain ⟨vs, value, hv⟩ := ihv
    have hvalue : Arguments true (.mark ',' :: vs) [value] [] := by
      simpa using Arguments.type hv.derives .nil
    refine ⟨_, _, hk.applied (hv.spells_behind rfl) hvalue (isName_head "hashmap" (by simp))
      (by simp [Ty.name]) ?_⟩
    intro span
    exact Registry.typeOf_applied none rfl
      (Registry.typesOf_two (hk.resolves span) (hv.resolves span))
  | hashSet _ ih =>
    obtain ⟨ts, written, he⟩ := ih
    refine ⟨_, _, he.applied .nil .nil (isName_head "hashset" (by simp)) (by simp [Ty.name]) ?_⟩
    intro span
    exact Registry.typeOf_applied none rfl (Registry.typesOf_one (he.resolves span))

/-- The text that is read back from the name of a composed type. -/
theorem parse_name (h : Displayable r t) :
    ∃ written, parse t.name = .ok written ∧ ∀ span,
      r.typeOf (.ofTree (written.toTree span)) = .ok t := by
  obtain ⟨ts, written, hback⟩ := h.readsBack
  refine ⟨written, parse_eq_ok_iff.2 ⟨_, [], ts, ?_, List.forall_mem_nil _, hback.spells, ?_⟩,
    hback.resolves⟩
  · rw [List.append_nil]
  · exact (derives_last_iff.1 hback.derives).1

/--
**Displayed names can be read back.**  Wherever the name of a composed type is written, an
annotation is made from it that denotes the type.  So no two composed types have the same name.
-/
theorem typeOf_name (h : Displayable r t) :
    (∀ span location, Tree.Make.spanOf span = .ok location →
      ∃ tree, Tree.Make.typeRef (.text t.name) span = .ok tree ∧ r.typeOf (.ofTree tree) = .ok t) ∧
    ∀ u, Displayable r u → u.name = t.name → u = t := by
  obtain ⟨written, hparse, htype⟩ := h.parse_name
  constructor
  · intro span location hspan
    refine ⟨written.toTree location, ?_, htype location⟩
    rw [Tree.Make.typeRef]
    refine Except.bind_eq_ok.2 ⟨location, hspan, ?_⟩
    rw [hparse]
    rfl
  · intro u hu hname
    obtain ⟨other, hparse', htype'⟩ := hu.parse_name
    rw [hname, hparse] at hparse'
    cases hparse'
    exact Except.ok.inj ((htype' .nowhere).symm.trans (htype .nowhere))

/-- A registry in which a struct is called `list` and an alias `array`. -/
def keywords : Registry :=
  { bindings := [⟨"list", .struct ⟨1, "list"⟩, none⟩, ⟨"array", .alias ⟨2, "array"⟩, none⟩]
    definitions := [.interface [], .struct [], .alias (some .int)] }

/-- A map from that struct to arrays of hash maps from the alias to lists of the struct. -/
def nested : Ty :=
  .map (.struct ⟨1, "list"⟩)
    (.array (.hashMap (.alias ⟨2, "array"⟩) (.list (.struct ⟨1, "list"⟩))) (some 10))

/-- Names of ways to compose can be those of types, also of the types that they compose. -/
theorem typeOf_name_keywords : nested.name = "\x7blist: array[hashmap[array, list[list]], 10]\x7d" ∧
    ∃ tree, Tree.Make.typeRef (.text nested.name) .null = .ok tree ∧
      keywords.typeOf (.ofTree tree) = .ok nested := by
  have hlist : Displayable keywords (.struct ⟨1, "list"⟩) :=
    .registered rfl (isName_head "list" (by simp))
  have harray : Displayable keywords (.alias ⟨2, "array"⟩) :=
    .registered rfl (isName_head "array" (by simp))
  have hnested : Displayable keywords nested :=
    .map hlist (.fixedArray (.hashMap harray (.list hlist)) (by decide) rfl)
  exact ⟨by decide +kernel, (typeOf_name hnested).1 .null .nowhere rfl⟩

end Displayable

end TreeTyping
