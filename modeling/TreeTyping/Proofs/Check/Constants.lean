/-
The constants that a check keeps.

Whether a module is accepted or not, the integer constants that are kept about it fit their types.
A literal with an integer type has a value in the range of that type, a minus before it counted in.
So has the value of every write to a variable, where it is known, and every element of a layout.
-/
import TreeTyping.Proofs.Check.Taken
import TreeTyping.Proofs.Typing.Frame

namespace TreeTyping

namespace Module

/-- Everything that a check keeps is told by the literals of the module. -/
theorem check_ofStmt {s : Settings} {m : Module} {c : Checked} (h : m.check s = .ok c) :
    ∀ fact ∈ c.facts, fact.OfStmt s.wordBits m.spots := by
  refine check_leaves h (fun _ => Fact.Steady.remark) (fun d env hd henv => ?_)
    fun f env signature hf henv => ?_
  · rw [← henv]
    refine Inference.declare_told.leaves.mono fun _ => Fact.Steady.mono fun spot hspot => ?_
    exact List.mem_append_left _ (List.mem_flatMap.2 ⟨_, hd, hspot⟩)
  · rw [← henv]
    refine Inference.function_told.leaves.mono fun _ => Fact.Steady.mono fun spot hspot => ?_
    exact List.mem_append_right _ (List.mem_flatMap.2 ⟨_, hf, hspot⟩)

variable {m : Module} {word : Int}

theorem inRange_of_fits (hl : m.literalsMatch = true) {q : Place} {l : SignedLiteral}
    {p : Primitive}
    (hspot : (q, some l) ∈ m.spots) (hfits : l.Fits (.int word) (.primitive p))
    (hp : p.isInteger = true) :
    ∃ n, l.value = .int n ∧ l.constant = .int (if l.negated then -n else n) ∧
      p.InRange word (if l.negated then -n else n) := by
  obtain ⟨hkind, hadmits⟩ := hfits p rfl hp
  have hmatches : l.matchesKind = true := List.all_eq_true.1 hl _ hspot
  obtain ⟨n, hn⟩ := SignedLiteral.matchesKind_int hmatches hkind
  refine ⟨n, hn, ?_, Primitive.admits_iff.1 (hadmits n (by rw [hn]; rfl))⟩
  rw [SignedLiteral.constant, hn]
  split <;> rfl

/-- A constant of an integer type that is known is a whole number in its range. -/
theorem inRange_of_among (hl : m.literalsMatch = true) {v : Value} {p : Primitive}
    (h : v.Among (.int word) m.spots (.primitive p)) (hp : p.isInteger = true) (hv : v ≠ .none) :
    ∃ n, v = .int n ∧ p.InRange word n := by
  rcases h p rfl hp with rfl | rfl | ⟨q, l, hspot, rfl, hfits⟩
  · exact absurd rfl hv
  · exact ⟨0, rfl, p.inRange_zero word⟩
  · obtain ⟨n, -, hconstant, hrange⟩ := inRange_of_fits hl hspot hfits hp
    exact ⟨_, hconstant, hrange⟩

/--
**Integer constants fit their types**, in whatever a check of the module keeps.  A literal with an
integer type that is recorded is a number in the range of the type, with the minus before it.  The
same goes for the value of a write, where it is known, and for the known elements of a layout.
-/
theorem check_constants_inRange {s : Settings} {q₀ : Place} {t : Tree} {c : Checked}
    (hk : t.keysDistinct = true)
    (hm : Module.ofTree? q₀ t = some m) (hl : m.literalsMatch = true)
    (hword : s.wordBits = .int word)
    (hcheck : m.check s = .ok c) :
    (∀ q l p, (q, some l) ∈ m.spots → Fact.typeAt? q c.facts = some (.primitive p) →
      p.isInteger = true → ∃ n, l.value = .int n ∧ p.InRange word (if l.negated then -n else n)) ∧
    (∀ d w p, .wrote d w ∈ c.facts → w.type = .primitive p → p.isInteger = true → w.value ≠ .none →
      ∃ n, w.value = .int n ∧ p.InRange word n) ∧
    ∀ o b layout p, .backed o b ∈ c.facts → b.layout = some layout →
      layout.elementType = .primitive p →
      p.isInteger = true → ∀ v ∈ layout.elements, v ≠ .none → ∃ n, v = .int n ∧
        p.InRange word n := by
  have htold := check_ofStmt hcheck
  rw [hword] at htold
  refine ⟨fun q l p hspot htype hp => ?_, fun d w p hw htype hp hknown => ?_,
    fun o b layout p hb hlayout htype hp v hv hknown => ?_⟩
  · obtain ⟨l?, hspot', hfits⟩ := htold _ (Fact.mem_of_typeAt? htype)
    obtain rfl := literal_unique (places_nodup hk hm) hspot' hspot
    obtain ⟨n, hn, -, hrange⟩ := inRange_of_fits hl hspot (hfits l rfl) hp
    exact ⟨n, hn, hrange⟩
  · have hamong : w.value.Among (.int word) m.spots w.type := htold _ hw
    rw [htype] at hamong
    exact inRange_of_among hl hamong hp hknown
  · have hamong : v.Among (.int word) m.spots layout.elementType := htold _ hb layout hlayout v hv
    rw [htype] at hamong
    exact inRange_of_among hl hamong hp hknown

/--
A module with the variables `low: int8 = -128` and `high: int8 = 128`, of which the second is
refused, and a procedure with the assignment `low = 127`.
-/
def bytesTree : Tree :=
  let number (n : Int) : Tree := .node .literal .nowhere [.int n, .literalKind .int]
  let least : Tree := .node .unaryOp .nowhere [.operator .minus, number 128]
  let var (name : String) (e : Tree) : Tree :=
    .node .varDecl .nowhere [.text name, .node .simpleType .nowhere [.text "int8"], e]
  let write : Tree := .node .assignmentStatement .nowhere
    [.node .identifier .nowhere [.text "low"], number 127]
  let raise : Tree := .node .functionDef .nowhere
    [.text "raise", .list [], .null, .node .block .nowhere [.list [write]], .null]
  .node .compilationUnit .nowhere
    [.text "bytes", .list [], .list [var "low" least, var "high" (number 128)], .list [raise]]

/-- The module of that tree. -/
def bytes : Module := (Module.ofTree? (.root 0) bytesTree).get rfl

/-- The module is refused, and the constants that are kept about it are in the range of `int8`. -/
theorem check_constants_inRange_bytes : ∃ c, bytes.check {} = .ok c ∧ c.accepted = false ∧
    (Fact.writes c.facts).flatMap
    (fun entry => entry.2.map fun w => (w.type.name, w.value.integer?)) =
      [("int8", some (-128)), ("int8", some 127)] ∧
    (∀ q l p, (q, some l) ∈ bytes.spots → Fact.typeAt? q c.facts = some (.primitive p) →
      p.isInteger = true → ∃ n, l.value = .int n ∧ p.InRange 64 (if l.negated then -n else n)) ∧
    (∀ d w p, .wrote d w ∈ c.facts → w.type = .primitive p → p.isInteger = true → w.value ≠ .none →
      ∃ n, w.value = .int n ∧ p.InRange 64 n) ∧
    ∀ o b layout p, .backed o b ∈ c.facts → b.layout = some layout →
      layout.elementType = .primitive p →
      p.isInteger = true → ∀ v ∈ layout.elements, v ≠ .none → ∃ n, v = .int n ∧ p.InRange 64 n := by
  have hchecked : (bytes.check {}).toOption.map (fun c => (c.accepted,
      (Fact.writes c.facts).flatMap fun entry => entry.2.map fun w =>
        (w.type.name, w.value.integer?))) =
      some (false, [("int8", some (-128)), ("int8", some 127)]) := by
    decide +kernel
  obtain ⟨c, hc, hchecked⟩ := Option.map_eq_some_iff.1 hchecked
  obtain ⟨haccepted, hwrites⟩ := Prod.mk.inj hchecked
  have hcheck := Except.toOption_eq_some.1 hc
  exact ⟨c, hcheck, haccepted, hwrites, check_constants_inRange (t := bytesTree) rfl rfl
    rfl rfl hcheck⟩

end Module

end TreeTyping
