/-
What an annotation denotes.

Resolving an annotation asks the registry for names and for nothing else.  Two registries with the
same names agree on every annotation, whatever their types stand for and whatever methods they have.
-/
import TreeTyping.Registry.Resolve

namespace TreeTyping.Registry

theorem resolve_congr {r r' : Registry} (h : r'.bindings = r.bindings) (name : String)
    (span : Span) : r'.resolve name span = r.resolve name span := by
  rw [resolve, resolve, lookup?, lookup?, binding?, binding?, h]

mutual

theorem typeOf_congr {r r' : Registry} (h : r'.bindings = r.bindings) :
    ∀ e, r'.typeOf e = r.typeOf e
  | .simple span name => by rw [typeOf, typeOf, resolve_congr h]
  | .generic span name args length => by rw [typeOf, typeOf, typesOf_congr h args]
  | .foreign f => by rw [typeOf, typeOf]

theorem typesOf_congr {r r' : Registry} (h : r'.bindings = r.bindings) :
    ∀ es, r'.typesOf es = r.typesOf es
  | [] => rfl
  | e :: rest => by rw [typesOf, typesOf, typeOf_congr h e, typesOf_congr h rest]

end

/-- What an annotation denotes depends on the names of types alone. -/
theorem typeOf?_congr {r r' : Registry} (h : r'.bindings = r.bindings) (e : Option TypeExpr) :
    r'.typeOf? e = r.typeOf? e := by
  cases e with
  | none => rfl
  | some e => rw [typeOf?, typeOf?, typeOf_congr h]

theorem functionType_congr {r r' : Registry} (h : r'.bindings = r.bindings) (params : List Param)
    (result : Option TypeExpr) : r'.functionType params result = r.functionType params result := by
  rw [functionType, functionType, typesOf_congr h, typeOf?_congr h]

end TreeTyping.Registry
