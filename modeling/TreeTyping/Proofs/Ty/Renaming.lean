/-
Renaming identities.

The identities of nominal types are numbers that are handed out in the order of declarations, and
nothing should depend on which numbers these are.  Here they are renamed, by a permutation of the
numbers, in a type and in what is made of types.  Names are kept, so a message that mentions a
renamed type mentions the type itself, and two types are equal exactly when they are equal after
renaming.
-/
import Mathlib.Logic.Equiv.Defs
import TreeTyping.Composed.Literal
import TreeTyping.Registry.Registration

namespace TreeTyping

open List

/-- A renaming of identities. -/
abbrev Renaming := Equiv.Perm Nat

/-! ### Values under names -/

namespace Keyed

variable {α β : Type}

/-- The same names with other values. -/
def mapValues (f : α → β) (entries : Keyed α) : Keyed β := entries.map fun e => (e.1, f e.2)

@[simp] theorem mapValues_nil (f : α → β) : mapValues f [] = [] := rfl

@[simp] theorem mapValues_cons (f : α → β) (e : String × α) (rest : Keyed α) :
    mapValues f (e :: rest) = (e.1, f e.2) :: mapValues f rest := rfl

@[simp] theorem find?_mapValues (f : α → β) (entries : Keyed α) (name : String) :
    find? name (mapValues f entries) = (find? name entries).map f := by
  induction entries with
  | nil => rfl
  | cons e rest ih =>
    obtain ⟨n, a⟩ := e
    by_cases h : n = name
    · simp [find?, h]
    · simp [find?, h, ih]

@[simp] theorem has_mapValues (f : α → β) (entries : Keyed α) (name : String) :
    has name (mapValues f entries) = has name entries := by
  rw [has, has, find?_mapValues, Option.isSome_map]

theorem insert_mapValues (f : α → β) (entries : Keyed α) (name : String) (value : α) :
    insert name (f value) (mapValues f entries) = mapValues f (insert name value entries) := by
  induction entries with
  | nil => rfl
  | cons e rest ih =>
    obtain ⟨n, a⟩ := e
    by_cases h : n = name
    · simp [insert, h]
    · simp [insert, h, ih]

/-- Writing renamed entries one after the other is writing the entries and renaming afterwards. -/
theorem insertAll_mapValues (f : α → β) (more entries : Keyed α) :
    (mapValues f more).foldl (fun all e => insert e.1 e.2 all) (mapValues f entries) =
      mapValues f (more.foldl (fun all e => insert e.1 e.2 all) entries) := by
  induction more generalizing entries with
  | nil => rfl
  | cons e rest ih =>
    rw [mapValues_cons, foldl_cons, foldl_cons]
    dsimp only
    rw [insert_mapValues, ih]

theorem find?_insertAll {name : String} {more : Keyed α} (h : ∀ e ∈ more, e.1 ≠ name)
    (entries : Keyed α) :
    find? name (more.foldl (fun all e => insert e.1 e.2 all) entries) = find? name entries := by
  induction more generalizing entries with
  | nil => rfl
  | cons e rest ih =>
    obtain ⟨he, hrest⟩ := forall_mem_cons.1 h
    rw [foldl_cons, ih hrest, find?_insert_ne (Ne.symm he)]

/-- What holds of all values is kept by writing values it holds of. -/
theorem forall_mem_insertAll {P : α → Prop} {more entries : Keyed α} (h : ∀ e ∈ entries, P e.2)
    (hmore : ∀ e ∈ more, P e.2) :
    ∀ e ∈ more.foldl (fun all e => insert e.1 e.2 all) entries, P e.2 := by
  induction more generalizing entries with
  | nil => exact h
  | cons first rest ih =>
    obtain ⟨hfirst, hrest⟩ := forall_mem_cons.1 hmore
    refine ih (fun e he => ?_) hrest
    rcases mem_insert he with he | he
    · exact h e he
    · rw [he]
      exact hfirst

@[simp] theorem names_mapValues (f : α → β) (entries : Keyed α) :
    names (mapValues f entries) = names entries := by
  rw [names, names, mapValues, map_map]
  rfl

@[simp] theorem mapValues_isEmpty (f : α → β) (entries : Keyed α) :
    (mapValues f entries).isEmpty = entries.isEmpty := by
  cases entries <;> rfl

theorem mapValues_id {f : α → α} (h : ∀ a, f a = a) (entries : Keyed α) :
    mapValues f entries = entries := by
  induction entries with
  | nil => rfl
  | cons e rest ih => rw [mapValues_cons, h, ih]

end Keyed

/-! ### Types -/

/-- A nominal type under another identity. -/
def Nominal.rename (σ : Renaming) (n : Nominal) : Nominal := ⟨σ n.id, n.name⟩

namespace Ty

mutual

/-- A type with the identities in it renamed. -/
def rename (σ : Renaming) : Ty → Ty
  | .primitive p => .primitive p
  | .alias n => .alias (n.rename σ)
  | .struct n => .struct (n.rename σ)
  | .interface n => .interface (n.rename σ)
  | .array e length => .array (rename σ e) length
  | .hashMap k v => .hashMap (rename σ k) (rename σ v)
  | .hashSet e => .hashSet (rename σ e)
  | .list e => .list (rename σ e)
  | .map k v => .map (rename σ k) (rename σ v)
  | .set e => .set (rename σ e)
  | .function params result => .function (renameList σ params) (renameOption σ result)

/-- Several types with the identities in them renamed. -/
def renameList (σ : Renaming) : List Ty → List Ty
  | [] => []
  | t :: rest => rename σ t :: renameList σ rest

/-- A type that may be left out, with the identities in it renamed. -/
def renameOption (σ : Renaming) : Option Ty → Option Ty
  | none => none
  | some t => some (rename σ t)

end

attribute [simp] rename

@[simp] theorem renameList_eq (σ : Renaming) (ts : List Ty) :
    renameList σ ts = ts.map (rename σ) := by
  induction ts with
  | nil => rfl
  | cons t rest ih => rw [renameList, ih, map_cons]

@[simp] theorem renameOption_eq (σ : Renaming) (t : Option Ty) :
    renameOption σ t = t.map (rename σ) := by
  cases t <;> rfl

mutual

@[simp] theorem name_rename (σ : Renaming) : ∀ t : Ty, (t.rename σ).name = t.name
  | .primitive _ | .alias _ | .struct _ | .interface _ => rfl
  | .array e none => by simp [name, name_rename σ e]
  | .array e (some _) => by simp [name, name_rename σ e]
  | .hashMap k v => by simp [name, name_rename σ k, name_rename σ v]
  | .hashSet e => by simp [name, name_rename σ e]
  | .list e => by simp [name, name_rename σ e]
  | .map k v => by simp [name, name_rename σ k, name_rename σ v]
  | .set e => by simp [name, name_rename σ e]
  | .function params result => by
      rw [rename, name, name, names_rename σ params, resultSuffix_rename σ result]

theorem names_rename (σ : Renaming) : ∀ ts : List Ty, names (renameList σ ts) = names ts
  | [] => rfl
  | t :: rest => by rw [renameList, names, names, name_rename σ t, names_rename σ rest]

theorem resultSuffix_rename (σ : Renaming) :
    ∀ t : Option Ty, resultSuffix (renameOption σ t) = resultSuffix t
  | none => rfl
  | some t => by rw [renameOption, resultSuffix, resultSuffix, name_rename σ t]

end

mutual

theorem rename_symm (σ : Renaming) : ∀ t : Ty, (t.rename σ).rename σ.symm = t
  | .primitive _ => rfl
  | .alias n | .struct n | .interface n => by simp [Nominal.rename]
  | .array e _ | .hashSet e | .list e | .set e => by simp [rename_symm σ e]
  | .hashMap k v | .map k v => by simp [rename_symm σ k, rename_symm σ v]
  | .function params result => by
      rw [rename, rename, renameList_symm σ params, renameOption_symm σ result]

theorem renameList_symm (σ : Renaming) : ∀ ts : List Ty, renameList σ.symm (renameList σ ts) = ts
  | [] => rfl
  | t :: rest => by rw [renameList, renameList, rename_symm σ t, renameList_symm σ rest]

theorem renameOption_symm (σ : Renaming) :
    ∀ t : Option Ty, renameOption σ.symm (renameOption σ t) = t
  | none => rfl
  | some t => by rw [renameOption, renameOption, rename_symm σ t]

end

/-- **Types are equal exactly when they are after renaming.** -/
@[simp] theorem rename_inj {σ : Renaming} {t u : Ty} : t.rename σ = u.rename σ ↔ t = u :=
  ⟨fun h => by rw [← rename_symm σ t, h, rename_symm], fun h => h ▸ rfl⟩

mutual

@[simp] theorem rename_refl : ∀ t : Ty, t.rename (Equiv.refl Nat) = t
  | .primitive _ => rfl
  | .alias n | .struct n | .interface n => by simp [Nominal.rename]
  | .array e _ | .hashSet e | .list e | .set e => by simp [rename_refl e]
  | .hashMap k v | .map k v => by simp [rename_refl k, rename_refl v]
  | .function params result => by rw [rename, renameList_refl params, renameOption_refl result]

theorem renameList_refl : ∀ ts : List Ty, renameList (Equiv.refl Nat) ts = ts
  | [] => rfl
  | t :: rest => by rw [renameList, rename_refl t, renameList_refl rest]

theorem renameOption_refl : ∀ t : Option Ty, renameOption (Equiv.refl Nat) t = t
  | none => rfl
  | some t => by rw [renameOption, rename_refl t]

end

mutual

theorem nominals_rename (σ : Renaming) : ∀ t : Ty, (t.rename σ).nominals = t.nominals.map (rename σ)
  | .primitive _ | .alias _ | .struct _ | .interface _ => rfl
  | .array e _ | .hashSet e | .list e | .set e => by simp [nominals, nominals_rename σ e]
  | .hashMap k v | .map k v => by simp [nominals, nominals_rename σ k, nominals_rename σ v]
  | .function params result => by
      rw [rename, nominals, nominals, nominalsOfList_rename σ params,
        nominalsOfOption_rename σ result, map_append]

theorem nominalsOfList_rename (σ : Renaming) :
    ∀ ts : List Ty, nominalsOfList (renameList σ ts) = (nominalsOfList ts).map (rename σ)
  | [] => rfl
  | t :: rest => by
      rw [renameList, nominalsOfList, nominalsOfList, nominals_rename σ t,
        nominalsOfList_rename σ rest, map_append]

theorem nominalsOfOption_rename (σ : Renaming) :
    ∀ t : Option Ty, nominalsOfOption (renameOption σ t) = (nominalsOfOption t).map (rename σ)
  | none => rfl
  | some t => by rw [renameOption, nominalsOfOption, nominalsOfOption, nominals_rename σ t]

end

section Parts

variable (σ : Renaming) (t : Ty)

@[simp] theorem isAlias_rename : (t.rename σ).isAlias = t.isAlias := by
  cases t <;> rfl

@[simp] theorem isNumeric_rename : (t.rename σ).isNumeric = t.isNumeric := by
  cases t <;> rfl

@[simp] theorem isInteger_rename : (t.rename σ).isInteger = t.isInteger := by
  cases t <;> rfl

@[simp] theorem isSigned_rename : (t.rename σ).isSigned = t.isSigned := by
  cases t <;> rfl

@[simp] theorem isFixedArray_rename :
    Registry.isFixedArray (t.rename σ) = Registry.isFixedArray t := by
  cases t with
  | array e length => cases length <;> rfl
  | _ => rfl

@[simp] theorem iterated?_rename : (t.rename σ).iterated? = t.iterated?.map (rename σ) := by
  cases t <;> rfl

@[simp] theorem listElement?_rename :
    (t.rename σ).listElement? = t.listElement?.map (rename σ) := by
  cases t <;> rfl

@[simp] theorem mapEntry?_rename :
    mapEntry? (t.rename σ) = t.mapEntry?.map (Prod.map (rename σ) (rename σ)) := by
  cases t <;> rfl

@[simp] theorem setElement?_rename : (t.rename σ).setElement? = t.setElement?.map (rename σ) := by
  cases t <;> rfl

@[simp] theorem backing?_rename : (t.rename σ).backing? = t.backing?.map (rename σ) := by
  cases t <;> rfl

@[simp] theorem abstract?_rename : (t.rename σ).abstract? = t.abstract?.map (rename σ) := by
  cases t <;> rfl

/-- A primitive type is no renamed type but itself. -/
theorem rename_eq_primitive {p : Primitive} : t.rename σ = .primitive p ↔ t = .primitive p := by
  cases t <;> simp

end Parts

end Ty

/-! ### Members and definitions -/

/-- A member with the identities in its type renamed. -/
def Member.rename (σ : Renaming) (m : Member) : Member := { m with type := m.type.rename σ }

@[simp] theorem Member.describe_rename (σ : Renaming) (m : Member) :
    (m.rename σ).describe = m.describe := by
  rw [describe, describe, rename, Ty.name_rename]

@[simp] theorem Member.rename_refl (m : Member) : m.rename (Equiv.refl Nat) = m := by
  rw [rename, Ty.rename_refl]

/-- A definition with the identities in it renamed. -/
def Definition.rename (σ : Renaming) : Definition → Definition
  | .alias underlying => .alias (underlying.map (Ty.rename σ))
  | .struct fields => .struct (fields.mapValues (Ty.rename σ))
  | .interface members => .interface (members.mapValues (Member.rename σ))

@[simp] theorem Definition.rename_refl : ∀ d : Definition, d.rename (Equiv.refl Nat) = d
  | .alias none => rfl
  | .alias (some t) => by simp [rename]
  | .struct fields => by simp [rename, Keyed.mapValues_id]
  | .interface members => by simp [rename, Keyed.mapValues_id]

/-- A method with the identities in its types renamed. -/
def MethodEntry.rename (σ : Renaming) (e : MethodEntry) : MethodEntry :=
  { e with receiver := e.receiver.rename σ, member := e.member.rename σ }

@[simp] theorem MethodEntry.rename_refl (e : MethodEntry) : e.rename (Equiv.refl Nat) = e := by
  rw [rename, Ty.rename_refl, Member.rename_refl]

/-- An unmet requirement with the identities in it renamed. -/
def MemberMismatch.rename (σ : Renaming) (m : MemberMismatch) : MemberMismatch :=
  ⟨m.required.rename σ, m.found.map (Member.rename σ)⟩

@[simp] theorem MemberMismatch.reason_rename (σ : Renaming) (m : MemberMismatch) :
    (m.rename σ).reason = m.reason := by
  obtain ⟨required, _ | found⟩ := m
  · simp [reason, rename]
  · simp [reason, rename]

namespace Registration

theorem mentioned_rename (σ : Renaming) :
    ∀ d : Definition, mentioned (d.rename σ) = (mentioned d).map (Ty.rename σ)
  | .alias none => rfl
  | .alias (some t) => Ty.nominals_rename σ t
  | .struct fields => by
      simp only [Definition.rename, mentioned, Keyed.mapValues, flatMap_map, map_flatMap,
        Ty.nominals_rename]
  | .interface members => by
      simp only [Definition.rename, mentioned, Keyed.mapValues, flatMap_map, map_flatMap,
        Member.rename, Ty.nominals_rename]

end Registration

end TreeTyping
