/-
Values under names, in the order in which the names came.

A name occurs at most once.  Writing to a name that is there keeps its place and replaces its value;
a new name goes to the end.
-/
namespace TreeTyping

/-- Values under names, in order. -/
abbrev Keyed (α : Type) := List (String × α)

namespace Keyed

variable {α : Type}

def find? (name : String) : Keyed α → Option α
  | [] => none
  | (n, a) :: rest => if n = name then some a else find? name rest

def has (name : String) (entries : Keyed α) : Bool := (find? name entries).isSome

/-- The entries after a write. -/
def insert (name : String) (value : α) : Keyed α → Keyed α
  | [] => [(name, value)]
  | (n, a) :: rest => if n = name then (n, value) :: rest else (n, a) :: insert name value rest

def names (entries : Keyed α) : List String := entries.map Prod.fst

@[simp] theorem find?_nil (name : String) : find? name ([] : Keyed α) = none := rfl

theorem find?_insert_self (name : String) (value : α) (entries : Keyed α) :
    find? name (insert name value entries) = some value := by
  induction entries with
  | nil => simp [insert, find?]
  | cons e rest ih =>
    obtain ⟨n, a⟩ := e
    by_cases h : n = name <;> simp [insert, find?, h, ih]

theorem find?_insert_ne {name other : String} (h : other ≠ name) (value : α) (entries : Keyed α) :
    find? other (insert name value entries) = find? other entries := by
  induction entries with
  | nil => simp [insert, find?, Ne.symm h]
  | cons e rest ih =>
    obtain ⟨n, a⟩ := e
    by_cases hn : n = name
    · subst hn
      simp [insert, find?, Ne.symm h]
    · by_cases ho : n = other
      · subst ho
        simp [insert, find?, hn]
      · simp [insert, find?, hn, ho, ih]

theorem mem_of_find? {name : String} {a : α} {entries : Keyed α} (h : find? name entries = some a) :
    (name, a) ∈ entries := by
  induction entries with
  | nil => cases h
  | cons e rest ih =>
    obtain ⟨n, b⟩ := e
    rw [find?] at h
    split at h
    · next hn =>
        cases h
        exact hn ▸ List.mem_cons_self
    · exact List.mem_cons_of_mem _ (ih h)

/-- Under a name that is used once one finds its value. -/
theorem find?_of_mem {entries : Keyed α} (hnames : (entries.map Prod.fst).Nodup) {e : String × α}
    (he : e ∈ entries) : find? e.1 entries = some e.2 := by
  induction entries with
  | nil => cases he
  | cons first rest ih =>
    obtain ⟨hfirst, hrest⟩ := List.nodup_cons.1 hnames
    rw [find?]
    rcases List.mem_cons.1 he with rfl | he
    · rw [if_pos rfl]
    · have hother : first.1 ≠ e.1 := fun hname => hfirst (hname ▸ List.mem_map_of_mem he)
      rw [if_neg hother, ih hrest he]

/-- A value under a new name goes to the end. -/
theorem insert_of_find?_eq_none {name : String} {entries : Keyed α} (h : find? name entries = none)
    (value : α) : insert name value entries = entries ++ [(name, value)] := by
  induction entries with
  | nil => rfl
  | cons first rest ih =>
    rw [find?] at h
    split at h
    · cases h
    · next hfirst => rw [insert, if_neg hfirst, ih h, List.cons_append]

theorem find?_append (name : String) (entries more : Keyed α) :
    find? name (entries ++ more) = (find? name entries).or (find? name more) := by
  induction entries with
  | nil => rfl
  | cons e rest ih =>
    obtain ⟨n, a⟩ := e
    by_cases h : n = name
    · simp [find?, h]
    · simp [find?, h, ih]

/-- An entry that is there after a write was there before, or has the value that was written. -/
theorem mem_insert {name : String} {value : α} {entries : Keyed α} {e : String × α}
    (h : e ∈ insert name value entries) : e ∈ entries ∨ e.2 = value := by
  induction entries with
  | nil =>
    obtain rfl := List.mem_singleton.1 h
    exact .inr rfl
  | cons first rest ih =>
    rw [insert] at h
    split at h
    · rcases List.mem_cons.1 h with rfl | h
      · exact .inr rfl
      · exact .inl (List.mem_cons_of_mem _ h)
    · rcases List.mem_cons.1 h with rfl | h
      · exact .inl List.mem_cons_self
      · exact (ih h).imp_left (List.mem_cons_of_mem _)

end Keyed

end TreeTyping
