import KafkaScript.Text.Basic

/-!
# Named entries

A list of named entries, each name once, in the order in which the names
arrived. Putting an entry under a name that is there replaces the old one in its
place; a new name goes to the end.
-/

namespace KafkaScript.Entries

variable {α : Type}

/-- The entries with one of them put under its name. -/
def put (name : Text) (a : α) : List (Text × α) → List (Text × α)
  | [] => [(name, a)]
  | (other, b) :: rest =>
    if other = name then (name, a) :: rest else (other, b) :: put name a rest

/-- What was put under a name is found there. -/
theorem lookup_put_self (name : Text) (a : α) (entries : List (Text × α)) :
    (put name a entries).lookup name = some a := by
  induction entries with
  | nil => simp [put]
  | cons e rest ih =>
    obtain ⟨other, b⟩ := e
    by_cases h : other = name
    · simp [put, h]
    · have hne : (name == other) = false := by simpa using fun he => h he.symm
      simp [put, h, List.lookup_cons, hne, ih]

/-- Nothing changes under the other names. -/
theorem lookup_put_of_ne {name other : Text} (h : other ≠ name) (a : α)
    (entries : List (Text × α)) : (put name a entries).lookup other = entries.lookup other := by
  induction entries with
  | nil =>
    have hne : (other == name) = false := by simpa using h
    simp [put, List.lookup_cons, hne]
  | cons e rest ih =>
    obtain ⟨k, b⟩ := e
    by_cases hk : k = name
    · have hne : (other == name) = false := by simpa using h
      simp [put, hk, List.lookup_cons, hne]
    · simp only [put, hk, if_false, List.lookup_cons, ih]

end KafkaScript.Entries
