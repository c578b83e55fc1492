import Asciidoc.Text.Basic

/-!
# Keyed entries

Entries are pairs of a key and a value, in the order in which their keys first came. Setting
the value of a key that is there changes the entry in place. What is stated beside the
definitions: a key that was set is found with its value (`find?_put_self`), one that was erased
is not found (`find?_erase_self`), and neither touches the other keys.
-/

namespace Asciidoc.Entries

variable {κ α : Type} [DecidableEq κ]

/-- The value of a key among keyed entries. -/
def find? (key : κ) : List (κ × α) → Option α
  | [] => none
  | (k, v) :: rest => if k = key then some v else find? key rest

/-- The entries with the value of a key set: in place if the key is there, else at the end. -/
def put (key : κ) (value : α) : List (κ × α) → List (κ × α)
  | [] => [(key, value)]
  | (k, v) :: rest => if k = key then (k, value) :: rest else (k, v) :: put key value rest

/-- The entries without a key. -/
def erase (key : κ) (entries : List (κ × α)) : List (κ × α) :=
  entries.filter (·.1 ≠ key)

theorem find?_put_self (key : κ) (value : α) (entries : List (κ × α)) :
    find? key (put key value entries) = some value := by
  induction entries with
  | nil => simp [put, find?]
  | cons e rest ih =>
    obtain ⟨k, v⟩ := e
    by_cases h : k = key <;> simp [put, find?, h, ih]

theorem find?_put_of_ne {key other : κ} (value : α) (entries : List (κ × α)) (h : other ≠ key) :
    find? other (put key value entries) = find? other entries := by
  induction entries with
  | nil => simp [put, find?, Ne.symm h]
  | cons e rest ih =>
    obtain ⟨k, v⟩ := e
    by_cases hk : k = key
    · subst hk; simp [put, find?, Ne.symm h]
    · by_cases ho : k = other
      · subst ho; simp [put, find?, h]
      · simp [put, find?, hk, ho, ih]

theorem find?_erase_self (key : κ) (entries : List (κ × α)) :
    find? key (erase key entries) = none := by
  induction entries with
  | nil => rfl
  | cons e rest ih =>
    obtain ⟨k, v⟩ := e
    by_cases h : k = key
    · simpa [erase, h] using ih
    · simpa [erase, h, find?] using ih

theorem find?_erase_of_ne {key other : κ} (entries : List (κ × α)) (h : other ≠ key) :
    find? other (erase key entries) = find? other entries := by
  induction entries with
  | nil => rfl
  | cons e rest ih =>
    obtain ⟨k, v⟩ := e
    by_cases hk : k = key
    · subst hk
      simpa [erase, find?, Ne.symm h] using ih
    · by_cases ho : k = other
      · subst ho; simp [erase, find?, h]
      · simpa [erase, hk, find?, ho] using ih

end Asciidoc.Entries
