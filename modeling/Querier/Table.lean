/-!
# Tables

Finite maps as lists of keys with values. A key is found by `==`, so a table over a type
whose `==` ignores something, such as case, ignores it too.

## Main results

* `find?_put_eq`: what was put under a key is found there, and nothing else changes.
* `find?_erase_eq`: nothing is found under a key that was removed, and nothing else changes.
-/

namespace Querier

/-- A finite map. -/
abbrev Table (κ α : Type) := List (κ × α)

namespace Table

variable {κ α : Type} [BEq κ]

/-- The value under a key. -/
def find? : Table κ α → κ → Option α
  | [], _ => none
  | (k', a) :: rest, k => if k == k' then some a else find? rest k

/-- Puts a value under a key, in place of the one there. -/
def put (t : Table κ α) (k : κ) (a : α) : Table κ α :=
  match t with
  | [] => [(k, a)]
  | (k', a') :: rest => if k == k' then (k', a) :: rest else (k', a') :: put rest k a

/-- Removes what is under a key. -/
def erase (t : Table κ α) (k : κ) : Table κ α := t.filter fun entry => !(k == entry.1)

/-- Equal keys find the same. -/
theorem find?_congr [EquivBEq κ] (t : Table κ α) {k k' : κ} (h : k == k') :
    t.find? k = t.find? k' := by
  induction t with
  | nil => rfl
  | cons entry rest ih =>
    obtain ⟨k'', a⟩ := entry
    rw [find?, find?, ih, BEq.congr_left h]

theorem find?_put_eq [EquivBEq κ] (t : Table κ α) (k k' : κ) (a : α) :
    (put t k a).find? k' = if k' == k then some a else t.find? k' := by
  induction t with
  | nil => simp [put, find?]
  | cons entry rest ih =>
    obtain ⟨k'', a''⟩ := entry
    simp only [put]
    by_cases here : k == k''
    · rw [if_pos here, find?, find?, BEq.congr_right here]
      split <;> rfl
    · rw [if_neg here, find?, find?, ih]
      by_cases asked : k' == k
      · rw [if_pos asked, if_neg, if_pos asked]
        rwa [BEq.congr_left asked]
      · rw [if_neg asked, if_neg asked]

theorem find?_erase_eq [EquivBEq κ] (t : Table κ α) (k k' : κ) :
    (erase t k).find? k' = if k' == k then none else t.find? k' := by
  induction t with
  | nil => simp [erase, find?]
  | cons entry rest ih =>
    obtain ⟨k'', a⟩ := entry
    simp only [erase] at ih ⊢
    by_cases here : k == k''
    · rw [List.filter_cons_of_neg (by simp [here]), ih, find?, BEq.congr_right here]
      split <;> rfl
    · rw [List.filter_cons_of_pos (by simp [here]), find?, find?, ih]
      by_cases asked : k' == k
      · rw [if_pos asked, if_neg, if_pos asked]
        rwa [BEq.congr_left asked]
      · rw [if_neg asked, if_neg asked]

end Table

end Querier
