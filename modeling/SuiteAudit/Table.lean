/-! # Tables in order of insertion

A table gives each of its keys one value and keeps the keys in the order in which they first came.
`Table.set` replaces a value in its place, `Table.modify` changes it, and `tally` counts.  What
`get?` finds after a write is stated in `get?_set_self` and `get?_set_of_ne`.
-/

namespace SuiteAudit

/-- Keys with their values, in order of first insertion. -/
abbrev Table (κ β : Type) := List (κ × β)

namespace Table

variable {κ β : Type} [DecidableEq κ]

def get? (key : κ) : Table κ β → Option β
  | [] => none
  | (k, v) :: rest => if k = key then some v else get? key rest

def has (key : κ) (table : Table κ β) : Bool := (get? key table).isSome

/-- Writes what `f` makes of the old value, or of none, under a key. -/
def modify (key : κ) (f : Option β → β) : Table κ β → Table κ β
  | [] => [(key, f none)]
  | (k, v) :: rest => if k = key then (k, f (some v)) :: rest else (k, v) :: modify key f rest

/-- Writes a value under a key: in its place if the table has the key, else at the end. -/
def set (key : κ) (value : β) (table : Table κ β) : Table κ β := modify key (fun _ => value) table

/-- The table of some pairs written one after the other. -/
def ofPairs (pairs : List (κ × β)) : Table κ β :=
  pairs.foldl (fun table p => set p.1 p.2 table) []

def keys (table : Table κ β) : List κ := table.map Prod.fst

def values (table : Table κ β) : List β := table.map Prod.snd

theorem get?_modify_self (key : κ) (f : Option β → β) (table : Table κ β) :
    get? key (modify key f table) = some (f (get? key table)) := by
  induction table with
  | nil => simp [modify, get?]
  | cons p rest ih =>
    obtain ⟨k, v⟩ := p
    by_cases h : k = key <;> simp [modify, get?, h, ih]

theorem get?_modify_of_ne {key other : κ} (h : other ≠ key) (f : Option β → β)
    (table : Table κ β) : get? other (modify key f table) = get? other table := by
  induction table with
  | nil => simp [modify, get?, Ne.symm h]
  | cons p rest ih =>
    obtain ⟨k, v⟩ := p
    by_cases hk : k = key
    · subst hk; simp [modify, get?, Ne.symm h]
    · by_cases ho : k = other
      · subst ho; simp [modify, get?, hk]
      · simp [modify, get?, hk, ho, ih]

theorem get?_set_self (key : κ) (value : β) (table : Table κ β) :
    get? key (set key value table) = some value := get?_modify_self key _ table

theorem get?_set_of_ne {key other : κ} (h : other ≠ key) (value : β) (table : Table κ β) :
    get? other (set key value table) = get? other table := get?_modify_of_ne h _ table

/-- How often each entry of a list occurs, in order of first occurrence. -/
def tally (entries : List κ) : Table κ Nat :=
  entries.foldl (fun table key => modify key (fun old => old.getD 0 + 1) table) []

/-- The `limit` keys with the largest counts, equal counts in the order of the table. -/
def mostFrequent (limit : Nat) (table : Table κ Nat) : Table κ Nat :=
  (table.mergeSort fun a b => b.2 ≤ a.2).take limit

end Table
end SuiteAudit
