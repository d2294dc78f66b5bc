/-!
# Tables of names and values

A table gives values to names. It is kept in the order of the names, so that listing it needs no
sorting. Lookups take the first entry of a name; what `insert`, `erase` and `merge` do to every
lookup is stated beside them.
-/

namespace Pipework

def sortTexts (texts : List String) : List String := texts.mergeSort fun a b => !decide (b < a)

abbrev Table := List (String × String)

namespace Table

def find? (key : String) : Table → Option String
  | [] => none
  | (k, v) :: rest => if k = key then some v else find? key rest

def insert (key value : String) : Table → Table
  | [] => [(key, value)]
  | (k, v) :: rest =>
    if k = key then (key, value) :: rest
    else if key < k then (key, value) :: (k, v) :: rest
    else (k, v) :: insert key value rest

def erase (key : String) (t : Table) : Table := t.filter fun (k, _) => k ≠ key

def assign (key : String) (value : Option String) (t : Table) : Table :=
  match value with
  | some v => t.insert key v
  | none => t.erase key

/-- The values of `top`, and those of `t` for the names that `top` leaves out. -/
def merge (t top : Table) : Table := top.foldr (fun (k, v) t => t.insert k v) t

def ofList (pairs : List (String × String)) : Table := merge [] pairs

theorem find?_insert (key value k : String) (t : Table) :
    (t.insert key value).find? k = if k = key then some value else t.find? k := by
  induction t with
  | nil => simp [insert, find?, eq_comm]
  | cons entry rest ih => grind [insert, find?]

theorem find?_erase (key k : String) (t : Table) :
    (t.erase key).find? k = if k = key then none else t.find? k := by
  induction t with
  | nil => simp [erase, find?]
  | cons entry rest ih => grind [erase, find?]

theorem find?_assign (key k : String) (value : Option String) (t : Table) :
    (t.assign key value).find? k = if k = key then value else t.find? k := by
  cases value <;> simp [assign, find?_insert, find?_erase]

theorem find?_merge (t top : Table) (k : String) :
    (t.merge top).find? k = (top.find? k).or (t.find? k) := by
  induction top with
  | nil => simp [merge, find?]
  | cons entry rest ih =>
    have : t.merge (entry :: rest) = (t.merge rest).insert entry.1 entry.2 := rfl
    grind [find?, find?_insert]

end Table

end Pipework
