import Pipework.Table

/-!
# Overlays and scopes

An overlay is a table of variables over the environment of the process. It may be changed through
any number of scopes. A scope remembers, for each variable that it changes, what the overlay held
before its first change; restoring the scope puts that back and leaves the scope as good as new.
-/

namespace Pipework

abbrev Overlay := Table

/-- What the overlay held before the scope's first change of each variable. -/
structure Scope where
  saved : List (String × Option String)
deriving DecidableEq, Repr

namespace Scope

def opened : Scope := ⟨[]⟩

def prior? (s : Scope) (key : String) : Option (Option String) := s.saved.lookup key

def save (s : Scope) (o : Overlay) (key : String) : Scope :=
  match s.prior? key with
  | some _ => s
  | none => ⟨(key, o.find? key) :: s.saved⟩

def assign (s : Scope) (o : Overlay) (key : String) (value : Option String) : Scope × Overlay :=
  (s.save o key, Table.assign key value o)

def restore (s : Scope) (o : Overlay) : Scope × Overlay :=
  (opened, s.saved.foldr (fun (key, value) o => Table.assign key value o) o)

@[simp] theorem prior?_opened (key : String) : opened.prior? key = none := rfl

theorem prior?_save (s : Scope) (o : Overlay) (key k : String) :
    (s.save o key).prior? k =
      if k = key then (s.prior? key).or (some (o.find? key)) else s.prior? k := by
  unfold save
  split
  · next v hv => grind
  · next hv =>
    by_cases hk : k = key
    · subst hk; simp [prior?, show List.lookup k s.saved = none from hv]
    · have : (k == key) = false := by simpa using hk
      simp [prior?, List.lookup_cons, this, hk]

theorem find?_restore (s : Scope) (o : Overlay) (k : String) :
    (s.restore o).2.find? k = (s.prior? k).getD (o.find? k) := by
  obtain ⟨saved⟩ := s
  simp only [restore, prior?]
  induction saved with
  | nil => simp
  | cons entry rest ih =>
    obtain ⟨key, value⟩ := entry
    rw [List.foldr_cons, Table.find?_assign, ih]
    by_cases hk : k = key
    · subst hk; simp
    · have : (k == key) = false := by simpa using hk
      simp [List.lookup_cons, this, hk]

end Scope

def lookupThrough (o : Overlay) (env : Table) (key : String) : Option String :=
  (o.find? key).or (env.find? key)

def debugVar : String := "SCRIPT_DEBUG"

def pipefailVar : String := "SCRIPT_PIPEFAIL"

def directoryVar : String := "PWD"

def Overlay.directory (o : Overlay) : String := (Table.find? directoryVar o).getD ""

end Pipework
