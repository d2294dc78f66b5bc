import Pipework.Text.Utf8

/-!
# Trees of files

A tree gives each place, a list of names from the root down, a file, a directory or a device. The
root is always a directory.
-/

namespace Pipework

abbrev Place := List String

inductive Node where
  | file (data : Bytes) (executable : Bool)
  | directory
  /-- Gives `cycle` for ever, or nothing if that is empty, and swallows what is written to it. -/
  | device (cycle : Bytes)
deriving DecidableEq, Repr

structure FileTree where
  entries : List (Place × Node)
deriving DecidableEq, Repr

namespace FileTree

def empty : FileTree := ⟨[]⟩

def find? (t : FileTree) (p : Place) : Option Node :=
  if p = [] then some .directory else t.entries.lookup p

def isDirectory (t : FileTree) (p : Place) : Bool := t.find? p == some .directory

def put (t : FileTree) (p : Place) (node : Node) : FileTree :=
  ⟨(p, node) :: t.entries.filter fun (q, _) => q ≠ p⟩

def remove (t : FileTree) (p : Place) : FileTree := ⟨t.entries.filter fun (q, _) => q ≠ p⟩

def read? (t : FileTree) (p : Place) : Option Bytes :=
  match t.find? p with
  | some (.file data _) => some data
  | _ => none

def modify (t : FileTree) (p : Place) (f : Bytes → Bytes) : FileTree :=
  match t.find? p with
  | some (.file data x) => t.put p (.file (f data) x)
  | _ => t

def makeBelow (t : FileTree) (above : Place) : List String → Option FileTree
  | [] => some t
  | name :: names =>
    let p := above ++ [name]
    match t.find? p with
    | some .directory => makeBelow t p names
    | some (.file _ _) | some (.device _) => none
    | none => makeBelow (t.put p .directory) p names

def makeAll (t : FileTree) (p : Place) : Option FileTree := t.makeBelow [] p

/-- The first place on the way from the root to `p` at which there is something other than a
directory. -/
def obstacle? (t : FileTree) (p : Place) : Option Place :=
  ((List.range p.length).map fun n => p.take (n + 1)).find? fun q =>
    (t.find? q).isSome && !t.isDirectory q

def children (t : FileTree) (p : Place) : List String :=
  t.entries.filterMap fun (q, _) =>
    if q.dropLast = p then q.getLast? else none

theorem find?_put (t : FileTree) (p q : Place) (node : Node) (hp : p ≠ []) :
    (t.put p node).find? q = if q = p then some node else t.find? q := by
  unfold find? put
  by_cases hq : q = p
  · subst hq; simp [hp]
  · have hne : (q == p) = false := by simpa using hq
    simp only [List.lookup_cons, hne, hq, if_false]
    split
    · rfl
    · induction t.entries with
      | nil => rfl
      | cons entry rest ih => grind

end FileTree

end Pipework
