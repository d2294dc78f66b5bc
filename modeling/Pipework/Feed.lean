import Pipework.Fault

/-!
# Feeds

A feed is what can be read from a stream: bytes that are ready, bytes that repeat for ever after
them, and the fault that comes instead of the end. A feed that has not ended may still be added
to, so a read may have to wait.
-/

namespace Pipework

/-- How much a read asks for. A read of a number of bytes or of a line takes less at the end. -/
inductive Amount where
  | all
  | count (n : Nat)
  | line
  | ready (n : Nat)
deriving DecidableEq, Repr

/-- What becomes of a byte that follows `last`, the last byte that was passed on. -/
abbrev Filter := (last : Option UInt8) → (next : UInt8) → Option UInt8

namespace Filter

def all : Filter := fun _ next => some next

def apply (f : Filter) : (last : Option UInt8) → Bytes → Bytes
  | _, [] => []
  | last, b :: rest =>
    match f last b with
    | none => apply f last rest
    | some passed => passed :: apply f (some passed) rest

@[simp] theorem apply_all (last : Option UInt8) (data : Bytes) : all.apply last data = data := by
  induction data generalizing last with
  | nil => rfl
  | cons b rest ih => exact congrArg (b :: ·) (ih (some b))

end Filter

structure Feed where
  ready : Bytes
  /-- Comes again and again after what is ready; empty if nothing does. -/
  cycle : Bytes
  ended : Bool
  fault : Option Fault
deriving DecidableEq, Repr

namespace Feed

def awaiting : Feed := ⟨[], [], false, none⟩

def ofBytes (data : Bytes) : Feed := ⟨data, [], true, none⟩

def nothing : Feed := ofBytes []

def add (f : Feed) (data : Bytes) : Feed := { f with ready := f.ready ++ data }

def finish (f : Feed) : Feed := { f with ended := true }

def unroll (f : Feed) (n : Nat) : Feed :=
  if f.cycle = [] then f
  else { f with ready := f.ready ++ (List.replicate n f.cycle).flatten }

def split (f : Feed) (n : Nat) : (Bytes × Option Fault) × Feed :=
  ((f.ready.take n, none), { f with ready := f.ready.drop n })

def empty (f : Feed) : (Bytes × Option Fault) × Feed := ((f.ready, f.fault), { f with ready := [] })

def lineLength? (data : Bytes) : Option Nat := (data.findIdx? (· = 10)).map (· + 1)

/-- What the filter passes on of the feed. What it makes of the first round of a cycle may differ
from what it makes of all the later ones. -/
def through (f : Feed) (filter : Filter) : Feed :=
  let ready := filter.apply none f.ready
  let first := filter.apply ready.getLast? f.cycle
  let later := filter.apply (ready ++ first).getLast? f.cycle
  if f.cycle = [] || first = later then { f with ready := ready, cycle := first }
  else { f with ready := ready ++ first, cycle := later }

/-- A read of `amount`, or nothing if it has to wait. -/
def take? (f : Feed) (amount : Amount) : Option ((Bytes × Option Fault) × Feed) :=
  match amount with
  | .all => if f.cycle = [] && f.ended then some f.empty else none
  | .count n =>
    let f := if n ≤ f.ready.length then f else f.unroll n
    if n ≤ f.ready.length then some (f.split n)
    else if f.ended then some f.empty
    else none
  | .ready n => some ((f.unroll n).split n)
  | .line =>
    let f := if (lineLength? f.ready).isSome then f else f.unroll 1
    match lineLength? f.ready with
    | some n => some (f.split n)
    | none => if f.cycle = [] && f.ended then some f.empty else none

@[simp] theorem take?_all_ofBytes (data : Bytes) :
    (ofBytes data).take? .all = some ((data, none), ofBytes []) := rfl

end Feed

end Pipework
