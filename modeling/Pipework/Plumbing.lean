import Pipework.Program

/-!
# Plumbing

The streams of a program can be led elsewhere before it meets its surroundings: its input can be a
feed, and each of its outputs can go to a file, to nothing, to the other output, or into a buffer.
What a program does to streams that are led elsewhere is not seen from outside.
-/

namespace Pipework

inductive Outlet where
  | channel (channel : Channel)
  | file (index : Nat)
  | buffer
  | null
deriving DecidableEq, Repr

structure Plumbing where
  input : Option Feed
  inputPath : Option String
  out : Outlet
  err : Outlet
  /-- Further outputs by number, which only lead to each other. -/
  others : List (Nat × Outlet)
  files : List Handle
  /-- What went into the buffer; a feed, since a program may fill it without end. -/
  buffer : Feed
deriving DecidableEq, Repr

namespace Plumbing

def straight : Plumbing := ⟨none, none, .channel .out, .channel .err, [], [], .nothing⟩

def feedWith (p : Plumbing) (feed : Feed) (path : Option String) : Plumbing :=
  { p with input := some feed, inputPath := path }

def outlet (p : Plumbing) : Channel → Outlet
  | .out => p.out
  | .err => p.err

def outletOf? (p : Plumbing) (fd : Nat) : Option Outlet :=
  if fd = 1 then some p.out else if fd = 2 then some p.err else p.others.lookup fd

def lead (p : Plumbing) (fd : Nat) (outlet : Outlet) : Plumbing :=
  if fd = 1 then { p with out := outlet }
  else if fd = 2 then { p with err := outlet }
  else { p with others := (fd, outlet) :: p.others }

def leadToFile (p : Plumbing) (fd : Nat) (h : Handle) : Plumbing :=
  { p with files := p.files ++ [h] }.lead fd (.file p.files.length)

def addToFile (p : Plumbing) (i : Nat) (data : Bytes) : Plumbing :=
  { p with files := p.files.modify i fun h => h.written data }

variable {β : Type}

def write (p : Plumbing) (channel : Channel) (data : Bytes)
    (next : Option Fault → Plumbing → Program β) : Program β :=
  match p.outlet channel with
  | .channel channel => .act (.write channel data) fun refused => next refused p
  | .file i =>
    match p.files[i]? with
    | some h => .act (.files h.storage (h.writing data)) fun _ => next none (p.addToFile i data)
    | none => next none p
  | .buffer => next none { p with buffer := p.buffer.add data }
  | .null => next none p

/-- Writes `data` to the output again and again. A buffer takes it all, and is then closed. -/
def flood (p : Plumbing) (data : Bytes) (next : Option Fault → Plumbing → Program β) :
    Program β :=
  match p.out with
  | .channel .out => .act (.flood data) fun refused => next refused p
  | .buffer => next (some brokenPipe) { p with buffer := { p.buffer with cycle := data } }
  | _ => .act .pause fun _ => next (some brokenPipe) p

def read (p : Plumbing) (amount : Amount) (next : Bytes × Option Fault → Plumbing → Program β) :
    Program β :=
  match p.input with
  | none => .act (.read amount) fun answer => next answer p
  | some feed =>
    let (answer, feed) := (feed.take? amount).getD feed.empty
    next answer { p with input := some feed }

def relay (p : Plumbing) (filter : Filter)
    (next : Bytes × Option Fault → Plumbing → Program β) : Program β :=
  let copy : Program β :=
    p.read .all fun (data, fault) p =>
      let data := filter.apply none data
      p.write .out data fun
        | some refusal, p => next ([], some refusal) p
        | none, p => next (data, fault) p
  match p.input with
  | none => if p.out = .channel .out then .act (.relay filter) fun answer => next answer p else copy
  | some feed =>
    if feed.cycle = [] then copy
    else p.write .out (feed.through filter).ready fun
      | some fault, p => next ([], some fault) p
      | none, p => p.flood (feed.through filter).cycle fun fault p => next ([], fault) p

def fileAt (p : Plumbing) (side : Side) (next : Option String → Program β) : Program β :=
  match side with
  | .input => if p.input.isSome then next p.inputPath else .act (.inquire .input) next
  | .output =>
    match p.out with
    | .channel .out => .act (.inquire .output) next
    | .file i => next ((p.files[i]?).map fun h => Path.clean h.path)
    | _ => next none

end Plumbing

/-- The program with its streams led as `p` says. It gives the plumbing as it is in the end. -/
def Program.through {α : Type} : Program α → Plumbing → Program (α × Plumbing)
  | .done result, p => .done (result, p)
  | .act (.write channel data) next, p =>
    p.write channel data fun answer p => (next answer).through p
  | .act (.flood data) next, p => p.flood data fun answer p => (next answer).through p
  | .act (.read amount) next, p => p.read amount fun answer p => (next answer).through p
  | .act (.relay filter) next, p => p.relay filter fun answer p => (next answer).through p
  | .act (.inquire side) next, p => p.fileAt side fun answer => (next answer).through p
  | .act action next, p => .act action fun answer => (next answer).through p

end Pipework
