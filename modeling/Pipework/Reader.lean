import Pipework.Engine

/-!
# Readers

A reader gives the output of a script as it comes. The script starts with the first read. A write
of the script is done when all of its bytes have been taken. Closing the reader stops the script;
the fault of a script is reported on closing only if the script had ended by itself.
-/

namespace Pipework

abbrev Background := Run World (Except Fault String)

def faultOf : Except Fault String → Option Fault
  | .ok _ => none
  | .error fault => some fault

/-- What was taken from a script: the bytes, the script as it is then, how much of the offered
bytes has been taken, and the world. -/
structure Pulled where
  data : Bytes
  run : Background
  taken : Nat
  world : World

def cyclic (data : Bytes) (taken n : Nat) : Bytes :=
  ((List.replicate (taken + n + 1) data).flatten.drop taken).take n

/-- Takes `want` bytes from a script, or all of them, as far as they come. `taken` bytes of what is
offered have been taken before. -/
def pull : Background → (want : Option Nat) → (taken : Nat) → World → Pulled
  | .done result state, _, _, world => ⟨[], .done result state, 0, world⟩
  | .wait (.offer data false) state resume, want, taken, world =>
    let left := data.drop taken
    match want with
    | none =>
      let next := resume .ready world
      let more := pull next none 0 next.state
      { more with data := left ++ more.data }
    | some n =>
      if n < left.length then
        ⟨left.take n, .wait (.offer data false) state resume, taken + n, world⟩
      else
        let next := resume .ready world
        let more := if n = left.length then ⟨[], next, 0, next.state⟩
          else pull next (some (n - left.length)) 0 next.state
        { more with data := left ++ more.data }
  | .wait (.offer data true) state resume, want, taken, world =>
    let n := want.getD 0
    ⟨cyclic data taken n, .wait (.offer data true) state resume, (taken + n) % data.length, world⟩
  | .wait .never state resume, _, _, world => ⟨[], .wait .never state resume, 0, world⟩
  | .wait _ _ resume, want, _, world =>
    let next := resume .ready world
    pull next want 0 next.state

def stopRun : Background → (taken : Nat) → World → Except Fault String × World
  | .done result _, _, world => (result, world)
  | .wait _ _ resume, taken, world => (resume (.stop taken) world).finish

inductive Reader where
  | idle (start : World → Background)
  | active (run : Background) (taken : Nat)
  | closed
  | failed (fault : Fault)

inductive ReadEnd where
  | full
  | eof
  | fault (fault : Fault)

namespace Reader

def readEnd (want : Option Nat) (p : Pulled) : ReadEnd :=
  if want = some p.data.length then .full
  else match p.run with
    | .done (.ok _) _ => .eof
    | .done (.error fault) _ => .fault fault
    | .wait _ _ _ => .full

def begin (r : Reader) (world : World) : Reader × World :=
  match r with
  | .idle start =>
    let run := start world
    (.active run 0, run.state)
  | r => (r, world)

def read (r : Reader) (want : Option Nat) (world : World) : (Bytes × ReadEnd) × Reader × World :=
  if want = some 0 then (([], .full), r, world)
  else match r.begin world with
    | (.active run taken, world) =>
      let p := pull run want taken world
      ((p.data, readEnd want p), .active p.run p.taken, p.world)
    | (.closed, world) => (([], .fault .readerClosed), .closed, world)
    | (.failed fault, world) => (([], .fault fault), .failed fault, world)
    | (.idle start, world) => (([], .eof), .idle start, world)

/-- Closes the reader. The fault of the script is given if the script had ended. -/
def close (r : Reader) (world : World) : Option Fault × Reader × World :=
  match r with
  | .active run taken =>
    let (result, world) := stopRun run taken world
    (if run.isDone then faultOf result else none, .closed, world)
  | .idle _ | .closed => (none, .closed, world)
  | .failed fault => (none, .failed fault, world)

def outcome (refusal closing : Option Fault) : Option Fault := refusal.or closing

end Reader

end Pipework
