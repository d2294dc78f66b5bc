import Pipework.Reader

/-!
# Jobs

A job is a script that runs in the background from the start. It can be waited for any number of
times, always with the same result, and it can be killed. Killing reports the fault of the script
only if the script had ended before.
-/

namespace Pipework

structure Job where
  run : Background

namespace Job

def start (script : World → Background) (world : World) : Job × World :=
  let run := script world
  (⟨run⟩, run.state)

def wait (j : Job) (world : World) : Except Fault String × Job × World :=
  match j.run with
  | .done result _ => (result, j, world)
  | .wait _ _ resume =>
    let (result, world) := (resume .ready world).complete
    (result, ⟨.done result world⟩, world)

/-- Stops the script if it has not ended. -/
def kill (j : Job) (world : World) : Option Fault × Job × World :=
  match j.run with
  | .done result _ => (faultOf result, j, world)
  | run =>
    let (result, world) := stopRun run 0 world
    (none, ⟨.done result world⟩, world)

end Job

end Pipework
