import Pipework.Overlay
import Pipework.Program

/-!
# Standard builtins

`cd` changes the directory of the rest of the script, `true` does nothing, `echo` writes its
arguments, and the log commands write theirs to the error output, each line after the level.
-/

namespace Pipework

/-- `data` with `mark` before its first byte and after each newline that more bytes follow. -/
def markLines (mark : Bytes) (data : Bytes) : Bytes := marking true data
where
  marking (fresh : Bool) : Bytes → Bytes
    | [] => []
    | b :: rest => (if fresh then mark else []) ++ b :: marking (b == 10) rest

namespace Builtin

def line (p : Proc) : Bytes := utf8 (" ".intercalate p.args.tail ++ "\n")

def destination (p : Proc) (dir : String) : Task String := do
  if Path.isAbsolute dir then return Path.clean dir
  else if p.dir ≠ "" then return Path.join p.dir dir
  else match ← Task.perform .workDirectory with
    | .ok base => return Path.join base dir
    | .error fault => throw (.about "cd" fault)

def cd (p : Proc) : Task Unit := do
  match p.args with
  | [_, dir] =>
    let dir ← destination p dir
    match ← Task.perform (.files .shell (.isDirectory dir)) with
    | .ok _ => Task.perform (.assign directoryVar dir)
    | .error _ => throw (.about ("cd " ++ dir) .noDirectory)
  | _ :: _ :: _ => throw (.plain "cd: too many arguments")
  | _ => throw (.plain "cd: missing directory")

def echo (p : Proc) : Task Unit := Task.write .out (line p)

def log (level : String) (p : Proc) : Task Unit :=
  Task.write .err (markLines (utf8 (level ++ " ")) (line p))

def levels : List String := ["trace", "debug", "info", "warn", "error"]

def concurrent (task : Proc → Task Unit) : Builtin := ⟨false, task⟩

def standard : List (String × Builtin) :=
  [("cd", ⟨true, cd⟩), ("true", concurrent fun _ => pure ()), ("echo", concurrent echo)]
    ++ levels.map fun level => (level, concurrent (log level))

end Builtin

end Pipework
