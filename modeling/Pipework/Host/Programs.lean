import Pipework.Host.CommandShell.Process
import Pipework.Host.Tool.Count
import Pipework.Host.Tool.Directory
import Pipework.Host.Tool.Head
import Pipework.Host.Tool.Print
import Pipework.Host.Tool.Replace
import Pipework.Host.Tool.System

/-!
# The programs of the host

The tools, the command shell, and the files that a host has before anything is done on it.
-/

namespace Pipework.Host

def tools : Programs :=
  [("cat", Tool.cat), ("chmod", Tool.chmod), ("echo", Tool.echo), ("false", fun _ => Tool.exit 1),
   ("head", Tool.head), ("ls", Tool.ls), ("mkdir", Tool.mkdir), ("printenv", Tool.printenv),
   ("printf", Tool.printf), ("pwd", Tool.pwd), ("rmdir", Tool.rmdir), ("sleep", Tool.sleep),
   ("tr", Tool.tr), ("true", fun _ => Tool.exit 0), ("wc", Tool.wc), ("yes", Tool.yes)]

def programsAt : (depth : Nat) → Programs
  | 0 => tools
  | depth + 1 => ("sh", CommandShell.shell (programsAt depth)) :: tools

def programs : Programs := programsAt 20

def standardDirectories : List Place :=
  [["bin"], ["boot"], ["dev"], ["etc"], ["home"], ["lib"], ["media"], ["mnt"], ["opt"], ["proc"],
   ["root"], ["run"], ["sbin"], ["srv"], ["sys"], ["tmp"], ["usr", "bin"], ["usr", "lib"],
   ["usr", "local", "bin"], ["usr", "sbin"], ["usr", "share"], ["var", "tmp"]]

def devices : List (Place × Bytes) := [(["dev", "null"], []), (["dev", "zero"], [0])]

/-- Files that every host has, though no script should need what is in them. -/
def standardFiles : List Place := [["etc", "hostname"], ["etc", "hosts"], ["etc", "passwd"]]

def fresh (env : Table) (workDirectory : String) : Host :=
  let directories := (standardDirectories ++ [Path.fromRoot workDirectory]).foldl
    (fun t p => (t.makeAll p).getD t) FileTree.empty
  let withFiles := standardFiles.foldl (fun t p => t.put p (.file [] false)) directories
  let withDevices := devices.foldl (fun t (p, cycle) => t.put p (.device cycle)) withFiles
  let program : Node := .file programMark true
  let tree := programs.foldl
    (fun t (name, _) => (t.put ["bin", name] program).put ["usr", "bin", name] program) withDevices
  ⟨env, workDirectory, tree⟩

end Pipework.Host
