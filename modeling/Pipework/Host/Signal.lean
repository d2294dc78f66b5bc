import Pipework.Fault

/-!
# Signals

The signals that a process can be ended by have numbers and names.
-/

namespace Pipework.Host.Signal

def names : List String :=
  ["HUP", "INT", "QUIT", "ILL", "TRAP", "ABRT", "BUS", "FPE", "KILL", "USR1", "SEGV", "USR2",
   "PIPE", "ALRM", "TERM", "STKFLT", "CHLD", "CONT", "STOP", "TSTP", "TTIN", "TTOU", "URG", "XCPU",
   "XFSZ", "VTALRM", "PROF", "WINCH", "IO", "PWR", "SYS"]

def name (number : Nat) : String :=
  match names[number - 1]? with
  | some name => "SIG" ++ name
  | none => "signal " ++ toString number

def number? (name : String) : Option Nat := (names.findIdx? (· = name)).map (· + 1)

def descriptions : List String :=
  ["Hangup", "Interrupt", "Quit", "Illegal instruction", "Trace/breakpoint trap", "Aborted",
   "Bus error", "Floating point exception", "Killed", "User defined signal 1",
   "Segmentation fault", "User defined signal 2", "Broken pipe", "Alarm clock", "Terminated",
   "Stack fault", "Child exited", "Continued", "Stopped (signal)", "Stopped", "Stopped (tty input)",
   "Stopped (tty output)", "Urgent I/O condition", "CPU time limit exceeded",
   "File size limit exceeded", "Virtual timer expired", "Profiling timer expired",
   "Window changed", "I/O possible", "Power failure", "Bad system call"]

def describe (number : Nat) : String :=
  match descriptions[number - 1]? with
  | some text => text
  | none => "Real-time signal " ++ toString (number - 34)

/-- The signals that leave a process alone that does not ask for them. -/
def harmless : List String := ["CHLD", "CONT", "URG", "WINCH"]

def isFatal (number : Nat) : Bool :=
  number ≠ 0 && !((names[number - 1]?).any harmless.contains)

def fault (number : Nat) : Fault := .killed (name number)

def numberOf : Fault → Nat
  | .killed shown =>
    match shown.toList with
    | 'S' :: 'I' :: 'G' :: rest => (number? (String.ofList rest)).getD 0
    | chars =>
      (chars.filter Char.isDigit).foldl (fun n d => 10 * n + (d.toNat - 48)) 0
  | _ => 0

def brokenPipe : Fault := .killed "SIGPIPE"

end Pipework.Host.Signal
