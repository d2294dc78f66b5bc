import Pipework.Script.Mistake
import Pipework.Text.Utf8

/-!
# Faults

A fault says why something failed. It is a chain: a cause, wrapped by what each caller had to say
about it. A stage of a pipeline that failed is reported by a `Failure`, which names the command
and holds what the command wrote to its error output. What a chain says is its `message`; what can
be found in it is told by `failure?` and by `mentions`.
-/

namespace Pipework

/-- A stage that failed, apart from the cause of the failure. -/
structure Report where
  command : String
  log : Bytes
  code : Int
  signal : String
deriving DecidableEq, Repr

inductive Fault where
  | plain (text : String)
  | mistake (mistake : Mistake)
  | canceled
  | readerClosed
  /-- The consumer of some output went away. -/
  | pipeClosed
  | noDirectory
  | fileMissing
  | noEntry
  | notOnPath (program : String)
  | exited (code : Int)
  | killed (signal : String)
  | about (subject : String) (cause : Fault)
  | both (first second : Fault)
  | stage (report : Report)
  | stageOf (report : Report) (cause : Fault)
deriving DecidableEq, Repr

structure Failure extends Report where
  cause : Option Fault
deriving DecidableEq, Repr

inductive Sentinel where
  | canceled
  | readerClosed
  | notOnPath
  | noDirectory
  | notExist
deriving DecidableEq, Repr

def trimEnding (ending bs : Bytes) : Bytes :=
  if ending.isSuffixOf bs then bs.take (bs.length - ending.length) else bs

def tabbed (log : Bytes) : Bytes := log.flatMap fun b => if b = 10 then [10, 9] else [b]

/-- `log` under the message of a failure: every line after a tab, without the last newline. -/
def indentedLog (log : Bytes) : Bytes :=
  if log = [] then [] else 10 :: 9 :: trimEnding [10, 9] (tabbed log)

def Report.message (r : Report) (cause : Option Bytes) : Bytes :=
  (if r.command.isEmpty then [] else utf8 (r.command ++ ": "))
    ++ (match cause with
      | some text => text
      | none =>
        if r.signal.isEmpty then utf8 ("exit status " ++ toString r.code)
        else utf8 ("terminated abnormally: " ++ r.signal))
    ++ indentedLog r.log

namespace Fault

def message : Fault → Bytes
  | .plain text => utf8 text
  | .mistake m => utf8 m.message
  | .canceled => utf8 "context canceled"
  | .readerClosed => utf8 "script: read from closed reader"
  | .pipeClosed => utf8 "io: read/write on closed pipe"
  | .noDirectory => utf8 "no such directory"
  | .fileMissing => utf8 "file does not exist"
  | .noEntry => utf8 "no such file or directory"
  | .notOnPath program =>
    utf8 ("exec: " ++ quoted program ++ ": executable file not found in $PATH")
  | .exited code => utf8 ("exit status " ++ toString code)
  | .killed signal => utf8 ("signal: " ++ signal)
  | .about subject cause => utf8 (subject ++ ": ") ++ cause.message
  | .both first second => first.message ++ 10 :: second.message
  | .stage report => report.message none
  | .stageOf report cause => report.message (some cause.message)

def failure? : Fault → Option Failure
  | .about _ cause => cause.failure?
  | .both first second => first.failure?.or second.failure?
  | .stage report => some ⟨report, none⟩
  | .stageOf report cause => some ⟨report, some cause⟩
  | _ => none

def exit? : Fault → Option (Int × String)
  | .exited code => some (code, "")
  | .killed signal => some (-1, signal)
  | .about _ cause => cause.exit?
  | .both first second => first.exit?.or second.exit?
  | .stageOf _ cause => cause.exit?
  | _ => none

def mentions (s : Sentinel) : Fault → Bool
  | .canceled => s == .canceled
  | .readerClosed => s == .readerClosed
  | .notOnPath _ => s == .notOnPath
  | .noDirectory => s == .noDirectory
  | .fileMissing => s == .notExist
  | .noEntry => s == .notExist
  | .about _ cause => cause.mentions s
  | .both first second => first.mentions s || second.mentions s
  | .stageOf _ cause => cause.mentions s
  | _ => false

/-- The command never started: the failure has a cause, and neither a code nor a signal. -/
def isNotFound (f : Fault) : Bool :=
  match f.failure? with
  | some e => e.cause.isSome && e.code == 0 && e.signal.isEmpty
  | none => false

end Fault

def brokenPipe : Fault := .about "write |1" (.plain "broken pipe")

namespace Failure

def toFault (e : Failure) : Fault :=
  match e.cause with
  | none => .stage e.toReport
  | some cause => .stageOf e.toReport cause

def message (e : Failure) : Bytes := e.toFault.message

/-- The failure of the stage `command` that ran, wrote `log` and ended with the fault `f`. A
failure within `f` is passed on, with the command filled in if it names none. -/
def ofFault (command : String) (log : Bytes) (f : Fault) : Failure :=
  match f.failure? with
  | some e => if e.command.isEmpty then { e with command := command } else e
  | none =>
    match f.exit? with
    | some (code, signal) => ⟨⟨command, log, code, signal⟩, none⟩
    | none => ⟨⟨command, log, 1, ""⟩, some f⟩

def ofStart (command : String) (cause : Fault) : Failure := ⟨⟨command, [], 0, ""⟩, some cause⟩

theorem failure?_toFault (e : Failure) : e.toFault.failure? = some e := by
  cases e with
  | mk report cause => cases cause <;> rfl

end Failure

end Pipework
