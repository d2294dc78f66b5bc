import Pipework.Host.CommandShell.Expand

/-!
# Streams of a command

Redirections are applied from left to right, on top of where the streams of the shell lead. A file
at the input is read as the later redirections leave it.
-/

namespace Pipework.Host.CommandShell

def openRefusal (direction : Direction) (name : String) (fault : Fault) : String :=
  match direction with
  | .output | .append =>
    let why := if fault.mentions .notExist then "Directory nonexistent" else Tool.reason fault
    "cannot create " ++ name ++ ": " ++ why
  | _ =>
    let why := if fault.mentions .notExist then "No such file" else Tool.reason fault
    "cannot open " ++ name ++ ": " ++ why

inductive Refusal where
  | complaint (text : String)
  | mistake (mistake : Mistake)
deriving DecidableEq, Repr

def openFile (request : String → FileRequest) (name : String) (s : State) :
    Program (Except Fault Feed) :=
  if name = "" then pure (.error .noEntry)
  else Program.perform (.files .host (request (Path.below s.directory name)))

def redirect (r : Redirection) (name : String) (s : State) (p : Plumbing) :
    Program (Except Refusal Plumbing) := do
  let path := Path.below s.directory name
  match r.direction with
  | .copy =>
    if name = "-" then
      return .ok (if r.fd = 0 then p.feedWith .nothing none else p.lead r.fd .null)
    else if name.length ≠ 1 || Tool.number? name = none then return .error (.mistake .badNumber)
    else if r.fd = 0 then return .ok p
    else match (Tool.number? name).bind p.outletOf? with
      | some outlet => return .ok (p.lead r.fd outlet)
      | none => return .error (.complaint (name ++ ": Bad file descriptor"))
  | .here => return .ok (p.feedWith (.ofBytes (utf8 name)) none)
  | .input =>
    match ← openFile .read name s with
    | .ok feed => return .ok (if r.fd = 0 then p.feedWith feed (some (Path.clean path)) else p)
    | .error fault => return .error (.complaint (openRefusal .input name fault))
  | direction =>
    let atEnd := direction = .append
    match ← openFile (if atEnd then .append else .create) name s with
    | .ok _ => return .ok (p.leadToFile r.fd ⟨.host, path, atEnd, []⟩)
    | .error fault => return .error (.complaint (openRefusal direction name fault))

def refresh (p : Plumbing) : Program Plumbing := do
  match p.inputPath with
  | none => return p
  | some path =>
    match ← Program.perform (.files .host (.read path)) with
    | .ok feed => return p.feedWith feed (some path)
    | .error _ => return p

def feeds (rs : List Redirection) : Bool := rs.any fun r => r.fd = 0

namespace Machine

variable (m : Machine)

def redirectAll (line : Nat) : List Redirection → State → Plumbing →
    Program (Except Refusal Plumbing × State)
  | [], s, p => pure (.ok p, s)
  | r :: rest, s, p => do
    let (name, s) ← m.expandWhole line r.target s
    match ← redirect r name s p with
    | .ok p => redirectAll line rest s p
    | .error refusal => return (.error refusal, s)

/-- Leads the streams of the shell as the redirections of a command say. A complaint is the status
2 of the command. -/
def openStreams (rs : List Redirection) (line : Nat) (s : State) :
    Program (Except State (Plumbing × State)) := do
  match ← m.redirectAll line rs s s.streams with
  | (.error (.complaint text), s) => return .error ((← complain s line text).after 2)
  | (.error (.mistake mistake), s) =>
    return .error ((← complain s line mistake.message).exiting 2)
  | (.ok p, s) => return .ok (← if feeds rs then refresh p else pure p, s)

/-- Does `body` with the streams of the shell led as the redirections say. A complaint ends the
shell if a failure would, unless it is `tested`. -/
def withRedirections (rs : List Redirection) (line : Nat) (tested : Bool)
    (body : State → Program State) (s : State) : Program State := do
  match ← m.openStreams rs line s with
  | .error s => return s.settled tested
  | .ok (p, s) =>
    let (after, p) ← (body s.inside).through p
    return s.withStreams (feeds rs) p after

end Machine

end Pipework.Host.CommandShell
