import Pipework.Builtin.Standard

/-!
# Builtins on text

`cat` joins files, `tee` copies its input to files as well as to its output, and `tr` replaces or
deletes characters. They work on the files of the shell.
-/

namespace Pipework.Builtin

def catFile (p : Proc) (name : String) : Task Unit := do
  if name = "-" then Task.relay
  else match ← Task.perform (.files .shell (.read (p.path name))) with
    | .ok feed => Task.pour feed.ready
    | .error fault => throw (.about "cat" fault)

def catFiles (p : Proc) : List String → Task Unit
  | [] => pure ()
  | name :: names => do
    catFile p name
    catFiles p names

def cat (p : Proc) : Task Unit :=
  match p.args.tail with
  | [] => Task.relay
  | names => catFiles p names

def closeAll (data : Bytes) : List String → Task Unit
  | [] => pure ()
  | path :: paths => do
    let _ ← Task.perform (.files .shell (.commit path data))
    closeAll data paths

def openAll (atEnd : Bool) (opened : List String) : List String → Task Unit
  | [] => pure ()
  | path :: paths => do
    match ← Task.perform (.files .shell (if atEnd then .append path else .create path)) with
    | .ok _ => openAll atEnd (opened ++ [path]) paths
    | .error fault =>
      closeAll [] opened
      throw (.about "tee" fault)

def tee (p : Proc) : Task Unit := do
  let (atEnd, names) := match p.args.tail with
    | "-a" :: names => (true, names)
    | names => (false, names)
  let paths := names.map p.path
  openAll atEnd [] paths
  let (data, fault) ← Task.perform (.relay Filter.all)
  closeAll data paths
  Task.check fault

def between (a b : Nat) : List Nat :=
  if a ≤ b then (List.range (b - a + 1)).map (a + ·) else (List.range (a - b + 1)).map (a - ·)

def expandSet : List Char → List Nat
  | a :: '-' :: b :: rest => between a.toNat b.toNat ++ expandSet rest
  | a :: rest => a.toNat :: expandSet rest
  | [] => []

/-- What `tr` does to the characters of `source`: it deletes them, or replaces each by the one at
its place in `target`, the last one standing in for all that are missing. -/
structure Mapping where
  source : List Nat
  target : Option (List Nat)

def charOfNat (n : Nat) : Char := if n.isValidChar then Char.ofNat n else Utf8.replacement

def Mapping.apply (m : Mapping) (c : Char) : Option Char :=
  match m.source.findIdx? (· = c.toNat) with
  | none => some c
  | some i =>
    match m.target with
    | none => none
    | some target => some (((target[min i (target.length - 1)]?).map charOfNat).getD c)

def Mapping.ofArgs : List String → Except Fault Mapping
  | ["-d", set] => .ok ⟨expandSet set.toList, none⟩
  | "-d" :: _ => .error (.plain "tr: -d takes one set")
  | [source, replacement] =>
    match expandSet replacement.toList with
    | [] => .error (.plain "tr: empty replacement set")
    | target => .ok ⟨expandSet source.toList, some target⟩
  | _ => .error (.plain "tr: two sets required")

/-- Output of `tr` is written only when all of the input has been read. -/
def tr (p : Proc) : Task Unit := do
  match Mapping.ofArgs p.args.tail with
  | .error fault => throw fault
  | .ok mapping =>
    let data ← Task.readAll
    Task.pour (Utf8.encode ((Utf8.decode data).filterMap mapping.apply))

def text : List (String × Builtin) :=
  [("cat", concurrent cat), ("tee", concurrent tee), ("tr", concurrent tr)]

end Pipework.Builtin
