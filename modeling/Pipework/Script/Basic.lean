import Pipework.CommandLine

/-!
# Scripts

A script is a list of statements. A statement is a pipeline with fallbacks, each tried when all
before it failed. A pipeline is a list of commands, the output of each feeding the next. A command
is a list of words with the variables set for it alone and its redirections, in the order written.
-/

namespace Pipework

inductive Target where
  | file (path : String)
  /-- The descriptor `fd`, as it is when the redirection is reached. -/
  | fd (fd : Int)
  | null
deriving DecidableEq, Repr

structure Redirection where
  fd : Int
  target : Target
  append : Bool
deriving DecidableEq, Repr

structure Command where
  args : List String
  env : Table
  redirections : List Redirection
deriving DecidableEq, Repr

structure Pipeline where
  commands : List Command
  ignore : Bool
  /-- Where the pipeline stands in the text that holds the script. -/
  file : String
  line : Int
deriving DecidableEq, Repr

structure Statement where
  first : Pipeline
  fallbacks : List Pipeline
deriving DecidableEq, Repr

def Statement.alternatives (s : Statement) : List Pipeline := s.first :: s.fallbacks

structure Script where
  statements : List Statement
deriving DecidableEq, Repr

def nullDevice : String := "/dev/null"

namespace Target

def ofPath (path : String) : Target := if path = nullDevice then .null else .file path

def render : Target → String
  | .file path => CommandLine.quote path
  | .fd n => "&" ++ toString n
  | .null => nullDevice

end Target

def Redirection.operator (r : Redirection) : String :=
  if r.fd = 0 then "<" else toString r.fd ++ if r.append then ">>" else ">"

def Redirection.render (r : Redirection) : String := r.operator ++ r.target.render

def Command.render (c : Command) : String :=
  c.redirections.foldl (fun line r => line ++ " " ++ r.render) (CommandLine.render c.env c.args)

def Pipeline.render (p : Pipeline) : String :=
  (if p.ignore then "ignore " else "") ++ " | ".intercalate (p.commands.map Command.render)

def Statement.render (s : Statement) : String :=
  " || ".intercalate (s.alternatives.map Pipeline.render)

def Script.render (s : Script) : String := "; ".intercalate (s.statements.map Statement.render)

end Pipework
