import Pipework.Table

/-!
# Command lines

A command is shown as one line that a POSIX shell would split into the same words. A word made of
plain characters stands for itself; any other word is put between single quotes, and a single
quote inside it is written as a quote that ends the word's quoting, an escaped quote, and a quote
that starts it again.
-/

namespace Pipework

namespace CommandLine

/-- A character that no shell treats specially. -/
def isPlain (c : Char) : Bool := c.isAlphanum || "_@%+=:,./-".toList.contains c

def escape (cs : List Char) : List Char :=
  cs.flatMap fun c => if c = '\'' then ['\'', '\\', '\'', '\''] else [c]

def quote (word : String) : String :=
  if word.isEmpty then "''"
  else if word.toList.all isPlain then word
  else String.ofList ('\'' :: escape word.toList ++ ['\''])

def join (args : List String) : String := " ".intercalate (args.map quote)

def render (env : Table) (args : List String) : String :=
  env.foldr (fun (k, v) line => k ++ "=" ++ quote v ++ " " ++ line) (join args)

end CommandLine

end Pipework
