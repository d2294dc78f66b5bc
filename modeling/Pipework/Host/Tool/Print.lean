import Pipework.Host.Tool.Basic
import Pipework.Host.Tool.Conversion

/-!
# The tools `echo`, `printf` and `yes`

They write their arguments: on one line, in a format, and for ever.
-/

namespace Pipework.Host.Tool

/-- Writes its arguments on one line. With `-n` the line is not ended, with `-e` escapes count. -/
def echo (p : Spawn) : Task Unit :=
  let isOption (a : String) : Bool :=
    match a.toList with
    | '-' :: c :: cs => (c :: cs).all fun c => c = 'n' || c = 'e' || c = 'E'
    | _ => false
  let options := p.args.tail.takeWhile isOption
  let letters := options.flatMap String.toList
  let text := " ".intercalate (p.args.tail.drop options.length)
  let newline : Bytes := if letters.contains 'n' then [] else [10]
  if (letters.filter fun c => c = 'e' || c = 'E').getLast? = some 'e' then
    let (data, ending) := Format.unescape .tool Format.unknownToEcho text.length text.toList
    write (data ++ if ending = .whole then newline else [])
  else write (utf8 text ++ newline)

def complainAll (p : Spawn) : List Format.Complaint → Task Unit
  | [] => pure ()
  | c :: cs => do
    complainOf p (c.message .tool)
    complainAll p cs

def printf (p : Spawn) : Task Unit := do
  match if p.args.tail.head? = some "--" then p.args.tail.tail else p.args.tail with
  | [] => seeHelp p "missing operand" 1
  | format :: args =>
    let result := Format.apply .tool format args
    write result.output
    complainAll p result.wrong
    if !result.stopped && result.rest ≠ [] then
      let first := result.rest.headD ""
      complain p ("warning: ignoring excess arguments, starting with " ++ quotedText first)
    exit (if result.wrong.all Format.Complaint.isWarning then 0 else 1)

def yes (p : Spawn) : Task Unit :=
  withArguments p [] false 1 fun a => do
    let text := if a.operands = [] then "y" else " ".intercalate a.operands
    let _ ← Task.perform (.flood (utf8 (text ++ "\n")))
    throw Signal.brokenPipe

end Pipework.Host.Tool
