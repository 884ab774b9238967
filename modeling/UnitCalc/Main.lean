/-
# The command line

Arguments are one statement, which is answered. Without arguments the lines of the standard
input are answered one by one.
-/

import UnitCalc.Shell

namespace UnitCalc

/-- The settings of a session, from the environment. -/
def readSettings : IO Settings := do
  return .ofEnvironment {
    complex := ← IO.getEnv "TOX_COMPLEX"
    angle := ← IO.getEnv "TOX_ANGLE"
    decimals := ← IO.getEnv "TOX_DECIMALS" }

/-- Answers a line and returns the session behind it. -/
def answerLine (s : Session) (line : String) : IO Session := do
  let (output, s) := (Shell.respond line).run s
  if let some text := output then IO.println text
  return s

/-- Answers the lines of a stream. -/
partial def answerLines (input : IO.FS.Stream) (s : Session) : IO Unit := do
  let line ← input.getLine
  if !line.isEmpty then
    answerLines input (← answerLine s line)

end UnitCalc

open UnitCalc in
/-- Answers the arguments, or else the standard input. -/
def main (args : List String) : IO Unit := do
  let s := Session.start (← readSettings) (mkStdGen (← IO.monoNanosNow))
  if args.isEmpty then answerLines (← IO.getStdin) s
  else discard (answerLine s (" ".intercalate args))
