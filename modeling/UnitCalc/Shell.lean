/-
# The shell

The shell answers lines. A statement is answered by its expression and its value, a
definition by itself, and what is refused by the reason. Blank lines get no answer, and a
command resets the session.

## Main definitions

* `Shell.respond` answers one line, and `Shell.transcript` answers several.
-/

import UnitCalc.Session.Evaluation

namespace UnitCalc.Shell

/-- The command that resets the session. -/
def clearCommand : String := ":clear"

/-- The answer to a statement. -/
def answer (line : String) : SessionM String := do
  let statement ← SessionM.parse line
  if statement.isDefinition then return statement.text
  let value := (← SessionM.runStatement statement).value
  let s ← get
  return s.render statement.program ++ " = " ++ value.text s.settings.decimals

/-- The answer to a line, if it gets one. -/
def respond (line : String) : StateM Session (Option String) := do
  let command := Text.trim line
  if command.isEmpty then return none
  if command == clearCommand then
    modify Session.clear
    return none
  match ← (answer line).run with
  | .ok text => return some text
  | .error e => return some ("Error: " ++ e.message)

/-- The answers to lines. -/
def transcript (lines : List String) : StateM Session (List String) := do
  return (← lines.mapM respond).reduceOption

end UnitCalc.Shell
