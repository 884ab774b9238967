/-
# Settings of a session

Whether numbers are complex, the unit that plain numbers have as angles, and how
many decimals results show. Settings can be read from environment variables;
values that are not understood are ignored.
-/

import UnitCalc.Number.Scalar
import UnitCalc.Text.Blank
import UnitCalc.Text.Quoted

namespace UnitCalc

/-- The unit of angles that carry none of their own. -/
inductive AngleUnit where
  | degree
  | radian
  | gradian
deriving Repr, DecidableEq

namespace AngleUnit

/-- Radians in one unit. -/
def factor {R : Type} [Scalar R] : AngleUnit → R
  | degree => Scalar.pi / 180.0
  | radian => 1
  | gradian => Scalar.pi / 200.0

/-- The symbol of the unit. -/
def symbol : AngleUnit → String
  | degree => "°"
  | radian => "rad"
  | gradian => "grad"

/-- Reads the name of an angle unit, or its first letter, in any case. The error is
a message. -/
def parse (s : String) : Except String AngleUnit :=
  let name := (Text.trim s).map Char.toLower
  if name == "deg" || name == "d" then .ok degree
  else if name == "rad" || name == "r" then .ok radian
  else if name == "grad" || name == "g" then .ok gradian
  else .error ("unknown angle unit " ++ Text.quote name)

end AngleUnit

/-- The settings of a session. -/
structure Settings where
  complex : Bool := false
  angle : AngleUnit := .degree
  decimals : Nat := 6
deriving Repr, DecidableEq

namespace Settings

/-- No more decimals are shown than a double precision number has. -/
def maxDecimals : Nat := 15

/-- Sets the number of decimals, up to the most that are shown. -/
def withDecimals (s : Settings) (decimals : Nat) : Settings :=
  { s with decimals := min decimals maxDecimals }

/-- Reads a count that fits 64 bits: digits with an optional plus sign. -/
def readCount (s : String) : Option Nat :=
  let digits := match s.toList with
    | '+' :: ds => ds
    | ds => ds
  if digits.isEmpty || !digits.all Char.isDigit then none
  else
    let n := Number.Literal.ofDigits digits
    if n < Nat.pow 2 64 then some n else none

/-- The values of the environment variables that set a session up. -/
structure Environment where
  complex : Option String := none
  angle : Option String := none
  decimals : Option String := none

/-- Reads a switch: `1`, `true` or `yes`, and `0`, `false` or `no`. -/
def readSwitch (s : String) : Option Bool :=
  let word := Text.trim s
  if ["1", "true", "yes"].contains word then some true
  else if ["0", "false", "no"].contains word then some false
  else none

/-- The defaults, overridden by what the environment says and is understood. -/
def ofEnvironment (env : Environment) : Settings :=
  let defaults : Settings := {}
  let complex := (env.complex.bind readSwitch).getD defaults.complex
  let angle := (env.angle.bind fun s => (AngleUnit.parse s).toOption).getD defaults.angle
  let decimals := (env.decimals.bind fun s => readCount (Text.trim s)).getD defaults.decimals
  { defaults with complex, angle }.withDecimals decimals

end Settings

end UnitCalc
