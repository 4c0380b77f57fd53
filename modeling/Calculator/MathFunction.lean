/-!
# The functions of the calculator

Six functions can be called by name.  The trigonometric ones take degrees; an angle is multiplied by
pi first and divided by 180 afterwards, and the order of the two roundings is visible in the last
digit of a result.
-/

set_option autoImplicit false

namespace Calculator

/-- The double nearest to the ratio of a circle's circumference to its diameter. -/
def pi : Float := Float.ofBits 0x400921FB54442D18

/-- A function that can be called by name. -/
inductive MathFunction where
  | sin
  | cos
  | tan
  | sqrt
  | log
  | ln
deriving DecidableEq, Repr

namespace MathFunction

/-- All functions, in the order in which their calls are resolved. -/
def all : List MathFunction := [sin, cos, tan, sqrt, log, ln]

theorem mem_all (f : MathFunction) : f ∈ all := by
  cases f <;> decide

/-- The name a function is called by. -/
def name : MathFunction → String
  | sin => "sin"
  | cos => "cos"
  | tan => "tan"
  | sqrt => "sqrt"
  | log => "log"
  | ln => "ln"

theorem name_inj {f g : MathFunction} (h : f.name = g.name) : f = g := by
  cases f <;> cases g <;> first | rfl | (revert h; decide)

/-- An angle in radians. -/
def radians (degrees : Float) : Float := degrees * pi / 180

/-- What a function computes. -/
def apply : MathFunction → Float → Float
  | sin, x => Float.sin (radians x)
  | cos, x => Float.cos (radians x)
  | tan, x => Float.tan (radians x)
  | sqrt, x => Float.sqrt x
  | log, x => Float.log10 x
  | ln, x => Float.log x

end MathFunction

end Calculator
