import Abacus.Grammar.Expression
import Abacus.Value.Basic

/-!
# Arithmetic

Two doubles are combined by the rules of binary floating point, where dividing by zero gives an
infinity or not-a-number. Two integers are combined exactly, and the result must fit thirty-two bits;
their quotient is rounded toward zero. Nothing else can be combined: an integer and a double cannot,
nor can truth values.
-/

namespace Abacus

/-- Why a built-in operation has no result. -/
inductive OperandFault where
  | unsupported (op : NativeOp) (left right : Value)
  | overflow (op : NativeOp)
  | divisionByZero
  | count (op : NativeOp) (given : Nat)

namespace OperandFault

def report : OperandFault → Report
  | unsupported op left right =>
    .script "TypeError" ("unsupported " ++ op.symbol ++ " for " ++ left.kind ++ " and " ++ right.kind)
  | overflow op => .script "OverflowError" ("integer overflow in " ++ op.symbol)
  | divisionByZero => .script "ZeroDivisionError" "integer division by zero"
  | count op given =>
    .script "TypeError" (op.symbol ++ " expects 2 arguments, got " ++ toString given)

end OperandFault

namespace NativeOp

/-- The operation on doubles. -/
def onFloats (op : NativeOp) (x y : Float) : Float :=
  match op with
  | add => x + y
  | sub => x - y
  | mul => x * y
  | div | print => x / y

/-- The quotient of the magnitudes, negated if the signs differ. -/
def quotient (m n : Int) : Int :=
  let magnitude : Int := (m.natAbs / n.natAbs : Nat)
  if m < 0 ↔ n < 0 then magnitude else -magnitude

/-- The operation on integers of any size, before the result is checked. -/
def onInts (op : NativeOp) (m n : Int) : Except OperandFault Int :=
  match op with
  | add => .ok (m + n)
  | sub => .ok (m - n)
  | mul => .ok (m * n)
  | div | print => if n = 0 then .error .divisionByZero else .ok (quotient m n)

/-- The integer itself, if it has thirty-two bits. -/
def checked (op : NativeOp) (n : Int) : Except OperandFault Value :=
  if fitsInt32 n then .ok (.int n) else .error (.overflow op)

/-- Combines two values. -/
def apply (op : NativeOp) (left right : Value) : Except OperandFault Value :=
  match left, right with
  | .float x, .float y => .ok (.float (op.onFloats x y))
  | .int m, .int n => do op.checked (← op.onInts m n)
  | _, _ => .error (.unsupported op left right)

/-- The line that `print` writes. -/
def printedLine (arguments : List Value) : Text :=
  Text.intercalate " " (arguments.map Value.text) ++ "\n"

/-- What a built-in operation gives, and what it prints. -/
def call (op : NativeOp) (arguments : List Value) : Except OperandFault (Value × Option Text) :=
  match op with
  | print => .ok (.void, some (printedLine arguments))
  | _ =>
    match arguments with
    | [left, right] => do return (← op.apply left right, none)
    | _ => .error (.count op arguments.length)

end NativeOp

end Abacus
