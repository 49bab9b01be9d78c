import PacketDraft.Fault
import PacketDraft.Number.Shortest
import PacketDraft.Text.Quoted

/-!
# Constants

The values that a constant expression can have. A truth value counts as the number 0 or 1.
-/

namespace PacketDraft.Protocol

open Number
open Text (quoted)

/-- The value of a constant. -/
inductive Literal where
  | int (n : Int)
  | real (x : Double)
  | flag (b : Bool)
  | text (s : String)
  | nothing
  deriving DecidableEq, Repr

namespace Literal

/-- The integer that an integer or a truth value counts as. -/
def int? : Literal → Option Int
  | .int n => some n
  | .flag b => some (if b then 1 else 0)
  | _ => none

/-- Whether two values are equal; numbers are compared by value. -/
def equals (a b : Literal) : Bool :=
  match a, b with
  | .text s, .text t => s = t
  | .nothing, .nothing => true
  | .real x, .real y => x.equals y
  | .real x, b =>
    match b.int? with
    | some n => x.equalsInt n
    | none => false
  | a, .real y =>
    match a.int? with
    | some n => y.equalsInt n
    | none => false
  | a, b =>
    match a.int?, b.int? with
    | some m, some n => m = n
    | _, _ => false

/-- The sum of two numbers, or two texts one behind the other. -/
def add (a b : Literal) : Except Fault Literal :=
  match a, b with
  | .text s, .text t => .ok (.text (s ++ t))
  | .real x, .real y => .ok (.real (x.add y))
  | .real x, b =>
    match b.int? with
    | some n => .ok (.real (x.add (.ofInt n)))
    | none => .error .wrongKind
  | a, .real y =>
    match a.int? with
    | some n => .ok (.real ((Double.ofInt n).add y))
    | none => .error .wrongKind
  | a, b =>
    match a.int?, b.int? with
    | some m, some n => .ok (.int (m + n))
    | _, _ => .error .wrongKind

/-- The value as it is shown, texts in quotes. -/
def shown : Literal → String
  | .int n => toString n
  | .real x => x.text
  | .flag true => "True"
  | .flag false => "False"
  | .text s => quoted s
  | .nothing => "None"

/-- The value as a text. -/
def asText : Literal → String
  | .text s => s
  | v => v.shown

end Literal

end PacketDraft.Protocol
