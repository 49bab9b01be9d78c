import PacketDraft.Description.Lexeme

/-!
# Formulas

Sizes, constraints and presence conditions as a description writes them. A formula is a number, a
field, a field of a field, the size of a field, or a binary operation; operators of six ranks
associate to the left and parentheses group.
-/

namespace PacketDraft.Description

open Grammar Grammar.Parser

/-- Binary operations on formulas. -/
inductive Operator where
  | pow | multiply | divide | modulo | plus | minus | le | lt | ge | gt | and | or | not | eq | ne
  deriving DecidableEq, Repr

namespace Operator

/-- The method that carries out an operation. -/
def method : Operator → String
  | pow => "pow" | multiply => "multiply" | divide => "divide" | modulo => "modulo"
  | plus => "plus" | minus => "minus" | le => "le" | lt => "lt" | ge => "ge" | gt => "gt"
  | and => "and" | or => "or" | not => "not" | eq => "eq" | ne => "ne"

/-- How an operation is written. -/
def symbol : Operator → String
  | pow => "^" | multiply => "*" | divide => "/" | modulo => "%" | plus => "+" | minus => "-"
  | le => "<=" | lt => "<" | ge => ">=" | gt => ">" | and => "&&" | or => "||" | not => "!"
  | eq => "==" | ne => "!="

/-- The operation that a symbol or one of the words `and`, `or` and `not` stands for. -/
def ofSymbol? : String → Option Operator
  | "^" => some pow | "*" => some multiply | "/" => some divide | "%" => some modulo
  | "+" => some plus | "-" => some minus | "<=" => some le | "<" => some lt | ">=" => some ge
  | ">" => some gt | "&&" => some and | "||" => some or | "!" => some not | "and" => some and
  | "or" => some or | "not" => some not | "==" => some eq | "!=" => some ne
  | _ => none

end Operator

/-- A size, constraint or condition as written. -/
inductive Formula where
  | number (n : Nat)
  /-- The value of a field of the structure that is described. -/
  | field (name : String)
  /-- The size of such a field. -/
  | sizeOf (name : String)
  /-- The value of a field of such a field. -/
  | member (name inner : String)
  | binary (op : Operator) (left right : Formula)
  deriving DecidableEq, Repr

/-- What follows the start of a chain. -/
inductive Links (α : Type) where
  /-- Right operands with the symbols of their operations. -/
  | operations (rest : List (String × α))
  /-- The results of conditions, where they hold and where they do not. -/
  | choices (rest : List (α × α))

/-- One operation on a left operand. An unknown symbol has no operation. -/
def operate {α : Type} (node : Operator → α → α → α) (left : α) : String × α → Except Fault α
  | (symbol, right) =>
    match Operator.ofSymbol? symbol with
    | some op => .ok (node op left right)
    | none => .error .notFound

/-- Puts a chain together from the left. -/
def buildTree {α : Type} (node : Operator → α → α → α) (choice : α → α → α → Except Fault α)
    (start : α) : Links α → Except Fault α
  | .operations rest => rest.foldlM (operate node) start
  | .choices rest => rest.foldlM (fun condition (yes, no) => choice condition yes no) start

/-- A formula and operations on it, as one formula. There are no formulas with choices. -/
def Formula.chained (start : Formula) (rest : List (String × Formula)) : Except Fault Formula :=
  buildTree .binary (fun _ _ _ => .error .inapplicable) start (.operations rest)

namespace Formula

/-- An operator with any blanks around it, then its right operand. The result has the symbol of the
operation that is meant. -/
def operation (symbol meant : String) (operand : Parser Formula) : Parser (String × Formula) := do
  blanks
  let _ ← lit symbol
  blanks
  let right ← operand
  return (meant, right)

/-- `^` follows its left operand at once. -/
def powTail (value : Parser Formula) : Parser (String × Formula) := do
  let _ ← lit "^"
  blanks
  let right ← value
  return ("^", right)

def multiplyTail (pow : Parser Formula) : Parser (String × Formula) :=
  operation "*" "*" pow

def divideTail (pow : Parser Formula) : Parser (String × Formula) :=
  operation "/" "/" pow

def moduloTail (pow : Parser Formula) : Parser (String × Formula) :=
  operation "%" "%" pow

def productTail (pow : Parser Formula) : Parser (String × Formula) :=
  multiplyTail pow <|> divideTail pow <|> moduloTail pow

def plusTail (product : Parser Formula) : Parser (String × Formula) :=
  operation "+" "+" product

def minusTail (product : Parser Formula) : Parser (String × Formula) :=
  operation "-" "-" product

def sumTail (product : Parser Formula) : Parser (String × Formula) :=
  plusTail product <|> minusTail product

def leTail (sum : Parser Formula) : Parser (String × Formula) :=
  operation "<=" "<=" sum

def ltTail (sum : Parser Formula) : Parser (String × Formula) :=
  operation "<" "<" sum

def geTail (sum : Parser Formula) : Parser (String × Formula) :=
  operation ">=" ">=" sum

def gtTail (sum : Parser Formula) : Parser (String × Formula) :=
  operation ">" ">" sum

def orderTail (sum : Parser Formula) : Parser (String × Formula) :=
  leTail sum <|> ltTail sum <|> geTail sum <|> gtTail sum

def andTail (order : Parser Formula) : Parser (String × Formula) :=
  operation "&&" "&&" order

def orTail (order : Parser Formula) : Parser (String × Formula) :=
  operation "||" "||" order

/-- `!` stands between two operands like the other operators of its rank. -/
def notTail (order : Parser Formula) : Parser (String × Formula) :=
  operation "!" "!" order

def logicTail (order : Parser Formula) : Parser (String × Formula) :=
  andTail order <|> orTail order <|> notTail order

def eqTail (logic : Parser Formula) : Parser (String × Formula) :=
  operation "==" "==" logic

/-- `!=` is accepted and means the same operation as `==`. -/
def neTail (logic : Parser Formula) : Parser (String × Formula) :=
  operation "!=" "==" logic

def equalityTail (logic : Parser Formula) : Parser (String × Formula) :=
  eqTail logic <|> neTail logic

/-- An operand and any number of operations of one rank. -/
def ranked (operand : Parser Formula) (tail : Parser Formula → Parser (String × Formula)) :
    Parser Formula := do
  let left ← operand
  let rest ← many (tail operand)
  ofExcept (left.chained rest)

def powOf (value : Parser Formula) : Parser Formula :=
  ranked value powTail

def productOf (value : Parser Formula) : Parser Formula :=
  ranked (powOf value) productTail

def sumOf (value : Parser Formula) : Parser Formula :=
  ranked (productOf value) sumTail

def orderOf (value : Parser Formula) : Parser Formula :=
  ranked (sumOf value) orderTail

def logicOf (value : Parser Formula) : Parser Formula :=
  ranked (orderOf value) logicTail

def equalityOf (value : Parser Formula) : Parser Formula :=
  ranked (logicOf value) equalityTail

/-- `size(name)`. -/
def sizeCall : Parser Formula := do
  let _ ← lit "size("
  let name ← shortLabel
  let _ ← lit ")"
  return .sizeOf name

/-- `name.inner`. -/
def memberAccess : Parser Formula := do
  let name ← shortLabel
  let _ ← lit "."
  let inner ← shortLabel
  return .member name inner

/-- A formula in parentheses. -/
def group (formula : Parser Formula) : Parser Formula := do
  let _ ← lit "("
  blanks
  let f ← formula
  blanks
  let _ ← lit ")"
  return f

/-- An operand with at most `depth` levels of parentheses. -/
def valueWithin : Nat → Parser Formula
  | 0 => never
  | depth + 1 =>
    Formula.number <$> Description.number
      <|> group (equalityOf (valueWithin depth))
      <|> sizeCall
      <|> memberAccess
      <|> Formula.field <$> shortLabel

/-- Reads with as many levels of parentheses as the text has characters. -/
def unbounded {α : Type} (p : Parser Formula → Parser α) : Parser α :=
  fun s => p (valueWithin (s.length + 1)) s

/-- An operand. -/
def value : Parser Formula :=
  unbounded id

/-- A formula; equality binds weakest. -/
def formula : Parser Formula :=
  unbounded equalityOf

end Formula

end PacketDraft.Description
