import PacketDraft.Description.Formula
import PacketDraft.Proofs.Description.Lexeme

/-!
# Writing formulas

A formula is written without blanks, with the parentheses that the ranks of its operators ask for
and any number of further pairs around each of its parts. `Spelling` says the same rank by rank, as
the texts that can stand where an operand of some height is expected.
-/

namespace PacketDraft.Description

/-- How far above a single operand an operation stands. Equality binds weakest. -/
def Operator.height : Operator → Nat
  | .pow => 0
  | .multiply | .divide | .modulo => 1
  | .plus | .minus => 2
  | .le | .lt | .ge | .gt => 3
  | .and | .or | .not => 4
  | .eq | .ne => 5

/-- The height of a whole formula. -/
def wholeHeight : Nat := 6

theorem Operator.height_lt (op : Operator) : op.height < wholeHeight := by
  cases op <;> decide

namespace Formula

/-- The formulas that can be written and read back: names are labels, a value is not named like a
number, and `!=`, which stands for equality, is not used. -/
def isWritable : Formula → Bool
  | .number _ => true
  | .field name => isLabel name && !startsWithDigit name
  | .sizeOf name => isLabel name
  | .member name inner => isLabel name && !startsWithDigit name && isLabel inner
  | .binary op left right => op != .ne && left.isWritable && right.isWritable

/-- The operands of an operation. A part of a formula is found by going to them from the whole. -/
inductive Side where
  | left
  | right
  deriving DecidableEq, Repr

/-- A text in pairs of parentheses. -/
def enclosed (pairs : Nat) (text : List Char) : List Char :=
  List.replicate pairs '(' ++ text ++ List.replicate pairs ')'

/-- A formula written where operations below a height can stand. Other operations need parentheses;
`extra` tells for each part how many pairs stand around it besides. Operators associate to the left,
so an operation of the same rank is written bare on the left and enclosed on the right. -/
def written (extra : List Side → Nat) (height : Nat) : Formula → List Char
  | .number n => enclosed (extra []) (Nat.toDigits 10 n)
  | .field name => enclosed (extra []) name.toList
  | .sizeOf name => enclosed (extra []) ("size(".toList ++ name.toList ++ [')'])
  | .member name inner => enclosed (extra []) (name.toList ++ '.' :: inner.toList)
  | .binary op left right =>
    enclosed (extra [] + if op.height < height then 0 else 1)
      (left.written (fun part => extra (.left :: part)) (op.height + 1) ++ op.symbol.toList
        ++ right.written (fun part => extra (.right :: part)) op.height)

/-- The texts that stand for a formula where an operand of a height is expected. -/
inductive Spelling : Nat → Formula → List Char → Prop
  | number (n : Nat) : Spelling 0 (.number n) (Nat.toDigits 10 n)
  | field {name : String} (label : isLabel name) (noDigit : startsWithDigit name = false) :
      Spelling 0 (.field name) name.toList
  | sizeOf {name : String} (label : isLabel name) :
      Spelling 0 (.sizeOf name) ("size(".toList ++ name.toList ++ [')'])
  | member {name inner : String} (label : isLabel name) (noDigit : startsWithDigit name = false)
      (innerLabel : isLabel inner) :
      Spelling 0 (.member name inner) (name.toList ++ '.' :: inner.toList)
  | group {f : Formula} {text : List Char} :
      Spelling wholeHeight f text → Spelling 0 f ('(' :: (text ++ [')']))
  | lift {height : Nat} {f : Formula} {text : List Char} :
      Spelling height f text → Spelling (height + 1) f text
  | binary {op : Operator} {f g : Formula} {left right : List Char} (notNe : op ≠ .ne) :
      Spelling (op.height + 1) f left → Spelling op.height g right →
      Spelling (op.height + 1) (.binary op f g) (left ++ (op.symbol.toList ++ right))

namespace Spelling

variable {f : Formula} {text : List Char}

/-- A text that can stand as an operand can stand as one of any greater height. -/
theorem mono {low high : Nat} (spelling : Spelling low f text) (le : low ≤ high) :
    Spelling high f text := by
  induction le with
  | refl => exact spelling
  | step _ ih => exact ih.lift

/-- Pairs of parentheses around a formula keep it a single operand. -/
theorem enclosed_succ (spelling : Spelling wholeHeight f text) (pairs : Nat) :
    Spelling 0 f (enclosed (pairs + 1) text) := by
  induction pairs with
  | zero => exact spelling.group
  | succ pairs ih =>
    have outer := (ih.mono (Nat.zero_le wholeHeight)).group
    have shape : '(' :: (enclosed (pairs + 1) text ++ [')']) = enclosed (pairs + 1 + 1) text := by
      unfold enclosed
      rw [List.replicate_succ (n := pairs + 1), List.replicate_succ' (n := pairs + 1)]
      simp only [List.cons_append, List.append_assoc]
    rwa [shape] at outer

/-- Further pairs of parentheses around a text do not change what it stands for. -/
theorem enclose {height : Nat} (spelling : Spelling height f text) (le : height ≤ wholeHeight)
    (pairs : Nat) : Spelling height f (enclosed pairs text) := by
  cases pairs with
  | zero =>
    have bare : enclosed 0 text = text := by simp [enclosed]
    rwa [bare]
  | succ pairs => exact ((spelling.mono le).enclosed_succ pairs).mono (Nat.zero_le height)

/-- The pair of parentheses that an operation needs makes it a single operand. -/
theorem enclose_needed {height low : Nat} (spelling : Spelling (low + 1) f text)
    (lowLt : low < wholeHeight) (le : height ≤ wholeHeight) (pairs : Nat) :
    Spelling height f (enclosed (pairs + if low < height then 0 else 1) text) := by
  by_cases fits : low < height
  · rw [if_pos fits]
    exact (spelling.mono fits).enclose le pairs
  · rw [if_neg fits]
    exact ((spelling.mono lowLt).enclosed_succ pairs).mono (Nat.zero_le height)

end Spelling

/-- What is written for a formula is a spelling of it. -/
theorem spelling_written (f : Formula) (writable : f.isWritable) (extra : List Side → Nat)
    {height : Nat} (le : height ≤ wholeHeight) : Spelling height f (f.written extra height) := by
  induction f generalizing extra height with
  | number n => exact ((Spelling.number n).enclose (Nat.zero_le _) _).mono (Nat.zero_le height)
  | field name =>
    simp only [isWritable, Bool.and_eq_true, Bool.not_eq_true'] at writable
    exact ((Spelling.field writable.1 writable.2).enclose (Nat.zero_le _) _).mono
      (Nat.zero_le height)
  | sizeOf name =>
    exact ((Spelling.sizeOf writable).enclose (Nat.zero_le _) _).mono (Nat.zero_le height)
  | member name inner =>
    simp only [isWritable, Bool.and_eq_true, Bool.not_eq_true'] at writable
    obtain ⟨⟨label, noDigit⟩, innerLabel⟩ := writable
    exact ((Spelling.member label noDigit innerLabel).enclose (Nat.zero_le _) _).mono
      (Nat.zero_le height)
  | binary op left right ihLeft ihRight =>
    simp only [isWritable, Bool.and_eq_true, bne_iff_ne, ne_eq] at writable
    obtain ⟨⟨notNe, writableLeft⟩, writableRight⟩ := writable
    have lt := op.height_lt
    have whole := Spelling.binary notNe
      (ihLeft writableLeft (fun part => extra (.left :: part)) lt)
      (ihRight writableRight (fun part => extra (.right :: part)) (Nat.le_of_lt lt))
    unfold written
    rw [List.append_assoc]
    exact whole.enclose_needed lt le _

end Formula

end PacketDraft.Description
