import PacketDraft.Fault
import PacketDraft.Text.Blank

/-!
# Parsers

A parser reads the start of a text. It may not fit, in which case the next alternative is tried at
the same place, or it may abort with a fault, which ends the whole reading. Choice is ordered and
repetition greedy: neither is taken back once it has succeeded.
-/

namespace PacketDraft.Grammar

open Text (isBlank)

/-- What reading the start of a text gives. -/
inductive Reply (α : Type) where
  /-- A value, and the text that is left. -/
  | done (value : α) (rest : List Char)
  /-- The text does not start this way. -/
  | unfit
  /-- Reading ended with a fault. -/
  | abort (fault : Fault)
  deriving DecidableEq, Repr

/-- A way to read the start of a text. -/
def Parser (α : Type) : Type :=
  List Char → Reply α

namespace Parser

variable {α β : Type}

/-- Reads nothing. -/
@[inline] def succeed (a : α) : Parser α :=
  fun s => .done a s

/-- Reads with `p`, then goes on with what `f` gives for its value. -/
@[inline] def andThen (p : Parser α) (f : α → Parser β) : Parser β := fun s =>
  match p s with
  | .done a r => f a r
  | .unfit => .unfit
  | .abort e => .abort e

instance : Monad Parser where
  pure := succeed
  bind := andThen

/-- Reads with `q` from the same place if `p` does not fit. -/
@[inline] def orTry (p : Parser α) (q : Unit → Parser α) : Parser α := fun s =>
  match p s with
  | .unfit => q () s
  | reply => reply

/-- Fits nowhere. -/
def never : Parser α :=
  fun _ => .unfit

instance : Alternative Parser where
  failure := never
  orElse := orTry

/-- Ends the reading with a fault. -/
def abort (e : Fault) : Parser α :=
  fun _ => .abort e

/-- A computation without text; its fault ends the reading. -/
def ofExcept : Except Fault α → Parser α
  | .ok a => succeed a
  | .error e => abort e

/-- One character of a class. -/
def satisfy (p : Char → Bool) : Parser Char
  | [] => .unfit
  | c :: cs => if p c then .done c cs else .unfit

/-- Exactly these characters. -/
def lit (text : String) : Parser String := fun s =>
  match text.toList.isPrefixOf? s with
  | some rest => .done text rest
  | none => .unfit

/-- Any number of blanks, newlines among them. -/
def blanks : Parser Unit :=
  fun s => .done () (s.dropWhile isBlank)

/-- These characters after any number of blanks. -/
def token (text : String) : Parser String := do
  blanks
  lit text

/-- As many characters of a class as there are. -/
def run (p : Char → Bool) : Parser (List Char) :=
  fun s => .done (s.takeWhile p) (s.dropWhile p)

/-- As many characters of a class as there are, at least one. -/
def run1 (p : Char → Bool) : Parser (List Char) := fun s =>
  match s.takeWhile p with
  | [] => .unfit
  | c :: cs => .done (c :: cs) (s.dropWhile p)

/-- At most `n` repetitions of `p`. -/
def upTo (p : Parser α) : Nat → Parser (List α)
  | 0 => succeed []
  | n + 1 => fun s =>
    match p s with
    | .done a r =>
      match upTo p n r with
      | .done as t => .done (a :: as) t
      | .unfit => .unfit
      | .abort e => .abort e
    | .unfit => .done [] s
    | .abort e => .abort e

/-- As many repetitions of `p` as there are. Each is taken to read at least one character, so their
number is bounded by the length of the text. -/
def many (p : Parser α) : Parser (List α) :=
  fun s => upTo p (s.length + 1) s

/-- As many repetitions of `p` as there are, at least one. -/
def many1 (p : Parser α) : Parser (List α) := do
  let a ← p
  let as ← many p
  return a :: as

/-- `p` if it fits, else nothing. -/
def maybe (p : Parser α) : Parser (Option α) :=
  some <$> p <|> pure none

/-- The characters that `p` reads. -/
def matched (p : Parser α) : Parser (List Char) := fun s =>
  match p s with
  | .done _ r => .done (s.take (s.length - r.length)) r
  | .unfit => .unfit
  | .abort e => .abort e

/-- Fits, and reads nothing, where `p` does not. -/
def absent (p : Parser α) : Parser Unit := fun s =>
  match p s with
  | .done _ _ => .unfit
  | .unfit => .done () s
  | .abort e => .abort e

/-- All that is left. -/
def remainder : Parser (List Char) :=
  fun s => .done s []

/-- The value of reading a whole text. -/
def parse (p : Parser α) (text : List Char) : Except Fault α :=
  match p text with
  | .done a [] => .ok a
  | .done _ (_ :: _) => .error .unmatched
  | .unfit => .error .unmatched
  | .abort e => .error e

end Parser

end PacketDraft.Grammar
