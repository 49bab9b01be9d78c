import PacketDraft.Description.Formula

/-!
# Field titles

A field is described under a title that gives its label and, in one of several forms, its size, the
options it takes, a constraint on its value and the condition under which it is present.
-/

namespace PacketDraft.Description

open Grammar Grammar.Parser

/-- What a field title tells about a field. -/
structure FieldTitle where
  /-- The label as a field name. -/
  fullLabel : String
  /-- The abbreviation as a field name. -/
  shortLabel : Option String := none
  options : Option (List String) := none
  size : Option Formula := none
  /-- The unit of the size: a number of bits or bytes, or a type named by a phrase. -/
  units : Option String := none
  constraint : Option Formula := none
  presence : Option Formula := none
  isArray : Bool := false
  deriving DecidableEq, Repr

namespace FieldTitle

/-- A title that consists of its labels. -/
def ofLabels (labels : String × Option String) : FieldTitle where
  fullLabel := fieldName labels.1
  shortLabel := labels.2.map fieldName

/-- A label and, in parentheses, its abbreviation. -/
def labels : Parser (String × Option String) := do
  blanks
  let full ← label
  let short ← maybe (do
    let _ ← lit "("
    let short ← Description.shortLabel
    let _ ← lit ")"
    return short)
  return (full, short)

/-- Bits and bytes, else the name of a type. -/
def unit : Parser String :=
  lit "bits" <|> lit "bytes" <|> lit "bit" <|> lit "byte" <|> phrase

/-- Options in parentheses after any blanks. -/
def optionGroup : Parser (Option (List String)) := do
  blanks
  maybe (do
    let _ ← lit "("
    let options ← optionList
    let _ ← lit ")"
    return options)

/-- The condition for a field to be present. -/
def presenceClause : Parser (Option Formula) :=
  maybe (do
    let _ ← lit "; present only when "
    Formula.formula)

/-- `Label (L).` -/
def nameOnly : Parser FieldTitle := do
  let ls ← labels
  let _ ← lit "."
  return ofLabels ls

/-- `Label (L): variable length.` -/
def variableLength : Parser FieldTitle := do
  let ls ← labels
  let _ ← lit ": variable length"
  let _ ← lit "."
  return ofLabels ls

/-- `Label (L): size unit (options); present only when condition.` -/
def sized : Parser FieldTitle := do
  let ls ← labels
  let _ ← lit ": "
  let size ← Formula.formula
  let _ ← lit " "
  let units ← unit
  let options ← optionGroup
  let presence ← presenceClause
  let _ ← lit "."
  return { ofLabels ls with options, size := some size, units := some units, presence }

/-- `Label (L): size unit (options); constraint; present only when condition.` The form may be used
without a size, and is then a fault. -/
def sizedConstrained : Parser FieldTitle := do
  let ls ← labels
  let _ ← lit ": "
  let size? ← maybe Formula.formula
  let _ ← lit " "
  let units ← unit
  let options ← optionGroup
  let _ ← lit "; "
  let constraint ← Formula.formula
  let presence ← presenceClause
  let _ ← lit "."
  match size? with
  | none => abort .missingSize
  | some size =>
    return { ofLabels ls with
      options, size := some size, units := some units, constraint := some constraint, presence }

/-- `Label (L): constraint (options).`, and behind the full stop the condition for presence. -/
def constrained : Parser FieldTitle := do
  let ls ← labels
  let _ ← lit ": "
  let constraint ← Formula.formula
  let options ← optionGroup
  let _ ← lit "."
  let presence ← presenceClause
  return { ofLabels ls with options, constraint := some constraint, presence }

/-- A type name in brackets. -/
def elementType : Parser String := do
  let _ ← lit ": ["
  let element ← phrase
  let _ ← lit "]"
  return element

/-- `Label (L): [Type].` -/
def array : Parser FieldTitle := do
  let ls ← labels
  let element ← elementType
  let _ ← lit "."
  return { ofLabels ls with units := some element, isArray := true }

/-- `Label (L): [Type]; constraint; present only when condition.` -/
def arrayConstrained : Parser FieldTitle := do
  let ls ← labels
  let element ← elementType
  let _ ← lit "; "
  let constraint ← Formula.formula
  let presence ← presenceClause
  let _ ← lit "."
  return { ofLabels ls with
    units := some element, constraint := some constraint, presence, isArray := true }

/-- A field title in the first form that fits. -/
def title : Parser FieldTitle :=
  nameOnly <|> variableLength <|> sized <|> sizedConstrained <|> constrained <|> array
    <|> arrayConstrained

end FieldTitle

end PacketDraft.Description
