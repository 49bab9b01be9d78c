/-!
# Faults

Everything that can go wrong, as causes. Faults of typing carry the names they are about and have a
wording; of the other ones only the kind can be seen.
-/

namespace PacketDraft

/-- Why a type, a field or an expression is refused. Types are given as they are shown in messages. -/
inductive TypeFault where
  | unnamedType
  | malformedType (name : String)
  | malformedField (name : String)
  | malformedMethod (name : String)
  | methodArguments (name : String)
  | methodResultOpen (name : String)
  | functionArguments (name : String)
  | functionResultOpen (name : String)
  | parameterOpen (name : String)
  | noFieldsIn (shown : String)
  | conditionNotBoolean
  | branchesDiffer
  | selfOutsideType
  | traitTwice (shown trait : String)
  | methodTwice (shown method : String)
  | noMethod (shown method : String)
  | primitiveTrait (trait : String)
  | structFieldTwice (owner field : String)
  | contextFieldTwice (owner field : String)
  | noField (owner field : String)
  | notConstraint (shown : String)
  | notAction (shown : String)
  | protocolNamed
  | typeTwice (name : String)
  | severalOpenFields (name : String)
  deriving DecidableEq, Repr

/-- The wording of a typing fault. -/
def TypeFault.message : TypeFault → String
  | .unnamedType => "Cannot create type: types must be named"
  | .malformedType name => s!"Cannot create type {name}: malformed name"
  | .malformedField name => s!"Cannot create field {name}: malformed name"
  | .malformedMethod name => s!"Method {name}: invalid name"
  | .methodArguments name => s!"Method {name}: invalid arguments"
  | .methodResultOpen name => s!"Method {name}: unresolved type variable as return type"
  | .functionArguments name => s!"Function {name}: invalid arguments"
  | .functionResultOpen name => s!"Function {name}: unresolved type variable as return type"
  | .parameterOpen name =>
    s!"Cannot evaluate signature of Function {name}: unresolved type variables"
  | .noFieldsIn shown => s!"Cannot access fields in object of type {shown}"
  | .conditionNotBoolean => "Cannot create IfElseExpression: condition is not boolean"
  | .branchesDiffer => "Cannot create IfElseExpression: branch types differ"
  | .selfOutsideType => "Cannot evaluate Self expression result type without a containing type"
  | .traitTwice shown trait => s!"Type {shown} already implements trait {trait}"
  | .methodTwice shown method => s!"Type {shown} already implements a method {method}"
  | .noMethod shown method => s!"{shown} and its parents do not implement the {method} method"
  | .primitiveTrait trait => s!"Cannot implement trait {trait} on a primitive type"
  | .structFieldTwice owner field => s!"{owner} already contains a field named {field}"
  | .contextFieldTwice owner field => s!"{owner} already has a field named {field}"
  | .noField owner field => s!"{owner} has no field named {field}"
  | .notConstraint shown => s!"Invalid constraint: {shown} != Boolean"
  | .notAction shown => s!"Invalid action: {shown} != Nothing"
  | .protocolNamed => "Cannot redefine protocol name"
  | .typeTwice name => s!"Cannot create type {name}: already exists"
  | .severalOpenFields name =>
    s!"Cannot define struct type ({name}) with multiple fields of undefined length"

/-- What can go wrong anywhere. -/
inductive Fault where
  /-- A text does not have the form that the grammar asks for. -/
  | unmatched
  /-- A type, field or expression is refused. -/
  | typing (cause : TypeFault)
  /-- A description uses a type that nothing describes. -/
  | unknownType (name : String)
  /-- A condition that the caller has to meet is not met. -/
  | requirement
  /-- The operation is not defined for this kind of thing. -/
  | inapplicable
  /-- An element beyond the end of a list or text is asked for. -/
  | outOfRange
  /-- A table has no entry under the name that is looked up. -/
  | notFound
  /-- An index entry names no format that can be read. -/
  | noFormat (name : String)
  /-- A field title asks for its size and gives none. -/
  | missingSize
  /-- A value has the wrong kind for the operation. -/
  | wrongKind
  /-- A part that the whole cannot do without never came. -/
  | missingPart
  /-- A value has the right kind and does not make sense. -/
  | badValue
  /-- The bytes are not UTF-8. -/
  | badEncoding
  | noSuchFile
  | isDirectory
  /-- A path leads through a file as if it were a directory. -/
  | notDirectory
  /-- No file can have a name of that length. -/
  | nameTooLong
  /-- The markup is not well formed. -/
  | malformedMarkup
  /-- A type is part of itself. -/
  | endless
  /-- The command line asks to stop with this exit code. -/
  | stop (code : Nat)
  deriving DecidableEq, Repr

/-- The wording of a fault, for the kinds that have one. -/
def Fault.message? : Fault → Option String
  | .typing cause => some cause.message
  | .unknownType name => some s!"Unknown type: {name}"
  | .noFormat name => some s!"no known format for {name}"
  | .stop code => some (toString code)
  | _ => none

end PacketDraft
