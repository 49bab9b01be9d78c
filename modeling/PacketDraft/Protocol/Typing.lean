import PacketDraft.Protocol.Name
import PacketDraft.Protocol.Query

/-!
# Types of expressions

The type of an expression depends on the type of the object that it is about.
-/

namespace PacketDraft.Protocol

namespace Store

/-- A result type in which nothing is left open. -/
def closedResult (open_ : TypeFault) : TypeRef → Except Fault TypeRef
  | .var _ => .error (.typing open_)
  | t => .ok t

mutual

/-- The type of an expression about an object of type `within`. -/
def resultType (s : Store) (within : TypeRef) : Expr → Except Fault TypeRef
  | .const type _ => .ok type
  | .self =>
    match within with
    | .absent => .error (.typing .selfOutsideType)
    | t => .ok t
  | .field target name => do
    let t ← resultType s within target
    if s.isStruct t then s.fieldType t name
    else throw (.typing (.noFieldsIn (s.shown t)))
  | .ctx name context => s.fieldType context name
  | .ifelse condition whenTrue whenFalse => do
    let c ← resultType s within condition
    if !s.same c .boolean then throw (.typing .conditionNotBoolean)
    let t ← resultType s within whenTrue
    let f ← resultType s within whenFalse
    if s.same t f then return t else throw (.typing .branchesDiffer)
  | .arg _ value => resultType s within value
  | .method target name args => do
    let argTypes ← argumentTypes s within args
    let t ← resultType s within target
    let m ← s.getMethod t name
    if ← s.methodAccepts m t argTypes then closedResult (.methodResultOpen name) m.result
    else throw (.typing (.methodArguments name))
  | .func function args =>
    match s.signature? function with
    | none => .error .inapplicable
    | some f => do
      let argTypes ← argumentTypes s within args
      if ← s.accepts f.name f.parameters argTypes then
        closedResult (.functionResultOpen f.name) f.result
      else throw (.typing (.functionArguments f.name))

/-- The types of arguments, with their names. -/
def argumentTypes (s : Store) (within : TypeRef) :
    List (String × Expr) → Except Fault (List (String × TypeRef))
  | [] => .ok []
  | (name, value) :: args => do
    let t ← resultType s within value
    let rest ← argumentTypes s within args
    return (name, t) :: rest

end

end Store

/-- A method invocation; the name of the method has to be valid. -/
def Expr.invoke (target : Expr) (name : String) (args : List (String × Expr)) :
    Except Fault Expr :=
  if isMemberName name then .ok (.method target name args)
  else .error (.typing (.malformedMethod name))

end PacketDraft.Protocol
