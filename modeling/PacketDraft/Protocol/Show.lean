import PacketDraft.Protocol.Query

/-!
# Showing expressions

An expression is shown on one line with the names of all its parts.
-/

namespace PacketDraft.Protocol

open Text (quoted)

namespace Store

/-- A type within an expression: only its form can be seen. -/
def shownRef (s : Store) (t : TypeRef) : String :=
  match s.entryOf t with
  | some e => "<npt.protocol." ++ e.form.label ++ " object>"
  | none => s.shown t

/-- An argument with its value as shown. -/
def shownArg (name value : String) : String :=
  "ArgumentExpression(arg_name=" ++ quoted name ++ ", arg_value=" ++ value ++ ")"

mutual

/-- An expression on one line. -/
def shownExpr (s : Store) : Expr → String
  | .const t v =>
    "ConstantExpression(constant_type=" ++ s.shownRef t ++ ", constant_value=" ++ v.shown ++ ")"
  | .self => "SelfExpression()"
  | .field e n =>
    "FieldAccessExpression(target=" ++ shownExpr s e ++ ", field_name=" ++ quoted n ++ ")"
  | .ctx n c =>
    "ContextAccessExpression(context=" ++ s.shownRef c ++ ", field_name=" ++ quoted n ++ ")"
  | .ifelse a b c =>
    "IfElseExpression(condition=" ++ shownExpr s a ++ ", if_true=" ++ shownExpr s b
      ++ ", if_false=" ++ shownExpr s c ++ ")"
  | .arg n e => shownArg n (shownExpr s e)
  | .method e n args =>
    "MethodInvocationExpression(target=" ++ shownExpr s e ++ ", method_name=" ++ quoted n
      ++ ", arg_exprs=[" ++ ", ".intercalate (shownArgs s args) ++ "])"
  | .func f args =>
    "FunctionInvocationExpression(func=" ++ s.shownRef f
      ++ ", arg_exprs=[" ++ ", ".intercalate (shownArgs s args) ++ "])"

/-- Arguments, each on its own. -/
def shownArgs (s : Store) : List (String × Expr) → List String
  | [] => []
  | (n, e) :: args => shownArg n (shownExpr s e) :: shownArgs s args

end

end Store

end PacketDraft.Protocol
