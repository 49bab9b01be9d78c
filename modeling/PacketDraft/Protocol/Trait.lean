import PacketDraft.Protocol.Basic

/-!
# Built-in traits

In their methods `T` stands for the type that implements the trait and `ET` for the type of the
elements of a collection.
-/

namespace PacketDraft.Protocol

namespace Trait

/-- The type that implements the trait. -/
def selfType : TypeRef :=
  .var "T"

/-- The type of the elements. -/
def elementType : TypeRef :=
  .var "ET"

/-- A method of `T`. -/
def method (name : String) (parameters : List Parameter) (result : TypeRef) : Signature :=
  ⟨name, ⟨"self", selfType⟩ :: parameters, result⟩

/-- A method of `T` with another `T`. -/
def binary (result : TypeRef) (name : String) : Signature :=
  method name [⟨"other", selfType⟩] result

def value : Trait :=
  ⟨"Value", [method "get" [] selfType, method "set" [⟨"value", selfType⟩] .nothing]⟩

def sized : Trait :=
  ⟨"Sized", [method "size" [] .number]⟩

def indexCollection : Trait :=
  ⟨"IndexCollection",
    [method "get" [⟨"index", .number⟩] elementType,
     method "set" [⟨"index", .number⟩, ⟨"value", elementType⟩] .nothing,
     method "length" [] .number]⟩

def equality : Trait :=
  ⟨"Equality", ["eq", "ne"].map (binary .boolean)⟩

def ordinal : Trait :=
  ⟨"Ordinal", ["lt", "le", "gt", "ge"].map (binary .boolean)⟩

def booleanOps : Trait :=
  ⟨"BooleanOps", ["and", "or"].map (binary .boolean) ++ [method "not" [] .boolean]⟩

def arithmeticOps : Trait :=
  ⟨"ArithmeticOps",
    ["plus", "minus", "multiply", "divide", "modulo", "pow"].map (binary selfType)⟩

def numberRepresentable : Trait :=
  ⟨"NumberRepresentable", [method "to_number" [] .number]⟩

/-- The traits that are known by name. -/
def builtIn : List Trait :=
  [value, sized, indexCollection, equality, ordinal, booleanOps, arithmeticOps,
   numberRepresentable]

end Trait

end PacketDraft.Protocol
