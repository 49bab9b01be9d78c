import PacketDraft.Protocol.Basic

/-!
# Dependency order

The names of types in an order in which every type comes after the types that it is made of.
-/

namespace PacketDraft.Protocol

namespace Store

/-- Names with the first occurrence of each kept. -/
def firstOccurrences (names : List String) : List String :=
  names.foldl (fun seen name => if seen.contains name then seen else seen ++ [name]) []

/-- The name of a type that is made by a description, unless it is in a list already. -/
def unseen (s : Store) (seen : List String) (t : TypeRef) : Bool :=
  match s.entryOf t with
  | some e => !e.form.isPrimitive && !seen.contains e.shownName
  | none => false

/-- A list of names followed by those of the types that a type is made of and its own. `depth` bounds
how deep types nest. Types in the signature of a function that are in the list already are left
out. -/
def namesWithin (s : Store) : Nat → List String → TypeRef → List String
  | 0, seen, _ => seen
  | depth + 1, seen, t =>
    match s.entryOf t with
    | none => seen
    | some e =>
      let visit := fun names u => namesWithin s depth names u
      let visitUnseen := fun names u => if s.unseen names u then visit names u else names
      match e.form with
      | .bitString => seen ++ [e.shownName]
      | .struct => ((s.members e).fields.map (·.type)).foldl visit seen ++ [e.shownName]
      | .array element _ => visit seen element ++ [e.shownName]
      | .enum variants => variants.foldl visit seen ++ [e.shownName]
      | .function parameters result =>
        (parameters.map (·.type) ++ [result]).foldl visitUnseen seen ++ [e.shownName]
      | .context => ((s.members e).slots.map (·.2)).foldl visit seen ++ [e.shownName]
      | _ => seen

/-- A list of names followed by those of the types that a type is made of and its own. -/
def namesFrom (s : Store) (seen : List String) (t : TypeRef) : List String :=
  s.namesWithin (s.entries.length + 1) seen t

/-- The names of the packets, the context and all types that they are made of, each once. -/
def dependencyOrder (s : Store) : List String :=
  let packets := s.pdus.filterMap (s.types.lookup ·)
  firstOccurrences ((packets ++ [TypeRef.context]).foldl s.namesFrom [])

end Store

end PacketDraft.Protocol
