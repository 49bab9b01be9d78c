import PacketDraft.Attempt
import PacketDraft.Protocol.Basic

/-!
# Changes of the store

Types are added at the end of the store, so that the number of a type never changes.
-/

namespace PacketDraft.Protocol

/-- A computation that may change the store and may fail. -/
abbrev Change (α : Type) : Type :=
  Attempt Store α

namespace Store

/-- Changes one type. -/
def modifyEntry (s : Store) (t : TypeRef) (f : Entry → Entry) : Store :=
  match t with
  | .id n => { s with entries := s.entries.modify n f }
  | _ => s

/-- Changes the members of one type, and with them those of all types that share them. -/
def modifyMembers (s : Store) (t : TypeRef) (f : Members → Members) : Store :=
  match s.entryOf t with
  | some e => { s with groups := s.groups.modify e.group f }
  | none => s

/-- A new type, with no members yet. -/
def push (s : Store) (form : Form) (name : String) (size : Option Expr) : Store :=
  { s with
    entries := s.entries ++ [{ form, name := some name, size, group := s.groups.length }]
    groups := s.groups ++ [{}] }

/-- A new type that shares the members of another. -/
def pushSharing (s : Store) (e : Entry) : Store :=
  { s with entries := s.entries ++ [e] }

end Store

end PacketDraft.Protocol
