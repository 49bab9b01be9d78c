import Mathlib.Logic.Relation
import PacketDraft.Protocol.Order

/-!
# The graph of types

A type is made of other types: a structure of the types of its fields, an array of its elements, an
enumeration of its variants, a function of its parameters and its result, a context of its fields.
The listed types are those that the dependency order names.
-/

namespace PacketDraft.Protocol

/-- The forms of types that the dependency order names. -/
def Form.isListed : Form → Bool
  | .bitString | .array _ _ | .struct | .enum _ | .function _ _ | .context => true
  | _ => false

namespace Store

/-- The types that a type is directly made of. -/
def components (s : Store) (t : TypeRef) : List TypeRef :=
  match s.entryOf t with
  | none => []
  | some e =>
    match e.form with
    | .struct => (s.members e).fields.map (·.type)
    | .array element _ => [element]
    | .enum variants => variants
    | .function parameters result => parameters.map (·.type) ++ [result]
    | .context => (s.members e).slots.map (·.2)
    | _ => []

/-- Whether a type is directly made of another one. -/
def PartOf (s : Store) (part whole : TypeRef) : Prop :=
  part ∈ s.components whole

/-- The packets and the context. -/
def roots (s : Store) : List TypeRef :=
  s.pdus.filterMap (s.types.lookup ·) ++ [TypeRef.context]

/-- The types that the packets and the context are made of, at any depth, and these themselves. -/
inductive Reachable (s : Store) : TypeRef → Prop
  | root {t : TypeRef} : t ∈ s.roots → Reachable s t
  | part {t c : TypeRef} : Reachable s t → s.PartOf c t → Reachable s c

/-- `t` is a listed type with this name. -/
def Lists (s : Store) (t : TypeRef) (name : String) : Prop :=
  ∃ e, s.entryOf t = some e ∧ e.form.isListed = true ∧ e.shownName = name

/-- No type that is needed is a part of itself, at any depth. -/
def Acyclic (s : Store) : Prop :=
  ∀ t, s.Reachable t → ¬ Relation.TransGen s.PartOf t t

/-- No two listed types that are needed share a name. -/
def Unambiguous (s : Store) : Prop :=
  ∀ t u name, s.Reachable t → s.Reachable u → s.Lists t name → s.Lists u name → t = u

variable {s : Store} {t u : TypeRef} {name other : String}

/-- Only numbers refer to types of the store. -/
theorem entryOf_eq_some {e : Entry} (entry : s.entryOf t = some e) :
    ∃ n, t = .id n ∧ n < s.entries.length := by
  cases t with
  | absent => cases entry
  | var name => cases entry
  | id n => exact ⟨n, rfl, (List.getElem?_eq_some_iff.mp entry).1⟩

theorem Lists.name_unique (first : s.Lists t name) (second : s.Lists t other) : name = other := by
  obtain ⟨e, entry, -, rfl⟩ := first
  obtain ⟨e', entry', -, rfl⟩ := second
  rw [entry] at entry'
  cases entry'
  rfl

/-- Only listed types are made of others. -/
theorem exists_lists_of_partOf (part : s.PartOf u t) : ∃ name, s.Lists t name := by
  unfold PartOf components at part
  cases entry : s.entryOf t with
  | none => simp [entry] at part
  | some e =>
    refine ⟨e.shownName, e, entry, ?_, rfl⟩
    cases form : e.form <;> simp_all [Form.isListed]

theorem Reachable.of_transGen (reachable : s.Reachable t)
    (path : Relation.TransGen s.PartOf u t) : s.Reachable u := by
  induction path using Relation.TransGen.head_induction_on with
  | single part => exact reachable.part part
  | head part _ ih => exact ih.part part

/-- Types are not part of themselves if they can be numbered so that parts have smaller numbers. -/
theorem acyclic_of_rank (rank : TypeRef → Nat)
    (smaller : ∀ t c, s.Reachable t → s.PartOf c t → rank c < rank t) : s.Acyclic := by
  have below : ∀ {t u}, s.Reachable t → Relation.TransGen s.PartOf u t → rank u < rank t := by
    intro t u reachable path
    induction path using Relation.TransGen.head_induction_on with
    | single part => exact smaller t _ reachable part
    | head part path ih =>
      exact Nat.lt_trans (smaller _ _ (reachable.of_transGen path) part) ih
  intro t reachable cycle
  exact Nat.lt_irrefl _ (below reachable cycle)

end Store

end PacketDraft.Protocol
