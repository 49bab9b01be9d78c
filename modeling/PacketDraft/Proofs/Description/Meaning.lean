import PacketDraft.Proofs.Description.SectionOrder

/-!
# What formulas stand for

Where no described type is called `Number`, the expression that a formula stands for depends on the
tables alone, and not on the types that were built before it. Nothing that it looks up depends on
the constraints of fields, which are the only declarations that are taken back while types are
built.
-/

namespace PacketDraft.Description

open Protocol

/-- A field as described, without its constraint. -/
def FieldRow.bare (f : FieldRow) : FieldRow :=
  { f with title := { f.title with constraint := none } }

/-- A structure as described, without the constraints of its fields. -/
def StructRow.bare (row : StructRow) : StructRow :=
  { row with fields := row.fields.map fun p => (p.1, p.2.bare) }

/-- The size in bits, given a size in the unit of a field. -/
def inBits (unit : Option String) : Option Expr → Option Expr
  | some (.const t (.int n)) =>
    some (if isByteUnit unit then .const .number (.int (n * 8)) else .const t (.int n))
  | some e =>
    some (if isByteUnit unit then .method e "multiply" [("other", .const .number (.int 8))] else e)
  | none => none

namespace Tables

/-- The expression that a formula in the description of a structure stands for. -/
def meaning (t : Tables) (struct : String) : Formula → Except Fault Expr
  | .number n => .ok (.const .number (.int n))
  | .field label => do
    let name ← t.resolveLabel struct label
    return .method (.field .self name) "to_number" []
  | .sizeOf label => do
    let name ← t.resolveLabel struct label
    return .method (.field .self name) "size" []
  | .member label inner => do
    let name ← t.resolveLabel struct label
    let innerStruct ← t.structOfField struct label name
    let innerName ← t.resolveLabel innerStruct inner
    return .method (.field (.field .self name) innerName) "to_number" []
  | .binary op left right => do
    let left ← t.meaning struct left
    let right ← t.meaning struct right
    return .method left op.method [("other", right)]

/-- The expression of a formula that may be missing. -/
def meaning? (t : Tables) (struct : String) : Option Formula → Except Fault (Option Expr)
  | none => .ok none
  | some f => do
    let e ← t.meaning struct f
    return some e

/-- Tables with the same structures, but for the constraints of their fields. -/
def Alike (t u : Tables) : Prop :=
  ∀ name, (t.structs.lookup name).map StructRow.bare = (u.structs.lookup name).map StructRow.bare

variable {t u : Tables}

theorem bare_withoutConstraint (label : String) (row : StructRow) :
    (withoutConstraint label row).bare = row.bare := by
  simp only [withoutConstraint, StructRow.bare, List.map_map, StructRow.mk.injEq, true_and]
  refine List.map_congr_left fun p _ => ?_
  by_cases own : p.1 = label <;> simp [own, FieldRow.bare]

theorem alike_dropConstraint (alike : t.Alike u) (struct label : String) :
    (t.dropConstraint struct label).Alike u := by
  intro name
  rw [← alike name, lookup_dropConstraint, Option.map_map]
  refine congrArg (Option.map · _) (funext fun row => ?_)
  by_cases own : name = struct <;> simp [own, bare_withoutConstraint]

namespace Alike

theorem refl (t : Tables) : t.Alike t :=
  fun _ => rfl

theorem trans {v : Tables} (first : t.Alike u) (second : u.Alike v) : t.Alike v :=
  fun name => (first name).trans (second name)

theorem cases (alike : t.Alike u) (name : String) :
    t.structs.lookup name = none ∧ u.structs.lookup name = none ∨
      ∃ row row', t.structs.lookup name = some row ∧ u.structs.lookup name = some row' ∧
        row.bare = row'.bare := by
  have same := alike name
  cases left : t.structs.lookup name with
  | none =>
    rw [left, Option.map_none, eq_comm, Option.map_eq_none_iff] at same
    exact .inl ⟨rfl, same⟩
  | some row =>
    rw [left, Option.map_some, eq_comm] at same
    obtain ⟨row', right, bare⟩ := Option.map_eq_some_iff.mp same
    exact .inr ⟨row, row', rfl, right, bare.symm⟩

theorem resolveLabel (alike : t.Alike u) (struct label : String) :
    t.resolveLabel struct label = u.resolveLabel struct label := by
  unfold Tables.resolveLabel Tables.getStruct
  obtain ⟨left, right⟩ | ⟨row, row', left, right, same⟩ := alike.cases struct
  · rw [left, right]
  · have aliases : row.bare.aliases = row'.bare.aliases := congrArg StructRow.aliases same
    have aliases : row.aliases = row'.aliases := aliases
    rw [left, right]
    show (if label = "this" then _ else Except.ok ((row.aliases.lookup _).getD _)) = _
    rw [aliases]
    rfl

theorem structOfField (alike : t.Alike u) (struct label name : String) :
    t.structOfField struct label name = u.structOfField struct label name := by
  unfold Tables.structOfField Tables.getStruct
  obtain ⟨left, right⟩ | ⟨row, row', left, right, same⟩ := alike.cases struct
  · rw [left, right]
  · have fields : (row.fields.lookup (fieldName name)).map FieldRow.bare
        = (row'.fields.lookup (fieldName name)).map FieldRow.bare := by
      rw [← Store.lookup_map_snd, ← Store.lookup_map_snd]
      exact congrArg (fun row : StructRow => row.fields.lookup (fieldName name)) same
    rw [left, right]
    cases known : row.fields.lookup (fieldName name) with
    | none =>
      rw [known] at fields
      simp [known, Option.map_eq_none_iff.mp fields.symm, bind, Except.bind]
    | some f =>
      rw [known] at fields
      obtain ⟨f', known', bare⟩ := Option.map_eq_some_iff.mp fields.symm
      have units : f.title.units = f'.title.units :=
        (congrArg (fun f : FieldRow => f.title.units) bare).symm
      simp [known, known', units, bind, Except.bind]

/-- Formulas mean the same, whatever constraints have been taken back. -/
theorem meaning (alike : t.Alike u) (struct : String) (e : Formula) :
    t.meaning struct e = u.meaning struct e := by
  induction e with
  | number n => rfl
  | field label => rw [Tables.meaning, Tables.meaning, alike.resolveLabel]
  | sizeOf label => rw [Tables.meaning, Tables.meaning, alike.resolveLabel]
  | member label inner => simp only [Tables.meaning, alike.resolveLabel, alike.structOfField]
  | binary op left right first second => rw [Tables.meaning, Tables.meaning, first, second]

end Alike

end Tables

end PacketDraft.Description
