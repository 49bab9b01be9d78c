import PacketDraft.Proofs.Protocol.Typing

/-!
# One protocol behind another

Every protocol starts with the same six types. The other types of a protocol can be put behind those
of another one, when all references to them are shifted: `Store.onto`. The fields of the two contexts
stand one after the other, and so do the packets. What is asked about the types of the protocol that
was put behind has the same answer as before, with its references shifted.
-/

namespace PacketDraft.Protocol

open List

variable {e : Entry}

/-! ## Shifted references -/

/-- The number of a type with `k` more types before it. The first six types stay where they are. -/
def shiftId (k n : Nat) : Nat :=
  if n < 6 then n else n + k

theorem shiftId_basic {k n : Nat} (basic : n < 6) : shiftId k n = n :=
  if_pos basic

theorem shiftId_own {k n : Nat} (own : 6 ≤ n) : shiftId k n = n + k :=
  if_neg (Nat.not_lt.mpr own)

def TypeRef.shift (k : Nat) : TypeRef → TypeRef
  | .absent => .absent
  | .var name => .var name
  | .id n => .id (shiftId k n)

mutual

def Expr.shift (k : Nat) : Expr → Expr
  | .const type value => .const (type.shift k) value
  | .self => .self
  | .field target name => .field (target.shift k) name
  | .ctx name context => .ctx name (context.shift k)
  | .ifelse condition whenTrue whenFalse =>
    .ifelse (condition.shift k) (whenTrue.shift k) (whenFalse.shift k)
  | .arg name value => .arg name (value.shift k)
  | .method target name args => .method (target.shift k) name (shiftArgs k args)
  | .func function args => .func (function.shift k) (shiftArgs k args)

def shiftArgs (k : Nat) : List (String × Expr) → List (String × Expr)
  | [] => []
  | (name, value) :: args => (name, value.shift k) :: shiftArgs k args

end

/-- Named types with their references shifted. -/
def shiftTypes (k : Nat) (types : List (String × TypeRef)) : List (String × TypeRef) :=
  types.map fun p => (p.1, p.2.shift k)

def Parameter.shift (k : Nat) (p : Parameter) : Parameter :=
  { p with type := p.type.shift k }

def Signature.shift (k : Nat) (m : Signature) : Signature :=
  { m with parameters := m.parameters.map (·.shift k), result := m.result.shift k }

def Form.shift (k : Nat) : Form → Form
  | .number => .number
  | .boolean => .boolean
  | .nothing => .nothing
  | .bitString => .bitString
  | .option reference => .option (reference.shift k)
  | .array element length => .array (element.shift k) (length.map (·.shift k))
  | .struct => .struct
  | .enum variants => .enum (variants.map (·.shift k))
  | .function parameters result => .function (parameters.map (·.shift k)) (result.shift k)
  | .context => .context
  | .protocol => .protocol

def Field.shift (k : Nat) (f : Field) : Field :=
  { f with type := f.type.shift k, presence := f.presence.shift k }

/-- Traits mention no types of a protocol. -/
def Members.shift (k : Nat) (ms : Members) : Members :=
  { ms with
    fields := ms.fields.map (·.shift k)
    slots := shiftTypes k ms.slots
    constraints := ms.constraints.map (·.shift k)
    actions := ms.actions.map (·.shift k) }

def Entry.shift (k : Nat) (e : Entry) : Entry where
  form := e.form.shift k
  name := e.name
  parent := e.parent.shift k
  size := e.size.map (·.shift k)
  methods := e.methods.map fun m => (m.1, m.2.shift k)
  parseFrom := e.parseFrom.map (·.shift k)
  serialiseTo := e.serialiseTo.map (·.shift k)
  group := shiftId k e.group

variable {k : Nat}

@[simp] theorem TypeRef.shift_eq_var {t : TypeRef} {name : String} :
    t.shift k = .var name ↔ t = .var name := by
  cases t <;> simp [TypeRef.shift]

theorem TypeRef.shift_boolean : TypeRef.boolean.shift k = .boolean := rfl

theorem TypeRef.shift_nothing : TypeRef.nothing.shift k = .nothing := rfl

theorem TypeRef.shift_context : TypeRef.context.shift k = .context := rfl

@[simp] theorem Form.isRepresentable_shift (form : Form) :
    (form.shift k).isRepresentable = form.isRepresentable := by
  cases form <;> rfl

@[simp] theorem Form.isPrimitive_shift (form : Form) :
    (form.shift k).isPrimitive = form.isPrimitive := by
  cases form <;> rfl

@[simp] theorem Form.shift_eq_struct {form : Form} : form.shift k = .struct ↔ form = .struct := by
  cases form <;> simp [Form.shift]

@[simp] theorem Form.shift_eq_context {form : Form} :
    form.shift k = .context ↔ form = .context := by
  cases form <;> simp [Form.shift]

theorem checkName_shift (form : Form) (name : Option String) :
    checkName (form.shift k) name = checkName form name := by
  cases name with
  | none => rfl
  | some name => cases form <;> rfl

theorem lookup_shiftTypes (types : List (String × TypeRef)) (name : String) :
    (shiftTypes k types).lookup name = (types.lookup name).map (·.shift k) :=
  Store.lookup_map_snd (TypeRef.shift k) types name

namespace Store

/-! ## Protocols that start like all protocols -/

/-- A protocol that starts like all protocols, but for the name of the protocol and for what was
added to the context. -/
structure Rooted (s : Store) : Prop where
  regular : s.Regular
  basic : ∀ n < 6, n ≠ 3 → s.entries[n]? = initial.entries[n]?
  protocol : ∃ name, s.entries[3]? = some { form := .protocol, name, group := 3 }
  types : initial.types <+: s.types
  slots : initial.contextSlots <+: s.contextSlots
  traits : ∀ ms ∈ s.groups, ∀ trait ∈ ms.traits, trait ∈ Trait.builtIn

theorem rooted_initial : Rooted initial where
  regular := (regular_foundation.steps steps_initial).2
  basic _ _ _ := rfl
  protocol := ⟨some "Protocol", rfl⟩
  types := prefix_rfl
  slots := prefix_rfl
  traits := by decide

/-- The basic types mention no others. -/
theorem shift_initial {k n : Nat} (entry : initial.entries[n]? = some e) : e.shift k = e := by
  rcases n with _ | _ | _ | _ | _ | _ | n
  all_goals cases entry <;> rfl

/-- How many types a protocol has besides the basic ones. -/
def offset (s : Store) : Nat :=
  s.entries.length - 6

/-- The types of a protocol behind those of another. The fields of their contexts and their packets
follow each other, too. -/
def onto (base s : Store) : Store where
  entries := base.entries ++ (s.entries.drop 6).map (·.shift base.offset)
  groups := (base.groups.modify 4 fun ms =>
      { ms with slots := ms.slots ++ shiftTypes base.offset (s.contextSlots.drop 1) })
    ++ (s.groups.drop 6).map (·.shift base.offset)
  types := base.types ++ shiftTypes base.offset (s.types.drop 2)
  pdus := base.pdus ++ s.pdus

/-- Two protocols have no types and no fields of the context in common, but for those that all
protocols have. -/
structure Clear (base s : Store) : Prop where
  types : ∀ name, (base.types.lookup name).isSome = true → (s.types.lookup name).isSome = true →
    (initial.types.lookup name).isSome = true
  slots : ∀ name, (base.contextSlots.lookup name).isSome = true →
    (s.contextSlots.lookup name).isSome = true → (initial.contextSlots.lookup name).isSome = true

variable {base s : Store} {t : TypeRef} {n : Nat} {name : String}

theorem Rooted.length_le (rooted : s.Rooted) : 6 ≤ s.entries.length := by
  by_contra short
  have none : s.entries[5]? = none := List.getElem?_eq_none (by omega)
  rw [rooted.basic 5 (by decide) (by decide)] at none
  cases none

theorem Rooted.length_eq (rooted : s.Rooted) : s.entries.length = 6 + s.offset := by
  have enough := rooted.length_le
  unfold offset
  omega

theorem Rooted.protocol_eq (rooted : s.Rooted) (entry : s.entryOf .protocol = some e) :
    ∃ name, e = { form := .protocol, name, group := 3 } := by
  obtain ⟨name, protocol⟩ := rooted.protocol
  exact ⟨name, Option.some.inj (entry.symm.trans protocol)⟩

/-- The forms of the basic types. -/
theorem Rooted.basic_form (rooted : s.Rooted) (entry : s.entries[n]? = some e) (basic : n < 6) :
    [Form.number, .boolean, .nothing, .protocol, .context, .bitString][n]? = some e.form := by
  by_cases third : n = 3
  · subst third
    obtain ⟨name, rfl⟩ := rooted.protocol_eq entry
    rfl
  · rw [rooted.basic n basic third] at entry
    rcases n with _ | _ | _ | _ | _ | _ | n
    all_goals cases entry <;> rfl

theorem Rooted.own_of_struct (rooted : s.Rooted) (entry : s.entries[n]? = some e)
    (struct : e.form = .struct) : 6 ≤ n := by
  by_contra basic
  have form := rooted.basic_form entry (by omega)
  rw [struct] at form
  rcases n with _ | _ | _ | _ | _ | _ | n
  all_goals cases form

theorem Rooted.eq_context (rooted : s.Rooted) (entry : s.entries[n]? = some e) (basic : n < 6)
    (context : e.form = .context) : n = 4 := by
  have form := rooted.basic_form entry basic
  rw [context] at form
  rcases n with _ | _ | _ | _ | _ | _ | n
  all_goals first | rfl | cases form

/-- A new protocol has nothing to put behind another. -/
theorem onto_initial (base : Store) : base.onto initial = base := by
  have groups : (base.groups.modify 4 fun ms =>
      { ms with slots := ms.slots ++ shiftTypes base.offset (initial.contextSlots.drop 1) })
        = base.groups := by
    have same : (fun ms : Members => { ms with
        slots := ms.slots ++ shiftTypes base.offset (initial.contextSlots.drop 1) }) = id := by
      funext ms
      show { ms with slots := ms.slots ++ [] } = ms
      rw [append_nil]
    rw [same, modify_id]
  show Store.mk (base.entries ++ []) (_ ++ []) (base.types ++ []) (base.pdus ++ []) = base
  rw [groups, append_nil, append_nil, append_nil, append_nil]

/-- The name of a protocol is not put behind another. -/
theorem onto_rename (base s : Store) (f : Entry → Entry) :
    base.onto (s.modifyEntry .protocol f) = base.onto s := by
  show Store.mk (base.entries ++ ((s.entries.modify 3 f).drop 6).map _) _ _ _ = _
  rw [drop_modify_of_lt _ _ _ _ (by decide)]
  rfl

section Onto

variable (based : base.Rooted) (rooted : s.Rooted)

include based

theorem length_entries_onto (s : Store) (rooted : s.Rooted) :
    (base.onto s).entries.length = s.entries.length + base.offset := by
  have front := based.length_eq
  have back := rooted.length_le
  simp only [onto, length_append, length_map, length_drop]
  omega

theorem entries_onto_basic (basic : n < 6) : (base.onto s).entries[n]? = base.entries[n]? := by
  have front := based.length_le
  exact List.getElem?_append_left (by omega)

theorem protocolName_onto (s : Store) : (base.onto s).protocolName = base.protocolName :=
  congrArg (fun entry : Option Entry => (entry.bind (·.name)).getD "")
    (entries_onto_basic based (by decide))

theorem entries_onto_own (own : 6 ≤ n) :
    (base.onto s).entries[n + base.offset]? = (s.entries[n]?).map (·.shift base.offset) := by
  have front := based.length_eq
  show (base.entries ++ _)[n + base.offset]? = _
  rw [List.getElem?_append_right (by omega), List.getElem?_map, List.getElem?_drop,
    show 6 + (n + base.offset - base.entries.length) = n by omega]

theorem membersAt_onto_own (own : 6 ≤ n) :
    (base.onto s).membersAt (n + base.offset) = (s.membersAt n).shift base.offset := by
  have front := based.length_eq
  have aligned := based.regular.aligned
  unfold membersAt
  show ((base.groups.modify 4 _ ++ _)[n + base.offset]?).getD {} = _
  rw [List.getElem?_append_right (by rw [length_modify]; omega), length_modify,
    List.getElem?_map, List.getElem?_drop,
    show 6 + (n + base.offset - base.groups.length) = n by omega]
  cases s.groups[n]? with
  | none => rfl
  | some ms => rfl

theorem contextSlots_onto :
    (base.onto s).contextSlots
      = base.contextSlots ++ shiftTypes base.offset (s.contextSlots.drop 1) := by
  have front := based.length_eq
  have aligned := based.regular.aligned
  have bound : 4 < base.groups.length := by omega
  unfold contextSlots membersAt
  show (((base.groups.modify 4 _ ++ _)[4]?).getD ({} : Members)).slots = _
  rw [List.getElem?_append_left (by rw [length_modify]; omega), List.getElem?_modify_eq,
    List.getElem?_eq_getElem bound]
  rfl

include rooted

/-- The entry of a type, wherever it stands. -/
theorem entryOf_onto (other : t ≠ .protocol) :
    (base.onto s).entryOf (t.shift base.offset)
      = (s.entryOf t).map (·.shift base.offset) := by
  cases t with
  | absent => rfl
  | var name => rfl
  | id n =>
    show (base.onto s).entries[shiftId base.offset n]? = (s.entries[n]?).map _
    rcases Nat.lt_or_ge n 6 with basic | own
    · have third : n ≠ 3 := fun same => other (same ▸ rfl)
      rw [shiftId_basic basic, entries_onto_basic based basic,
        based.basic n basic third, rooted.basic n basic third]
      cases entry : initial.entries[n]? with
      | none => rfl
      | some e => rw [Option.map_some, shift_initial entry]
    · rw [shiftId_own own, entries_onto_own based own]

theorem entryOf_onto_some (entry : s.entryOf t = some e) (form : e.form ≠ .protocol) :
    (base.onto s).entryOf (t.shift base.offset) = some (e.shift base.offset) := by
  have other : t ≠ .protocol := by
    rintro rfl
    obtain ⟨name, rfl⟩ := rooted.protocol_eq entry
    exact form rfl
  rw [entryOf_onto based rooted other, entry, Option.map_some]

omit based in
theorem membersOf_own (entry : s.entries[n]? = some e) : s.members e = s.membersAt n := by
  show s.membersAt e.group = _
  rw [rooted.regular.group n e entry]

theorem members_onto_own (own : 6 ≤ n) (entry : s.entries[n]? = some e) :
    (base.onto s).members (e.shift base.offset) = (s.members e).shift base.offset := by
  have group := rooted.regular.group n e entry
  rw [membersOf_own rooted entry, ← membersAt_onto_own based own]
  show (base.onto s).membersAt (shiftId base.offset e.group) = _
  rw [group, shiftId_own own]

theorem regular_onto : (base.onto s).Regular := by
  have front := based.length_eq
  have sizes : (base.onto s).groups.length = (base.onto s).entries.length := by
    have aligned := based.regular.aligned
    have aligned' := rooted.regular.aligned
    simp only [onto, length_append, length_map, length_drop, length_modify]
    omega
  have split : ∀ n e, (base.onto s).entries[n]? = some e →
      base.entries[n]? = some e ∨ ∃ m e', 6 ≤ m ∧ n = m + base.offset ∧
        s.entries[m]? = some e' ∧ e = e'.shift base.offset := by
    intro n e entry
    rcases Nat.lt_or_ge n base.entries.length with old | new
    · left
      rw [← entry]
      exact (List.getElem?_append_left old).symm
    · right
      obtain ⟨m, rfl⟩ : ∃ m, n = m + base.offset := ⟨n - base.offset, by omega⟩
      have own : 6 ≤ m := by omega
      rw [entries_onto_own based own] at entry
      obtain ⟨e', entry', rfl⟩ := Option.map_eq_some_iff.mp entry
      exact ⟨m, e', own, rfl, entry', rfl⟩
  refine ⟨sizes, fun n e entry => ?_, fun n e entry => ?_, fun b mem => ?_⟩
  · rcases split n e entry with old | ⟨m, e', own, rfl, entry', rfl⟩
    · exact based.regular.group n e old
    · show shiftId base.offset e'.group = _
      rw [rooted.regular.group m e' entry', shiftId_own own]
  · rcases split n e entry with old | ⟨m, e', own, rfl, entry', rfl⟩
    · exact based.regular.parent n e old
    · show e'.parent.shift base.offset = _
      rw [rooted.regular.parent m e' entry']
      rfl
  · obtain ⟨e, entry, form⟩ := based.regular.basic b mem
    refine ⟨e, ?_, form⟩
    obtain ⟨n, same, old⟩ := entryOf_eq_some entry
    rw [same] at entry ⊢
    exact (List.getElem?_append_left old).trans entry

/-! ## What is asked about types -/

theorem sameWithin_onto {depth depth' : Nat} (le : depth ≤ depth') {a b : TypeRef}
    (same : s.sameWithin depth a b = true) :
    (base.onto s).sameWithin depth' (a.shift base.offset) (b.shift base.offset) = true := by
  induction depth generalizing depth' a b with
  | zero =>
    have equal : a = b := by simpa [sameWithin] using same
    rw [equal]
    exact sameWithin_refl _ depth' _
  | succ depth ih =>
    obtain ⟨depth', rfl⟩ : ∃ d, depth' = d + 1 := ⟨depth' - 1, by omega⟩
    have le : depth ≤ depth' := Nat.le_of_succ_le_succ le
    by_cases equal : a = b
    · rw [equal]
      exact sameWithin_refl _ _ _
    · cases a with
      | absent => simp [sameWithin, equal] at same
      | var name => simp [sameWithin, equal] at same
      | id m =>
        cases b with
        | absent => simp [sameWithin] at same
        | var name => simp [sameWithin] at same
        | id n =>
          rcases sameWithin_succ_eq_true.mp same with
            equal' | ⟨e, f, first, second, named, ps, r, qs, u, left, right, agree, results⟩
          · exact absurd (congrArg TypeRef.id equal') equal
          · have first' := entryOf_onto_some (t := .id m) based rooted first (by simp [left])
            have second' :=
              entryOf_onto_some (t := .id n) based rooted second (by simp [right])
            refine sameWithin_succ_eq_true.mpr (.inr ⟨_, _, first', second', named, _, _, _, _,
              congrArg (Form.shift _) left, congrArg (Form.shift _) right, ?_, ih le results⟩)
            simp only [allAgree, length_map, zip_map, all_map,
              Bool.and_eq_true, all_eq_true] at agree ⊢
            refine ⟨agree.1, fun p mem => ?_⟩
            have both := agree.2 p mem
            simp only [Function.comp, Prod.map, Parameter.shift, Bool.and_eq_true] at both ⊢
            exact ⟨both.1, ih le both.2⟩

theorem same_onto {a b : TypeRef} (same : s.same a b = true) :
    (base.onto s).same (a.shift base.offset) (b.shift base.offset) = true := by
  refine sameWithin_onto based rooted ?_ same
  rw [length_entries_onto based s rooted]
  omega

theorem isStruct_onto (struct : s.isStruct t = true) :
    (base.onto s).isStruct (t.shift base.offset) = true := by
  obtain ⟨e, entry, form⟩ := isStruct_eq_true.mp struct
  refine isStruct_eq_true.mpr ⟨_, entryOf_onto_some based rooted entry (by simp [form]), ?_⟩
  exact Form.shift_eq_struct.mpr form

theorem sizeOf_onto {size : Option Expr} (known : s.sizeOf t = .ok size) :
    (base.onto s).sizeOf (t.shift base.offset) = .ok (size.map (·.shift base.offset)) := by
  unfold sizeOf at known ⊢
  cases entry : s.entryOf t with
  | none =>
    rw [entry] at known
    cases known
  | some e =>
    rw [entry] at known
    dsimp only at known
    split at known
    · next sent =>
      cases known
      have other : e.form ≠ .protocol := by
        intro form
        rw [form] at sent
        cases sent
      rw [entryOf_onto_some based rooted entry other]
      show (if (e.form.shift _).isRepresentable = true then _ else _) = _
      rw [Form.isRepresentable_shift, if_pos sent]
      rfl
    · cases known

theorem isRepresentable_onto (t : TypeRef) :
    (base.onto s).isRepresentable (t.shift base.offset) = s.isRepresentable t := by
  unfold isRepresentable
  by_cases protocol : t = .protocol
  · subst protocol
    obtain ⟨name, entry⟩ := rooted.protocol
    obtain ⟨name', entry'⟩ := based.protocol
    have after : (base.onto s).entryOf .protocol
        = some { form := .protocol, name := name', group := 3 } :=
      (entries_onto_basic based (by decide)).trans entry'
    rw [show TypeRef.protocol.shift base.offset = .protocol from rfl, after,
      show s.entryOf .protocol = some { form := .protocol, name, group := 3 } from entry]
    rfl
  · rw [entryOf_onto based rooted protocol, Option.any_map]
    exact congrArg (Option.any · _) (funext fun e => Form.isRepresentable_shift e.form)

theorem getMethod_onto {m : Signature} (method : s.getMethod t name = .ok m) :
    (base.onto s).getMethod (t.shift base.offset) name = .ok (m.shift base.offset) := by
  obtain ⟨e, entry, found⟩ := rooted.regular.getMethod_eq_ok.mp method
  have other : t ≠ .protocol := by
    rintro rfl
    obtain ⟨key, rfl⟩ := rooted.protocol_eq entry
    cases found
  refine (regular_onto based rooted).getMethod_eq_ok.mpr ⟨e.shift base.offset, ?_, ?_⟩
  · rw [entryOf_onto based rooted other, entry, Option.map_some]
  · show (e.methods.map fun m => (m.1, m.2.shift base.offset)).lookup name = _
    rw [lookup_map_snd, found]
    rfl

theorem accepts_onto {function : String} {ps : List Parameter} {args : List (String × TypeRef)}
    (accepted : s.accepts function ps args = .ok true) :
    (base.onto s).accepts function (ps.map (·.shift base.offset)) (shiftTypes base.offset args)
      = .ok true := by
  induction ps generalizing args with
  | nil => rw [map_nil, accepts]
  | cons p ps ih =>
    cases args with
    | nil => simp [shiftTypes, accepts]
    | cons arg args =>
      obtain ⟨given, type⟩ := arg
      obtain ⟨closed, named, fits, rest⟩ := rooted.regular.accepts_cons_eq_true.mp accepted
      refine (regular_onto based rooted).accepts_cons_eq_true.mpr
        ⟨fun x open_ => closed x (TypeRef.shift_eq_var.mp open_), named, ?_, ih rest⟩
      refine fits.imp ?_ (same_onto based rooted)
      rintro ⟨x, open_⟩
      exact ⟨x, TypeRef.shift_eq_var.mpr open_⟩

theorem methodAccepts_onto {f : Signature} {self : TypeRef} {args : List (String × TypeRef)}
    (accepted : s.methodAccepts f self args = .ok true) :
    (base.onto s).methodAccepts (f.shift base.offset) (self.shift base.offset)
      (shiftTypes base.offset args) = .ok true := by
  obtain ⟨isMethod, accepted⟩ := methodAccepts_eq_true.mp accepted
  refine methodAccepts_eq_true.mpr ⟨?_, accepts_onto based rooted accepted⟩
  rw [← isMethod]
  unfold Signature.isMethod Signature.shift
  cases f.parameters <;> rfl

theorem signature?_onto {f : Signature} (signature : s.signature? t = some f) :
    (base.onto s).signature? (t.shift base.offset) = some (f.shift base.offset) := by
  unfold signature? at signature ⊢
  cases entry : s.entryOf t with
  | none => simp [entry] at signature
  | some e =>
    cases form : e.form with
    | function parameters result =>
      rw [entryOf_onto_some based rooted entry (by simp [form])]
      simp only [entry, form, Option.some.injEq] at signature
      subst signature
      simp [Entry.shift, form, Form.shift, Signature.shift, Entry.shownName]
    | _ => simp [entry, form] at signature

end Onto

/-- What stands in the second of two tables that share only their common start is found in the tables
one after the other. -/
theorem lookup_onto {k : Nat} {front xs ys : List (String × TypeRef)} (startsWith : front <+: xs)
    (startsWith' : front <+: ys) (fixed : shiftTypes k front = front)
    (clear : ∀ name, (xs.lookup name).isSome = true → (ys.lookup name).isSome = true →
      (front.lookup name).isSome = true)
    (found : ys.lookup name = some t) :
    (xs ++ shiftTypes k (ys.drop front.length)).lookup name = some (t.shift k) := by
  obtain ⟨more, rfl⟩ := startsWith'
  rw [drop_left, lookup_append, lookup_shiftTypes]
  rw [lookup_append] at found
  cases inFront : front.lookup name with
  | some u =>
    rw [inFront, Option.some_or, Option.some.injEq] at found
    subst found
    rw [lookup_of_isPrefix startsWith inFront, Option.some_or, ← Option.map_some, ← inFront,
      ← lookup_shiftTypes, fixed]
  | none =>
    rw [inFront, Option.none_or] at found
    have free : xs.lookup name = none := by
      by_contra taken
      have both := clear name (Option.isSome_iff_ne_none.mpr taken)
        (by rw [lookup_append, inFront, found]; rfl)
      rw [inFront] at both
      cases both
    rw [free, found]
    rfl

section Clear

variable (based : base.Rooted) (rooted : s.Rooted) (clear : base.Clear s)

include based rooted clear

theorem lookup_types_onto (found : s.types.lookup name = some t) :
    (base.onto s).types.lookup name = some (t.shift base.offset) :=
  lookup_onto based.types rooted.types rfl clear.types found

theorem lookup_slots_onto (found : s.contextSlots.lookup name = some t) :
    (base.onto s).contextSlots.lookup name = some (t.shift base.offset) := by
  rw [contextSlots_onto based]
  exact lookup_onto based.slots rooted.slots rfl clear.slots found

theorem fieldType_onto {c : TypeRef} (field : s.fieldType t name = .ok c) :
    (base.onto s).fieldType (t.shift base.offset) name = .ok (c.shift base.offset) := by
  obtain ⟨e, entry, found⟩ := fieldType_eq_ok.mp field
  obtain ⟨n, rfl, -⟩ := entryOf_eq_some entry
  have other : e.form ≠ .protocol := by
    rcases found with ⟨form, -⟩ | ⟨form, -⟩ <;> simp [form]
  refine fieldType_eq_ok.mpr ⟨_, entryOf_onto_some based rooted entry other, ?_⟩
  rcases found with ⟨form, found⟩ | ⟨form, found⟩
  · refine .inl ⟨Form.shift_eq_struct.mpr form, ?_⟩
    rw [members_onto_own based rooted (rooted.own_of_struct entry form) entry]
    show ((((s.members e).fields.map _).find? _).map _) = _
    obtain ⟨f, there, rfl⟩ := Option.map_eq_some_iff.mp found
    rw [List.find?_map]
    have same : ((fun f : Field => decide (f.name = name)) ∘ fun f : Field => f.shift base.offset)
        = fun f : Field => decide (f.name = name) := rfl
    rw [same, there]
    rfl
  · refine .inr ⟨Form.shift_eq_context.mpr form, ?_⟩
    rcases Nat.lt_or_ge n 6 with basic | own
    · obtain rfl := rooted.eq_context entry basic form
      have group := rooted.regular.group 4 e entry
      show ((base.onto s).membersAt (shiftId _ e.group)).slots.lookup name = _
      rw [membersOf_own rooted entry] at found
      rw [group]
      exact lookup_slots_onto based rooted clear found
    · rw [members_onto_own based rooted own entry]
      show (shiftTypes _ (s.members e).slots).lookup name = _
      rw [lookup_shiftTypes, found]
      rfl

end Clear

theorem closedResult_onto {open_ : TypeFault} {r : TypeRef} (k : Nat)
    (closed : closedResult open_ r = .ok t) : closedResult open_ (r.shift k) = .ok (t.shift k) := by
  cases r with
  | var x => cases closed
  | absent =>
    cases closed
    rfl
  | id n =>
    cases closed
    rfl

mutual

/-- An expression about a shifted type has the shifted type that it had. -/
theorem resultType_onto (based : base.Rooted) (rooted : s.Rooted) (clear : base.Clear s)
    {c : TypeRef} (x : Expr) {t : TypeRef} (typed : s.resultType c x = .ok t) :
    (base.onto s).resultType (c.shift base.offset) (x.shift base.offset)
      = .ok (t.shift base.offset) := by
  cases x with
  | const type value =>
    rw [resultType] at typed
    cases typed
    rw [Expr.shift, resultType]
  | self =>
    rw [Expr.shift]
    cases c with
    | absent => simp [resultType] at typed
    | var name =>
      simp only [resultType, Except.ok.injEq] at typed
      subst typed
      rfl
    | id n =>
      simp only [resultType, Except.ok.injEq] at typed
      subst typed
      rfl
  | field target name =>
    obtain ⟨u, target_, struct, field⟩ := resultType_field_eq_ok.mp typed
    rw [Expr.shift]
    exact resultType_field_eq_ok.mpr ⟨_, resultType_onto based rooted clear target target_,
      isStruct_onto based rooted struct, fieldType_onto based rooted clear field⟩
  | ctx name context =>
    rw [resultType] at typed
    rw [Expr.shift, resultType]
    exact fieldType_onto based rooted clear typed
  | ifelse condition whenTrue whenFalse =>
    obtain ⟨b, condition_, boolean, first, u, second, same⟩ := resultType_ifelse_eq_ok.mp typed
    rw [Expr.shift]
    exact resultType_ifelse_eq_ok.mpr
      ⟨_, resultType_onto based rooted clear condition condition_,
        same_onto based rooted boolean,
        resultType_onto based rooted clear whenTrue first, _,
        resultType_onto based rooted clear whenFalse second,
        same_onto based rooted same⟩
  | arg name value =>
    rw [resultType] at typed
    rw [Expr.shift, resultType]
    exact resultType_onto based rooted clear value typed
  | method target name args =>
    obtain ⟨types, args_, u, target_, m, method, accepted, result⟩ :=
      resultType_method_eq_ok.mp typed
    rw [Expr.shift]
    exact resultType_method_eq_ok.mpr
      ⟨_, argumentTypes_onto based rooted clear args args_, _,
        resultType_onto based rooted clear target target_, _,
        getMethod_onto based rooted method,
        methodAccepts_onto based rooted accepted, closedResult_onto _ result⟩
  | func function args =>
    obtain ⟨f, signature, types, args_, accepted, result⟩ := resultType_func_eq_ok.mp typed
    rw [Expr.shift]
    exact resultType_func_eq_ok.mpr
      ⟨_, signature?_onto based rooted signature, _,
        argumentTypes_onto based rooted clear args args_,
        accepts_onto based rooted accepted, closedResult_onto _ result⟩
termination_by structural x

theorem argumentTypes_onto (based : base.Rooted) (rooted : s.Rooted) (clear : base.Clear s)
    {c : TypeRef} (args : List (String × Expr)) {types : List (String × TypeRef)}
    (typed : s.argumentTypes c args = .ok types) :
    (base.onto s).argumentTypes (c.shift base.offset) (shiftArgs base.offset args)
      = .ok (shiftTypes base.offset types) := by
  cases args with
  | nil =>
    rw [argumentTypes] at typed
    cases typed
    rw [shiftArgs, argumentTypes]
    rfl
  | cons arg args =>
    obtain ⟨name, value⟩ := arg
    obtain ⟨u, value_, rest, args_, rfl⟩ := argumentTypes_cons_eq_ok.mp typed
    rw [shiftArgs]
    exact argumentTypes_cons_eq_ok.mpr ⟨_, resultType_onto based rooted clear value value_,
      _, argumentTypes_onto based rooted clear args args_, rfl⟩
termination_by structural args

end

end Store

end PacketDraft.Protocol
