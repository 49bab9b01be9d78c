import PacketDraft.Proofs.Protocol.Plain
import PacketDraft.Proofs.Protocol.SizeTyping

/-!
# Fields without a size

A structure starts with the size zero. A field that has a size when it is added makes the structure
longer, and a field that has none leaves its size alone. So there is no structure without a size,
whatever it holds, and its size is that of the fields that have one.
-/

namespace PacketDraft.Protocol

open Attempt

/-- All structures have a size. -/
def Store.Definite (s : Store) : Prop :=
  ∀ e ∈ s.entries, e.form = .struct → e.size ≠ none

namespace Store.Definite

variable {s : Store} {t : TypeRef}

theorem entryOf {e : Entry} (definite : s.Definite) (entry : s.entryOf t = some e)
    (struct : e.form = .struct) : ∃ size, e.size = some size := by
  obtain ⟨n, rfl, -⟩ := entryOf_eq_some entry
  exact Option.ne_none_iff_exists'.mp (definite e (List.mem_of_getElem? entry) struct)

theorem modifyEntry {f : Entry → Entry} (definite : s.Definite)
    (form : ∀ e, (f e).form = e.form) (size : ∀ e, e.size ≠ none → (f e).size ≠ none) :
    (s.modifyEntry t f).Definite := by
  cases t with
  | id n =>
    refine forall_mem_modify definite (fun e own struct => ?_) n
    rw [form e] at struct
    exact size e (own struct)
  | _ => exact definite

theorem modifyMembers {f : Members → Members} (definite : s.Definite) :
    (s.modifyMembers t f).Definite := by
  unfold Store.Definite
  rw [entries_modifyMembers]
  exact definite

theorem append {e : Entry} {groups : List Members} (definite : s.Definite)
    (own : e.form = .struct → e.size ≠ none) :
    Definite { s with entries := s.entries ++ [e], groups := groups } :=
  List.forall_mem_append.mpr ⟨definite, List.forall_mem_singleton.mpr own⟩

end Store.Definite

/-! ## What is done to types -/

section Changes

variable {t : TypeRef} {s : Store}

/-- All structures keep having a size. -/
abbrev StaysDefinite {α : Type} (x : Change α) : Prop :=
  Keeps (Keeping Store.Definite) x

theorem setSize_definite (size : Expr) : StaysDefinite (setSize t (some size)) :=
  keeps_update fun _ definite =>
    definite.modifyEntry (fun _ => rfl) fun _ _ => Option.some_ne_none size

theorem implementTrait_definite (trait : Trait) (vars : List (String × TypeRef)) :
    StaysDefinite (implementTrait t trait vars) :=
  implementTrait_keeps
    (fun _ _ _ _ _ definite => definite.modifyEntry (fun _ => rfl) fun _ => id)
    (fun _ definite => definite.modifyMembers) vars

theorem addSlot_definite (name : String) (type : TypeRef) :
    StaysDefinite (addSlot t name type) := by
  refine (addSlot_changes t name type).keeps ?_
  rintro s _ ⟨e, -, -, -, rfl⟩ definite
  exact definite.modifyMembers

theorem addTyped_definite (wanted : TypeRef) (refuse : String → TypeFault)
    (add : Expr → Members → Members) (x : Expr) :
    StaysDefinite (addTyped wanted refuse add t x) := by
  refine (addTyped_changes wanted refuse add t x).keeps ?_
  rintro s _ ⟨r, -, -, -, rfl⟩ definite
  exact definite.modifyMembers

theorem addType_definite (t : TypeRef) : StaysDefinite (addType t) := by
  refine (addType_changes t).keeps ?_
  rintro s _ ⟨name, -, -, rfl⟩ definite
  exact definite

theorem definePdu_definite (name : String) : StaysDefinite (definePdu name) := by
  refine (definePdu_changes name).keeps ?_
  rintro s _ ⟨t, -, -, rfl⟩ definite
  exact definite

theorem setProtocolName_definite (name : String) : StaysDefinite (setProtocolName name) := by
  refine (setProtocolName_changes name).keeps ?_
  rintro s _ ⟨-, rfl⟩ definite
  exact definite.modifyEntry (fun _ => rfl) fun _ => id

theorem Makes.definite {methods : List String} {fields : List Field} {form : Form}
    {name : Option String} {make : Change TypeRef} (makes : Makes methods fields form name make)
    (other : form ≠ .struct) : StaysDefinite make := by
  intro s definite
  obtain ⟨fault, outcome⟩ | ⟨given, size, result, s', -, outcome, edits, -⟩ := makes s
  · rw [outcome]
    exact definite
  · rw [outcome]
    obtain ⟨e, ms, made⟩ := Made.of_edits edits
    unfold Store.Definite
    rw [made.entries]
    exact List.forall_mem_append.mpr ⟨definite, List.forall_mem_singleton.mpr fun struct =>
      absurd (made.form.symm.trans struct) other⟩

/-! ## Fields of structures -/

/-- A field is added to a structure or refused. If the structure has a size, then it is longer by
the size of the field, or as long as before if the field has none. -/
theorem addField_sized {e : Entry} {f : Field} {a : Expr} (entry : s.entryOf t = some e)
    (struct : e.form = .struct) (sized : e.size = some a) :
    Settled (fun s s' => ∃ size sum e', s.sizeOf f.type = .ok size ∧
        addUp (some a) size.toList = .ok (some sum) ∧
        s'.entryOf t = some e' ∧ e'.form = .struct ∧ e'.size = some sum) s (addField t f s) := by
  rw [addField_eq_addStructField entry struct]
  refine (addStructField_changes t e f s).imp_right ?_
  rintro ⟨_, outcome, -, size, known, ⟨lacking, rfl⟩ | ⟨b, x, sum, sized', rfl, added, rfl⟩⟩
  · obtain rfl : size = none := lacking.resolve_left (by simp [sized])
    refine ⟨_, outcome, none, a, e, known, rfl, ?_, struct, sized⟩
    rw [Store.entryOf_withField, entry]
  · rw [sized] at sized'
    cases sized'
    refine ⟨_, outcome, some x, sum, { e with size := some sum }, known, ?_, ?_, struct, rfl⟩
    · show (addSizes a x >>= fun sum => addUp (some sum) []) = _
      rw [added]
      rfl
    · rw [Store.entryOf_withField, Store.entryOf_modifyEntry_self _ entry]

theorem addStructField_definite (e : Entry) (field : Field) :
    StaysDefinite (addStructField t e field) := by
  refine (addStructField_changes t e field).keeps ?_
  rintro s _ ⟨-, size, -, ⟨-, rfl⟩ | ⟨a, x, sum, -, -, -, rfl⟩⟩ definite
  · exact definite.modifyMembers
  · exact Store.Definite.modifyMembers (setSize_definite sum s definite)

theorem addField_definite (field : Field) : StaysDefinite (addField t field) :=
  addField_keeps (fun s e _ _ => addStructField_definite e field s)
    (addSlot_definite field.name field.type)

/-- A method is added to a type that has none of its name. -/
theorem implementMethod_ok {vars : List (String × TypeRef)}
    {m method : Signature} {e : Entry} (entry : s.entryOf t = some e)
    (free : e.methods.lookup m.name = none) (given : m.instantiate vars = .ok method) :
    (implementMethod t vars m s).1 = .ok () := by
  unfold implementMethod
  rw [read_bind, entry, Option.any_some, free, given]
  rfl

/-- A new type can be given a size. -/
theorem implementTrait_push (s : Store) {form : Form} (name : String) (size : Option Expr)
    (primitive : form.isPrimitive = false) :
    (implementTrait (.id s.entries.length) Trait.sized [] (s.push form name size)).1 = .ok () := by
  have made : Made [] [] form name s (s.push form name size) _ _ := Made.push s form name size
  have traits : (s.push form name size).traits (.id s.entries.length) = [] := by
    rw [Store.traits, made.entryOf]
    show ((s.push form name size).members _).traits = []
    rw [made.members_new]
  have method : (implementMethod (.id s.entries.length) ([] ++ [("T", .id s.entries.length)])
      (Trait.method "size" [] .number) (s.push form name size)).1 = .ok () :=
    implementMethod_ok made.entryOf rfl rfl
  unfold implementTrait
  rw [read_bind, made.entryOf]
  simp only [primitive, Bool.false_eq_true, if_false]
  rw [read_bind, traits]
  show (((implementMethod _ _ _ >>= fun _ => pure ()) >>= fun _ => update _) _).1 = _
  rw [bind_assoc, bind_apply, ← Prod.eta (implementMethod _ _ _ _), method]
  rfl

/-- A structure has no size for a moment only: nothing can fail until it is zero. -/
theorem makeStruct_definite (name : Option String) (fields : List Field)
    (constraints actions : List Expr) :
    StaysDefinite (makeStruct name fields constraints actions) := by
  intro s definite
  cases valid : checkName .struct name with
  | error fault =>
    rw [makeStruct, makeType, bind_apply, bind_apply, valid]
    exact definite
  | ok given =>
    have rest : StaysDefinite (do
        each (addField (.id s.entries.length)) fields
        each (addConstraint (.id s.entries.length)) constraints
        each (addAction (.id s.entries.length)) actions
        implementTrait (.id s.entries.length) Trait.equality []
        return .id s.entries.length : Change TypeRef) := by
      refine (Keeps.each fun f _ => addField_definite f).bind fun _ => ?_
      refine (Keeps.each fun x _ => addTyped_definite _ _ _ x).bind fun _ => ?_
      refine (Keeps.each fun x _ => addTyped_definite _ _ _ x).bind fun _ => ?_
      exact (implementTrait_definite _ _).bind fun _ => keeps_pure _
    have done := implementTrait_push s given none (show Form.struct.isPrimitive = false from rfl)
    have edits : Edits ["size"] [] (.id s.entries.length) (s.push .struct given none) _ :=
      implementTrait_edits Trait.sized [] (by decide) (s.push .struct given none)
    obtain ⟨e, ms, made⟩ := Made.of_edits edits
    rw [makeStruct, makeType, bind_apply, bind_apply, valid]
    show Store.Definite ((implementTrait (.id s.entries.length) Trait.sized [] >>= fun _ => _)
      (s.push .struct given none)).2
    rw [bind_apply, ← Prod.eta (implementTrait _ _ _ _), done]
    refine rest _ ?_
    show ∀ e ∈ (Store.modifyEntry _ (.id s.entries.length) _).entries, _
    rw [(made.modifyEntry rfl rfl rfl made.methods).entries]
    exact List.forall_mem_append.mpr ⟨definite,
      List.forall_mem_singleton.mpr fun _ => Option.some_ne_none _⟩

theorem completing_definite : Completing (Keeping Store.Definite) where
  option name t := (makeOption_makes name t).definite (by simp)
  size s _ _ _ _ _ _ _ := setSize_definite _ s
  parseFrom _ _ _ definite := definite.modifyEntry (fun _ => rfl) fun _ => id
  serialiseTo _ _ _ definite := definite.modifyEntry (fun _ => rfl) fun _ => id

theorem derive_definite (source : TypeRef) (name : String) (traits : List Trait) :
    StaysDefinite (derive source name traits) := by
  refine derive_keeps (fun s e entry definite => definite.append fun struct => ?_)
    (fun _ trait => implementTrait_definite trait []) traits
  obtain ⟨size, sized⟩ := definite.entryOf entry struct
  exact sized ▸ Option.some_ne_none size

end Changes

/-! ## Runs -/

namespace Act

theorem definite_after {s : Store} (definite : s.Definite) (act : Act) :
    (act.after s).Definite := by
  cases act with
  | derive source name traits => exact derive_definite source name traits s definite
  | call c =>
    cases c with
    | bitString name size => exact (makeBitString_makes name size).definite (by simp) s definite
    | option name reference => exact (makeOption_makes name reference).definite (by simp) s definite
    | array name element length size =>
      exact (makeArray_makes name element length size).definite (by simp) s definite
    | struct name fields constraints actions =>
      exact makeStruct_definite name fields constraints actions s definite
    | enum name variants => exact (makeEnum_makes name variants).definite (by simp) s definite
    | function name parameters result =>
      exact (makeType_makes _ name none).definite (by simp) s definite
    | context name => exact (makeType_makes _ name none).definite (by simp) s definite
    | implementTrait t trait vars => exact implementTrait_definite trait vars s definite
    | addField t field => exact addField_definite field s definite
    | addSlot t name type => exact addSlot_definite name type s definite
    | addConstraint t x => exact addTyped_definite _ _ _ x s definite
    | addAction t x => exact addTyped_definite _ _ _ x s definite
    | addType t => exact addType_definite t s definite
    | definePdu name => exact definePdu_definite name s definite
    | setProtocolName name => exact setProtocolName_definite name s definite
    | synthesise => exact completing_definite.keeps_synthesise s definite

/-- In every run, all structures have a size. -/
theorem definite_run (acts : List Act) : (run acts).Definite := by
  induction acts using List.reverseRecOn with
  | nil =>
    have foundation : Store.foundation.Definite := by
      simp [Store.Definite, Store.foundation, primitiveEntry]
    have made : StaysDefinite (makeBitString (some "DataUnit") (some dataSizeExpr) >>= addType) :=
      ((makeBitString_makes _ _).definite (by simp)).bind addType_definite
    exact made .foundation foundation
  | append_singleton acts act ih =>
    rw [run_append]
    exact definite_after ih act

/-- The sizes that the types of fields have when the fields are added to a structure, one after the
other. A field that is refused is left out. -/
def addedSizes (t : TypeRef) : List Field → Store → List (Option Expr)
  | [], _ => []
  | f :: fs, s =>
    match addField t f s, s.sizeOf f.type with
    | (.ok (), s'), .ok size => size :: addedSizes t fs s'
    | (_, s'), _ => addedSizes t fs s'

/-- Fields that are added to a structure one after the other. -/
def adding (t : TypeRef) (fields : List Field) : List Act :=
  fields.map fun f => .call (.addField t f)

/-- The sizes of the fields add up, as far as they have one. -/
theorem foldl_adding {s : Store} {t : TypeRef} {e : Entry} {a : Expr}
    (entry : s.entryOf t = some e) (struct : e.form = .struct) (sized : e.size = some a)
    (fields : List Field) :
    ∃ e' sum, ((adding t fields).foldl after s).entryOf t = some e' ∧ e'.form = .struct ∧
      e'.size = some sum ∧
      addUp (some a) ((addedSizes t fields s).filterMap id) = .ok (some sum) := by
  induction fields generalizing s e a with
  | nil => exact ⟨e, a, entry, struct, sized, rfl⟩
  | cons f fields ih =>
    obtain ⟨fault, refused⟩ | ⟨s', added, size, sum, e', known, summed, entry', struct', sized'⟩ :=
      addField_sized (f := f) entry struct sized
    · have same : after s (.call (.addField t f)) = s := congrArg Prod.snd refused
      have sizes : addedSizes t (f :: fields) s = addedSizes t fields s := by
        rw [addedSizes, refused]
      rw [sizes]
      show ∃ e' sum, ((adding t fields).foldl after (after s (.call (.addField t f)))).entryOf t
        = some e' ∧ _
      rw [same]
      exact ih entry struct sized
    · have next : after s (.call (.addField t f)) = s' := congrArg Prod.snd added
      have sizes : addedSizes t (f :: fields) s = size :: addedSizes t fields s' := by
        rw [addedSizes, added, known]
      obtain ⟨e'', total, entry'', struct'', sized'', rest⟩ := ih entry' struct' sized'
      refine ⟨e'', total, ?_, struct'', sized'', ?_⟩
      · show ((adding t fields).foldl after (after s (.call (.addField t f)))).entryOf t = some e''
        rw [next]
        exact entry''
      · have front : (size :: addedSizes t fields s').filterMap id
            = size.toList ++ (addedSizes t fields s').filterMap id := by
          cases size <;> rfl
        rw [sizes, front, addUp_append, summed]
        exact rest

/-- A structure always has a size. When fields are added to it, one after the other, the sizes of
those that have one are added to its size, and those that have none are passed over. -/
theorem open_fields_passed_over (acts : List Act) {t : TypeRef} {e : Entry}
    (entry : (run acts).entryOf t = some e) (struct : e.form = .struct) (fields : List Field) :
    ∃ size sum, (run acts).sizeOf t = .ok (some size) ∧
      (run (acts ++ adding t fields)).sizeOf t = .ok (some sum) ∧
      addUp (some size) ((addedSizes t fields (run acts)).filterMap id) = .ok (some sum) := by
  obtain ⟨size, sized⟩ := (definite_run acts).entryOf entry struct
  obtain ⟨e', sum, entry', struct', sized', summed⟩ := foldl_adding entry struct sized fields
  refine ⟨size, sum, ?_, ?_, summed⟩
  · exact Store.sizeOf_eq_ok.mpr ⟨e, entry, by rw [struct]; rfl, sized⟩
  · rw [run_append]
    exact Store.sizeOf_eq_ok.mpr ⟨e', entry', by rw [struct']; rfl, sized'⟩

/-- A field that is always there. -/
def fieldOf (name : String) (type : TypeRef) : Field :=
  ⟨name, type, .const .boolean (.flag true)⟩

/-- A head of eight bits and a body without a size. -/
def headAndBody : List Act :=
  [.call (.bitString (some "Head") (some (constantSize (.int 8)))),
   .call (.bitString (some "Body") none)]

/-- A packet gets a head, a body, which it refuses the second time, and another head. -/
theorem open_fields_passed_over_packet :
    let acts := headAndBody ++ [.call (.struct (some "Packet") [] [] [])]
    let fields := [fieldOf "head" (.id 6), fieldOf "body" (.id 7), fieldOf "body" (.id 7),
      fieldOf "tail" (.id 6)]
    addedSizes (.id 8) fields (run acts)
        = [some (constantSize (.int 8)), none, some (constantSize (.int 8))] ∧
      (run (acts ++ adding (.id 8) fields)).sizeOf (.id 8)
        = .ok (some (constantSize (.int 16))) := by
  intro acts fields
  have sizes : addedSizes (.id 8) fields (run acts)
      = [some (constantSize (.int 8)), none, some (constantSize (.int 8))] := rfl
  have empty : (run acts).sizeOf (.id 8) = .ok (some (constantSize (.int 0))) := rfl
  have packet : (run acts).entryOf (.id 8) = some _ := rfl
  obtain ⟨size, sum, before, after, added⟩ := open_fields_passed_over acts packet rfl fields
  rw [empty] at before
  cases before
  rw [sizes] at added
  cases added
  exact ⟨sizes, after⟩

/-- A packet with a head and a body is as long as its head, and counts as such in a frame. -/
theorem body_not_counted :
    let acts := headAndBody ++
      [.call (.struct (some "Packet") [fieldOf "head" (.id 6), fieldOf "body" (.id 7)] [] []),
       .call (.struct (some "Frame") [fieldOf "packet" (.id 8), fieldOf "tail" (.id 6)] [] [])]
    (run acts).sizeOf (.id 7) = .ok none ∧
      ((run acts).fieldsOf (.id 8)).map (·.type) = [.id 6, .id 7] ∧
      (run acts).sizeOf (.id 8) = .ok (some (constantSize (.int 8))) ∧
      (run acts).sizeOf (.id 9) = .ok (some (constantSize (.int 16))) := by
  exact ⟨rfl, rfl, rfl, rfl⟩

end Act

end PacketDraft.Protocol
