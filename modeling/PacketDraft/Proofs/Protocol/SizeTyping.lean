import Mathlib.Data.List.Induction
import PacketDraft.Proofs.Protocol.Growth
import PacketDraft.Proofs.Protocol.Run

/-!
# Types of sizes

Sizes are put together from those that are given: an option is as long as its value, a structure as
long as its fields, an array as long as its elements, and a field may get what the others leave of the
data. Nobody looks at the type of such a size. The main result says when all of them are numbers.
-/

namespace PacketDraft.Protocol

open Attempt List

variable {size : Option Expr} {name : Option String} {fields : List Field} {methods : List String}

/-! ## Sizes that are put together -/

/-- A size that is put together from given expressions. Sizes of arrays, which are products, may be
ruled out. -/
inductive Composed (given : Expr → Prop) (products : Prop) : Expr → Prop
  | given {x : Expr} (own : given x) : Composed given products x
  | known (v : Literal) : Composed given products (constantSize v)
  | data : Composed given products dataSizeExpr
  | sum {a b : Expr} (first : Composed given products a) (second : Composed given products b) :
      Composed given products (.method a "plus" [("other", b)])
  | rest {a : Expr} (taken : Composed given products a) :
      Composed given products (.method dataSizeExpr "minus" [("other", a)])
  | product {a count : Expr} (allowed : products) (one : Composed given products a)
      (several : given count) : Composed given products (severalSize count a)

variable {given : Expr → Prop} {products : Prop}

theorem Composed.addSizes {a b sum : Expr} (first : Composed given products a)
    (second : Composed given products b) (added : addSizes a b = .ok sum) :
    Composed given products sum := by
  unfold Protocol.addSizes at added
  split at added
  · obtain ⟨v, -, last⟩ := exceptBind_eq_ok.mp added
    cases last
    exact .known v
  · cases added
    exact .sum first second

/-! ## Stores with such sizes -/

/-- The methods of numbers. -/
def numberMethods : List (String × Signature) :=
  ((Store.foundation.entryOf .number).map (·.methods)).getD []

/-- The type of numbers with its own methods only. -/
structure Entry.IsNumber (e : Entry) : Prop where
  form : e.form = .number
  parent : e.parent = .absent
  methods : e.methods = numberMethods

/-- All sizes are put together, numbers are as they were, and the context knows the size of the
data. -/
structure Store.Sound (given : Expr → Prop) (products : Prop) (s : Store) : Prop where
  sizes : ∀ e ∈ s.entries, ∀ x ∈ e.size, Composed given products x
  number : ∃ e, s.entries[0]? = some e ∧ e.IsNumber
  context : ∃ e, s.entries[4]? = some e ∧ e.form = .context ∧ e.group = 4
  slots : ∃ ms, s.groups[4]? = some ms ∧ ms.slots.lookup dataSize = some .number

namespace Store.Sound

variable {s : Store} {t : TypeRef}

section

variable (sound : s.Sound given products)

include sound

theorem modifyEntry {f : Entry → Entry} (sized : ∀ e, (∀ x ∈ e.size, Composed given products x) →
      ∀ x ∈ (f e).size, Composed given products x)
    (same : ∀ e, (f e).form = e.form ∧ (f e).parent = e.parent ∧ (f e).group = e.group)
    (methods : ∀ e, t = .number → (f e).methods = e.methods) :
    (s.modifyEntry t f).Sound given products := by
  refine ⟨?_, ?_, ?_, groups_modifyEntry s t f ▸ sound.slots⟩
  · cases t with
    | id n =>
      show ∀ e ∈ s.entries.modify n f, _
      intro e mem
      obtain ⟨m, found⟩ := mem_iff_getElem?.mp mem
      rw [List.getElem?_modify] at found
      obtain ⟨old, known, rfl⟩ := Option.map_eq_some_iff.mp found
      have composed := sound.sizes old (mem_of_getElem? known)
      split
      · exact sized old composed
      · exact composed
    | _ => exact sound.sizes
  · obtain ⟨e, entry, number⟩ := sound.number
    refine ⟨_, getElem?_modifyEntry entry, ?_⟩
    split
    · next own =>
      obtain ⟨form, parent, -⟩ := same e
      exact ⟨form.trans number.form, parent.trans number.parent,
        (methods e own).trans number.methods⟩
    · exact number
  · obtain ⟨e, entry, form, group⟩ := sound.context
    refine ⟨_, getElem?_modifyEntry entry, ?_⟩
    split
    · exact ⟨(same e).1.trans form, (same e).2.2.trans group⟩
    · exact ⟨form, group⟩

theorem modifyMembers {f : Members → Members} (more : ∀ ms, ms.slots <+: (f ms).slots) :
    (s.modifyMembers t f).Sound given products := by
  unfold Store.modifyMembers
  split
  · next e _ =>
    refine ⟨sound.sizes, sound.number, sound.context, ?_⟩
    obtain ⟨ms, members, found⟩ := sound.slots
    show ∃ ms, (s.groups.modify e.group f)[4]? = some ms ∧ _
    rw [List.getElem?_modify, members]
    split
    · exact ⟨_, rfl, lookup_of_isPrefix (more ms) found⟩
    · exact ⟨ms, rfl, found⟩
  · exact sound

theorem append {e : Entry} {more : List Members} (composed : ∀ x ∈ e.size, Composed given products x) :
    Sound given products { s with entries := s.entries ++ [e], groups := s.groups ++ more } := by
  have older : ∀ {α : Type} {xs ys : List α} {n : Nat} {x : α},
      xs[n]? = some x → (xs ++ ys)[n]? = some x := by
    intro α xs ys n x found
    rw [List.getElem?_append_left (List.getElem?_eq_some_iff.mp found).1, found]
  refine ⟨forall_mem_append.mpr ⟨sound.sizes, forall_mem_singleton.mpr composed⟩,
    ?_, ?_, ?_⟩
  · obtain ⟨e, entry, number⟩ := sound.number
    exact ⟨e, older entry, number⟩
  · obtain ⟨e, entry, context⟩ := sound.context
    exact ⟨e, older entry, context⟩
  · obtain ⟨ms, members, found⟩ := sound.slots
    exact ⟨ms, older members, found⟩

theorem entryOf {e : Entry} (entry : s.entryOf t = some e) :
    ∀ x ∈ e.size, Composed given products x := by
  obtain ⟨n, rfl, -⟩ := entryOf_eq_some entry
  exact sound.sizes e (mem_of_getElem? entry)

theorem sizeOf (known : s.sizeOf t = .ok size) : ∀ x ∈ size, Composed given products x := by
  obtain ⟨e, entry, -, rfl⟩ := sizeOf_eq_ok.mp known
  exact sound.entryOf entry

theorem sumSizes {owner : String} {total : SizeSum} (summed : s.sumSizes owner {} fields = .ok total) :
    ∀ x ∈ total.sum, Composed given products x :=
  forall_sumSizes (fun first second => first.addSizes second) (by simp)
    (fun _ _ _ known => sound.sizeOf known) summed

end

end Store.Sound

/-! ## What is done to types -/

section Changes

variable {t : TypeRef}

/-- Sizes stay put together. -/
abbrev Composes (given : Expr → Prop) (products : Prop) {α : Type} (x : Change α) : Prop :=
  Keeps (Keeping (Store.Sound given products)) x

theorem setSize_composes (composed : ∀ x ∈ size, Composed given products x) :
    Composes given products (setSize t size) :=
  keeps_update fun _ sound =>
    sound.modifyEntry (fun _ _ => composed) (fun _ => ⟨rfl, rfl, rfl⟩) fun _ _ => rfl

/-- Numbers are primitive and implement no further traits. -/
theorem implementTrait_composes (trait : Trait) (vars : List (String × TypeRef)) :
    Composes given products (implementTrait t trait vars) := by
  by_cases own : t = .number
  · subst own
    intro s sound
    obtain ⟨e, entry, number⟩ := sound.number
    unfold implementTrait
    rw [read_bind, show s.entryOf .number = some e from entry]
    simp only [number.form]
    exact sound
  · exact implementTrait_keeps (fun _ _ _ _ _ sound =>
      sound.modifyEntry (fun _ => id) (fun _ => ⟨rfl, rfl, rfl⟩) fun _ same => absurd same own)
      (fun _ sound => sound.modifyMembers fun _ => prefix_rfl) vars

theorem makeType_composes (form : Form) (composed : ∀ x ∈ size, Composed given products x) :
    Composes given products (makeType form name size) := by
  refine (keeps_ofExcept _).bind fun given => (keeps_read _).bind fun n => ?_
  exact (keeps_update fun s sound => sound.append composed).bind fun _ => keeps_pure _

theorem addSlot_composes (name : String) (type : TypeRef) :
    Composes given products (addSlot t name type) := by
  refine (addSlot_changes t name type).keeps ?_
  rintro s _ ⟨e, -, -, -, rfl⟩ sound
  exact sound.modifyMembers fun ms => prefix_append _ _

theorem addStructField_composes {e : Entry} (field : Field)
    (sized : ∀ x ∈ e.size, Composed given products x) :
    Composes given products (addStructField t e field) := by
  have add : ∀ s : Store, s.Sound given products → (s.withField t field).Sound given products :=
    fun s sound => sound.modifyMembers fun ms => prefix_rfl
  refine (addStructField_changes t e field).keeps ?_
  rintro s _ ⟨-, size, known, ⟨-, rfl⟩ | ⟨a, x, sum, own, rfl, added, rfl⟩⟩ sound
  · exact add s sound
  · have total := (sized a own).addSizes (sound.sizeOf known x rfl) added
    refine add _ (setSize_composes ?_ s sound)
    rintro x ⟨⟩
    exact total

theorem addField_composes (field : Field) : Composes given products (addField t field) :=
  addField_keeps (fun s _ entry _ sound => addStructField_composes field (sound.entryOf entry) s sound)
    (addSlot_composes field.name field.type)

theorem addConstraint_composes (x : Expr) : Composes given products (addConstraint t x) := by
  refine (addTyped_changes _ _ _ t x).keeps ?_
  rintro s _ ⟨r, -, -, -, rfl⟩ sound
  exact sound.modifyMembers fun ms => prefix_rfl

theorem addAction_composes (x : Expr) : Composes given products (addAction t x) := by
  refine (addTyped_changes _ _ _ t x).keeps ?_
  rintro s _ ⟨r, -, -, -, rfl⟩ sound
  exact sound.modifyMembers fun ms => prefix_rfl

theorem makeBitString_composes (composed : ∀ x ∈ size, Composed given products x) :
    Composes given products (makeBitString name size) := by
  refine (makeType_composes _ composed).bind fun t => ?_
  refine (implementTrait_composes _ _).bind fun _ => (implementTrait_composes _ _).bind fun _ => ?_
  refine (implementTrait_composes _ _).bind fun _ => (implementTrait_composes _ _).bind fun _ => ?_
  exact keeps_pure t

theorem makeOption_composes (name : Option String) (reference : TypeRef) :
    Composes given products (makeOption name reference) := by
  refine fun s => keeps_ask_bind fun size known sound => ?_
  refine ((makeType_composes _ (sound.sizeOf known)).bind fun t => ?_) s sound
  exact (implementTrait_composes _ _).bind fun _ => keeps_pure t

/-- The call makes an array with a length, and its elements have a size. -/
def Scales (s : Store) (name : Option String) (element : TypeRef) (length size : Option Expr) : Prop :=
  length.isSome = true ∧ ∃ t s' x, makeArray name element length size s = (.ok t, s') ∧
    s'.sizeOf element = .ok (some x)

theorem sizeOf_setSize {s : Store} {u : TypeRef} {x y : Expr} (known : s.sizeOf u = .ok (some x)) :
    ∃ z, (s.modifyEntry t fun e => { e with size := some y }).sizeOf u = .ok (some z) := by
  obtain ⟨e, entry, sent, size⟩ := Store.sizeOf_eq_ok.mp known
  by_cases own : t = u
  · subst own
    exact ⟨y, Store.sizeOf_eq_ok.mpr ⟨_, Store.entryOf_modifyEntry_self _ entry, sent, rfl⟩⟩
  · refine ⟨x, Store.sizeOf_eq_ok.mpr ⟨e, ?_, sent, size⟩⟩
    rw [Store.entryOf_modifyEntry_ne _ own, entry]

theorem makeArray_composes {s : Store} {element : TypeRef} {length : Option Expr}
    (lengths : ∀ x ∈ length, given x) (sizes : ∀ x ∈ size, given x)
    (scaled : Scales s name element length size → products) (sound : s.Sound given products) :
    (makeArray name element length size s).2.Sound given products := by
  have composed : ∀ x ∈ size, Composed given products x := fun x mem => .given (sizes x mem)
  refine (keeps_bind_at (makeType_composes _ (by simp) s) fun t s₁ made => ?_ :
    Keeping (Store.Sound given products) s _) sound
  refine keeps_bind_at (implementTrait_composes _ _ s₁) fun _ s₂ sized => ?_
  refine keeps_bind_at (implementTrait_composes _ _ s₂) fun _ s₃ equality => ?_
  refine keeps_bind_at (implementTrait_composes _ _ s₃) fun _ s₄ indexed => ?_
  refine keeps_bind_at (setSize_composes composed s₄) fun _ s₅ resized => ?_
  cases length with
  | none => exact id
  | some count =>
    refine keeps_ask_bind fun elementSize known sound => ?_
    cases elementSize with
    | none => exact sound
    | some a =>
      -- All steps have succeeded, so the array is made.
      have made : makeArray name element (some count) size s = (.ok t, s₅.modifyEntry t fun e =>
          { e with size := some (severalSize count a) }) := by
        refine bind_eq_ok.mpr ⟨t, s₁, made, bind_eq_ok.mpr ⟨_, s₂, sized, ?_⟩⟩
        refine bind_eq_ok.mpr ⟨_, s₃, equality, bind_eq_ok.mpr ⟨_, s₄, indexed, ?_⟩⟩
        refine bind_eq_ok.mpr ⟨_, s₅, resized, bind_eq_ok.mpr ⟨some a, s₅, ?_, rfl⟩⟩
        exact ask_eq_ok.mpr ⟨known, rfl⟩
      obtain ⟨z, measured⟩ := sizeOf_setSize known
      have allowed := scaled ⟨rfl, _, _, z, made, measured⟩
      refine setSize_composes ?_ s₅ sound
      rintro x ⟨⟩
      exact .product allowed (sound.sizeOf known a rfl) (lengths count rfl)

/-- The size of such an array is a product. -/
theorem makeArray_scaled {s : Store} {element : TypeRef} {length : Option Expr}
    (sizes : ∀ x ∈ size, Composed given products x) (scales : Scales s name element length size)
    (sound : s.Sound given products) :
    ∃ count t e a, length = some count ∧
      (makeArray name element length size s).2.entryOf t = some e ∧ e.form = .array element length ∧
      e.size = some (severalSize count a) ∧ Composed given products a := by
  obtain ⟨told, t, s', x, made, measured⟩ := scales
  obtain ⟨count, rfl⟩ := Option.isSome_iff_exists.mp told
  rw [made]
  obtain ⟨new, s₁, pushed, rest⟩ := bind_eq_ok.mp made
  obtain ⟨_, s₂, sized, rest⟩ := bind_eq_ok.mp rest
  obtain ⟨_, s₃, equality, rest⟩ := bind_eq_ok.mp rest
  obtain ⟨_, s₄, indexed, rest⟩ := bind_eq_ok.mp rest
  obtain ⟨_, s₅, resized, rest⟩ := bind_eq_ok.mp rest
  obtain ⟨m, _, asked, rest⟩ := bind_eq_ok.mp rest
  obtain ⟨known, rfl⟩ := ask_eq_ok.mp asked
  have grows : s₁.Grows s₄ := (((implementTrait_grows _ _ _).of_eq sized).trans
    ((implementTrait_grows _ _ _).of_eq equality)).trans ((implementTrait_grows _ _ _).of_eq indexed)
  have sound₁ := (makeType_composes (.array element (some count)) (by simp)).of_eq pushed sound
  have sound₂ := (implementTrait_composes _ _).of_eq sized sound₁
  have sound₃ := (implementTrait_composes _ _).of_eq equality sound₂
  have sound₄ := (implementTrait_composes _ _).of_eq indexed sound₃
  have sound₅ := (setSize_composes sizes).of_eq resized sound₄
  cases m with
  | none =>
    obtain ⟨rfl, rfl⟩ := pure_eq_ok.mp rest
    rw [known] at measured
    cases measured
  | some a =>
    obtain ⟨_, _, scaled, rest⟩ := bind_eq_ok.mp rest
    obtain ⟨rfl, rfl⟩ := pure_eq_ok.mp rest
    obtain rfl := update_eq_ok.mp scaled
    obtain rfl := update_eq_ok.mp resized
    obtain ⟨rfl, given, -, rfl⟩ := makeType_eq_ok pushed
    have looks := (s.looks_push (.array element (some count)) given none).grows grows
    obtain ⟨e, entry, form, size, -⟩ := (looks.setSize _).setSize (some (severalSize count a))
    exact ⟨count, _, e, a, rfl, entry, form, size, sound₅.sizeOf known a rfl⟩

theorem makeStruct_composes (name : Option String) (fields : List Field)
    (constraints actions : List Expr) :
    Composes given products (makeStruct name fields constraints actions) := by
  refine (makeType_composes _ (by simp)).bind fun t => ?_
  refine (implementTrait_composes _ _).bind fun _ => (setSize_composes ?_).bind fun _ => ?_
  · rintro x ⟨⟩
    exact .known _
  · refine (Keeps.each fun f _ => addField_composes f).bind fun _ => ?_
    refine (Keeps.each fun x _ => addConstraint_composes x).bind fun _ => ?_
    refine (Keeps.each fun x _ => addAction_composes x).bind fun _ => ?_
    exact (implementTrait_composes _ _).bind fun _ => keeps_pure t

theorem makeEnum_composes (name : Option String) (variants : List TypeRef) :
    Composes given products (makeEnum name variants) := by
  refine (makeType_composes _ (by simp)).bind fun t => ?_
  exact (implementTrait_composes _ _).bind fun _ => keeps_pure t

theorem addType_composes (t : TypeRef) : Composes given products (addType t) := by
  refine (addType_changes t).keeps ?_
  rintro s _ ⟨name, -, -, rfl⟩ sound
  exact ⟨sound.sizes, sound.number, sound.context, sound.slots⟩

theorem definePdu_composes (name : String) : Composes given products (definePdu name) := by
  refine (definePdu_changes name).keeps ?_
  rintro s _ ⟨t, -, -, rfl⟩ sound
  exact ⟨sound.sizes, sound.number, sound.context, sound.slots⟩

theorem setProtocolName_composes (name : String) :
    Composes given products (setProtocolName name) := by
  refine (setProtocolName_changes name).keeps ?_
  rintro s _ ⟨-, rfl⟩ sound
  exact sound.modifyEntry (fun _ => id) (fun _ => ⟨rfl, rfl, rfl⟩) fun _ _ => rfl

theorem completing_composes : Completing (Keeping (Store.Sound given products)) where
  option name t := makeOption_composes name t
  size s e total t sum summed _ known sound := by
    refine setSize_composes ?_ s sound
    rintro x ⟨⟩
    exact .rest (sound.sumSizes summed sum known)
  parseFrom _ _ _ sound :=
    sound.modifyEntry (fun _ => id) (fun _ => ⟨rfl, rfl, rfl⟩) fun _ _ => rfl
  serialiseTo _ _ _ sound :=
    sound.modifyEntry (fun _ => id) (fun _ => ⟨rfl, rfl, rfl⟩) fun _ _ => rfl

theorem derive_composes (source : TypeRef) (name : String) (traits : List Trait) :
    Composes given products (derive source name traits) := by
  refine derive_keeps (fun s e entry sound => ?_) (fun _ trait => implementTrait_composes trait [])
    traits
  have composed := sound.entryOf entry
  have shared : Store.Sound given products { s with entries := _, groups := s.groups ++ [] } :=
    sound.append (e := { e with name := some name }) composed
  rwa [append_nil] at shared

theorem sound_initial : Store.initial.Sound given products := by
  have foundation : Store.foundation.Sound given products := by
    refine ⟨?_, ⟨_, rfl, rfl, rfl, rfl⟩, ⟨_, rfl, rfl, rfl⟩, ⟨_, rfl, rfl⟩⟩
    intro e mem x sized
    have zero : x = constantSize (.int 0) := by
      revert e x
      simp [Store.foundation, primitiveEntry]
    rw [zero]
    exact .known _
  have unit : ∀ x ∈ some dataSizeExpr, Composed given products x := by
    rintro x ⟨⟩
    exact .data
  have made : Composes given products
      (makeBitString (some "DataUnit") (some dataSizeExpr) >>= addType) :=
    (makeBitString_composes unit).bind addType_composes
  exact made .foundation foundation

end Changes

/-! ## Sizes that stay -/

/-- Types that have a size keep it, structures apart. -/
def Store.Settles (s s' : Store) : Prop :=
  ∀ t e, s.entryOf t = some e → e.size ≠ none → e.form ≠ .struct →
    ∃ e', s'.entryOf t = some e' ∧ e'.form = e.form ∧ e'.size = e.size

section Settles

variable {s s' : Store}

instance : IsPreorder Store Store.Settles where
  refl _ _ e entry _ _ := ⟨e, entry, rfl, rfl⟩
  trans _ _ _ first second t e entry sized other := by
    obtain ⟨e', entry', form, size⟩ := first t e entry sized other
    obtain ⟨e'', entry'', form', size'⟩ := second t e' entry' (size ▸ sized) (form ▸ other)
    exact ⟨e'', entry'', form'.trans form, size'.trans size⟩

theorem Store.Grows.settles (grows : s.Grows s') : s.Settles s' := by
  intro t e entry _ _
  obtain ⟨e', entry', form, size, -⟩ := grows.entryOf t e entry
  exact ⟨e', entry', form, size⟩

theorem Store.Fills.settles (fills : s.Fills s') : s.Settles s' := by
  intro t e entry sized _
  obtain ⟨e', entry', own⟩ := fills.entryOf t e entry
  exact ⟨e', entry', own.form, own.size.resolve_left sized⟩

theorem Makes.settles {form : Form} {make : Change TypeRef}
    (makes : Makes methods fields form name make) : Keeps Store.Settles make := by
  intro s
  obtain ⟨fault, outcome⟩ | ⟨given, size, result, s', -, outcome, edits, -⟩ := makes s
  · rw [outcome]
    exact refl_of _ s
  · rw [outcome]
    obtain ⟨e, ms, made⟩ := Made.of_edits edits
    intro t old entry _ _
    exact ⟨old, made.entryOf_old entry, rfl, rfl⟩

theorem Edit.entryOf_ne {t u : TypeRef} (edit : Edit methods fields t s s') (other : t ≠ u) :
    s'.entryOf u = s.entryOf u := by
  cases edit with
  | method | size | parseFrom | serialiseTo => exact Store.entryOf_modifyEntry_ne _ other
  | trait | field | slot | constraint | action =>
    cases u with
    | id n => exact congrArg (·[n]?) (Store.entries_modifyMembers s t _)
    | _ => rfl

/-- Editing a structure leaves all other types as they are. -/
theorem Edits.settles {t : TypeRef} {e : Entry} (edits : Edits methods fields t s s')
    (entry : s.entryOf t = some e) (struct : e.form = .struct) : s.Settles s' := by
  intro u old entry' _ form
  have other : t ≠ u := by
    rintro rfl
    cases entry.symm.trans entry'
    exact form struct
  refine ⟨old, ?_, rfl, rfl⟩
  induction edits with
  | refl => exact entry'
  | tail _ edit ih => rw [edit.entryOf_ne other, ih]

theorem addField_settles (t : TypeRef) (field : Field) : Keeps Store.Settles (addField t field) := by
  refine addField_keeps (fun s e entry form => ?_)
    fun s => (addSlot_grows t field.name field.type s).settles
  have edits : Edits [] [field] t s (addStructField t e field s).2 :=
    addStructField_edits entry form mem_cons_self
  exact edits.settles entry form

theorem addType_settles (t : TypeRef) : Keeps Store.Settles (addType t) := by
  refine (addType_changes t).keeps ?_
  rintro s _ ⟨name, -, -, rfl⟩ u e entry _ _
  exact ⟨e, entry, rfl, rfl⟩

theorem derive_settles (source : TypeRef) (name : String) (traits : List Trait) :
    Keeps Store.Settles (derive source name traits) := by
  refine derive_keeps (fun s e _ t old entry _ _ => ?_)
    (fun _ _ s => (implementTrait_grows _ _ _ s).settles) traits
  obtain ⟨m, rfl, bound⟩ := Store.entryOf_eq_some entry
  exact ⟨old, (List.getElem?_append_left bound).trans entry, rfl, rfl⟩

end Settles

/-! ## Types of such sizes -/

namespace Store

/-- A fault of an operand is one of the whole. -/
theorem resultType_binary (s : Store) (c : TypeRef) (a b : Expr) (op : String) :
    s.resultType c (.method a op [("other", b)]) = (do
      let u ← s.resultType c b
      let t ← s.resultType c a
      let m ← s.getMethod t op
      if ← s.methodAccepts m t [("other", u)] then closedResult (.methodResultOpen op) m.result
      else throw (.typing (.methodArguments op))) := by
  simp only [resultType, argumentTypes, bind_assoc, pure_bind]
  rfl

/-- The fault of a product: numbers have no method of this name. -/
def noProduct (s : Store) : Fault :=
  .typing (.noMethod (s.shown .number) "mul")

namespace Sound

variable {s : Store} {c : TypeRef}

section

variable (sound : s.Sound given products)

include sound

theorem getMethod_number {name : String} {m : Signature} (found : numberMethods.lookup name = some m) :
    s.getMethod .number name = .ok m := by
  obtain ⟨e, entry, number⟩ := sound.number
  have known : s.entryOf .number = some e := entry
  unfold Store.getMethod
  rw [methodWithin, known]
  simp only [number.methods, number.parent, found]
  rfl

theorem getMethod_number_none {name : String} (missing : numberMethods.lookup name = none) :
    s.getMethod .number name = .error (.typing (.noMethod (s.shown .number) name)) := by
  obtain ⟨e, entry, number⟩ := sound.number
  have known : s.entryOf .number = some e := entry
  unfold Store.getMethod
  rw [methodWithin, known]
  simp only [number.methods, number.parent, missing]
  rfl

theorem resultType_data : s.resultType c dataSizeExpr = .ok .number := by
  obtain ⟨e, entry, form, group⟩ := sound.context
  obtain ⟨ms, members, found⟩ := sound.slots
  have known : s.entryOf .context = some e := entry
  show s.fieldType .context dataSize = .ok .number
  simp only [fieldType, known, form, Store.members, group, members, Option.getD_some, found]

/-- Sums and differences of numbers are numbers. -/
theorem resultType_operation {a b : Expr} {op : String} (found : numberMethods.lookup op
      = some ⟨op, [⟨"self", .number⟩, ⟨"other", .number⟩], .number⟩)
    (first : s.resultType c a = .ok .number ∨ products ∧ s.resultType c a = .error s.noProduct)
    (second : s.resultType c b = .ok .number ∨ products ∧ s.resultType c b = .error s.noProduct) :
    s.resultType c (.method a op [("other", b)]) = .ok .number ∨
      products ∧ s.resultType c (.method a op [("other", b)]) = .error s.noProduct := by
  rw [resultType_binary]
  rcases second with number' | ⟨allowed, fault⟩
  · rcases first with number | ⟨allowed, fault⟩
    · refine .inl ?_
      have own : s.same .number .number = true := sameWithin_refl s _ _
      have accepted : s.methodAccepts ⟨op, [⟨"self", .number⟩, ⟨"other", .number⟩], .number⟩ .number
          [("other", .number)] = .ok true := by
        simp only [methodAccepts, Signature.isMethod, accepts, own]
        rfl
      simp only [number, number', sound.getMethod_number found, bind, Except.bind, accepted]
      rfl
    · exact .inr ⟨allowed, by simp only [number', fault, bind, Except.bind]⟩
  · exact .inr ⟨allowed, by simp only [fault, bind, Except.bind]⟩

/-- A product of numbers has no type. -/
theorem resultType_product {a count : Expr}
    (one : s.resultType c a = .ok .number ∨ products ∧ s.resultType c a = .error s.noProduct)
    (several : s.resultType c count = .ok .number) :
    s.resultType c (severalSize count a) = .error s.noProduct := by
  have missing : numberMethods.lookup "mul" = none := by decide
  rw [severalSize, resultType_binary]
  rcases one with number | ⟨-, fault⟩
  · simp only [several, number, sound.getMethod_number_none missing, bind, Except.bind, noProduct]
  · simp only [several, fault, bind, Except.bind]

/-- A size that is put together from numbers is a number, unless there is a product in it. -/
theorem resultType_composed (typed : ∀ x, given x → s.resultType c x = .ok .number) {x : Expr}
    (composed : Composed given products x) :
    s.resultType c x = .ok .number ∨ products ∧ s.resultType c x = .error s.noProduct := by
  induction composed with
  | given own => exact .inl (typed _ own)
  | known v => exact .inl rfl
  | data => exact .inl sound.resultType_data
  | sum _ _ first second => exact sound.resultType_operation (by decide) first second
  | rest _ taken => exact sound.resultType_operation (by decide) (.inl sound.resultType_data) taken
  | product allowed _ several one =>
    exact .inr ⟨allowed, sound.resultType_product one (typed _ several)⟩

end

end Sound

end Store

/-! ## Runs -/

/-- What can be done to a protocol: the calls, and making a type like another one. -/
inductive Act where
  | call (c : Call)
  | derive (source : TypeRef) (name : String) (traits : List Trait)

namespace Act

/-- The store after an act, whether or not it fails. -/
def after (s : Store) : Act → Store
  | .call c => c.after s
  | .derive source name traits => (Protocol.derive source name traits s).2

/-- The store after some acts on a new protocol. -/
def run (acts : List Act) : Store :=
  acts.foldl after .initial

/-- The sizes and lengths that are given. -/
def supplied : Act → List Expr
  | .call (.bitString _ size) => size.toList
  | .call (.array _ _ length size) => length.toList ++ size.toList
  | _ => []

/-- An array with a length is made of elements that have a size. -/
def Multiplies (s : Store) : Act → Prop
  | .call (.array name element length size) => Scales s name element length size
  | _ => False

theorem sound_after {s : Store} {act : Act} (own : ∀ x ∈ act.supplied, given x)
    (allowed : act.Multiplies s → products) (sound : s.Sound given products) :
    (act.after s).Sound given products := by
  cases act with
  | derive source name traits => exact derive_composes source name traits s sound
  | call c =>
    cases c with
    | bitString name size =>
      exact makeBitString_composes (fun x mem => .given (own x (Option.mem_toList.mpr mem))) s sound
    | option name reference => exact makeOption_composes name reference s sound
    | array name element length size =>
      refine makeArray_composes (fun x mem => own x ?_) (fun x mem => own x ?_) allowed sound
      · exact mem_append_left _ (Option.mem_toList.mpr mem)
      · exact mem_append_right _ (Option.mem_toList.mpr mem)
    | struct name fields constraints actions =>
      exact makeStruct_composes name fields constraints actions s sound
    | enum name variants => exact makeEnum_composes name variants s sound
    | function name parameters result => exact makeType_composes _ (by simp) s sound
    | context name => exact makeType_composes _ (by simp) s sound
    | implementTrait t trait vars => exact implementTrait_composes trait vars s sound
    | addField t field => exact addField_composes field s sound
    | addSlot t name type => exact addSlot_composes name type s sound
    | addConstraint t x => exact addConstraint_composes x s sound
    | addAction t x => exact addAction_composes x s sound
    | addType t => exact addType_composes t s sound
    | definePdu name => exact definePdu_composes name s sound
    | setProtocolName name => exact setProtocolName_composes name s sound
    | synthesise => exact completing_composes.keeps_synthesise s sound

theorem settles_after (s : Store) (act : Act) : s.Settles (act.after s) := by
  cases act with
  | derive source name traits => exact derive_settles source name traits s
  | call c =>
    cases c with
    | bitString name size => exact (makeBitString_makes name size).settles s
    | option name reference => exact (makeOption_makes name reference).settles s
    | array name element length size => exact (makeArray_makes name element length size).settles s
    | struct name fields constraints actions =>
      exact (makeStruct_makes name fields constraints actions).settles s
    | enum name variants => exact (makeEnum_makes name variants).settles s
    | function name parameters result => exact (makeType_makes _ name none).settles s
    | context name => exact (makeType_makes _ name none).settles s
    | implementTrait t trait vars => exact (implementTrait_grows t trait vars s).settles
    | addField t field => exact addField_settles t field s
    | addSlot t name type => exact (addSlot_grows t name type s).settles
    | addConstraint t x => exact (addConstraint_grows t x s).settles
    | addAction t x => exact (addAction_grows t x s).settles
    | addType t => exact addType_settles t s
    | definePdu name => exact (definePdu_grows name s).settles
    | setProtocolName name => exact (setProtocolName_grows name s).settles
    | synthesise => exact (synthesise_fills s).settles

/-- Somewhere in a run an array with a length is made of elements that have a size. -/
def Multiplied (acts : List Act) : Prop :=
  ∃ before act later, acts = before ++ act :: later ∧ act.Multiplies (run before)

theorem run_append (before later : List Act) : run (before ++ later) = later.foldl after (run before) :=
  foldl_append

theorem sound_run (acts : List Act) (own : ∀ act ∈ acts, ∀ x ∈ act.supplied, given x)
    (allowed : Multiplied acts → products) : (run acts).Sound given products := by
  induction acts using List.reverseRecOn with
  | nil => exact sound_initial
  | append_singleton acts act ih =>
    rw [forall_mem_append, forall_mem_singleton] at own
    rw [run_append]
    refine sound_after own.2 (fun multiplies => ?_) (ih own.1 fun multiplied => ?_)
    · exact allowed ⟨acts, act, [], rfl, multiplies⟩
    · obtain ⟨before, act', later, split, multiplies⟩ := multiplied
      exact allowed ⟨before, act', later ++ [act], by simp [split], multiplies⟩

theorem settles_foldl (s : Store) (acts : List Act) : s.Settles (acts.foldl after s) := by
  induction acts generalizing s with
  | nil => exact refl_of _ s
  | cons act acts ih => exact trans_of _ (settles_after s act) (ih _)

/-- An array that is made in a run has a product as its size ever after. -/
theorem product_of_multiplied {acts : List Act} (own : ∀ act ∈ acts, ∀ x ∈ act.supplied, given x)
    (multiplied : Multiplied acts) :
    ∃ e ∈ (run acts).entries, ∃ count a, e.size = some (severalSize count a) ∧ given count ∧
      Composed given True a := by
  obtain ⟨before, act, later, rfl, multiplies⟩ := multiplied
  rw [forall_mem_append, forall_mem_cons] at own
  have sound : (run before).Sound given True := sound_run before own.1 fun _ => trivial
  cases act with
  | derive => cases multiplies
  | call c =>
    cases c with
    | array name element length size =>
      have sizes : ∀ x ∈ size, Composed given True x := fun x mem =>
        .given (own.2.1 x (mem_append_right _ (Option.mem_toList.mpr mem)))
      obtain ⟨count, t, e, a, rfl, entry, form, product, composed⟩ :=
        makeArray_scaled sizes multiplies sound
      have settles := settles_foldl (after (run before) (.call (.array name element (some count) size)))
        later
      obtain ⟨e', entry', -, kept⟩ := settles t e entry (by simp [product]) (by simp [form])
      obtain ⟨n, rfl, -⟩ := Store.entryOf_eq_some entry'
      rw [run_append]
      exact ⟨e', mem_of_getElem? entry', count, a, kept.trans product,
        own.2.1 count (mem_append_left _ (Option.mem_toList.mpr rfl)), composed⟩
    | _ => cases multiplies

/-- If all sizes and lengths that are given in a run are numbers, then so are all sizes that are put
together from them, but for those that come from an array that is told its length and is made of
elements that have a size: these have no type, since numbers have no method under the name that such
sizes use. So all sizes are numbers if and only if no such array is made. -/
theorem sizes_typed_iff (c : TypeRef) (acts : List Act)
    (typed : ∀ act ∈ acts, ∀ x ∈ act.supplied, (run acts).resultType c x = .ok .number) :
    (∀ e ∈ (run acts).entries, ∀ x ∈ e.size, (run acts).resultType c x = .ok .number ∨
      (run acts).resultType c x = .error (run acts).noProduct) ∧
    ((∀ e ∈ (run acts).entries, ∀ x ∈ e.size, (run acts).resultType c x = .ok .number) ↔
      ¬ Multiplied acts) := by
  have sound : (run acts).Sound _ (Multiplied acts) := sound_run acts typed id
  have composed := fun e mem x size =>
    sound.resultType_composed (fun _ => id) (sound.sizes e mem x size)
  refine ⟨fun e mem x size => (composed e mem x size).imp_right And.right, ?_, ?_⟩
  · intro all multiplied
    obtain ⟨e, mem, count, a, size, several, one⟩ := product_of_multiplied typed multiplied
    have sound' : (run acts).Sound _ True := sound_run acts typed fun _ => trivial
    have fault := sound'.resultType_product (sound'.resultType_composed (fun _ => id) one) several
    rw [all e mem _ size] at fault
    cases fault
  · intro none e mem x size
    exact (composed e mem x size).resolve_right fun product => none product.1

/-- A packet whose body is as long as one of its fields says, a packet with a rest, an optional packet
and a packet derived from the first: all sizes are numbers. -/
theorem sizes_typed_packets :
    let octet := Act.call (.bitString (some "Octet") (some (constantSize (.int 8))))
    let length := Expr.method (.field .self "len") "to_number" []
    let acts := [octet, .call (.bitString (some "Body") (some length)),
      .call (.struct (some "Packet")
        [⟨"len", .id 6, .const .boolean (.flag true)⟩, ⟨"body", .id 7, .const .boolean (.flag true)⟩]
        [] []),
      .call (.array (some "Items") (.id 6) none none),
      .call (.struct (some "Frame")
        [⟨"code", .id 6, .const .boolean (.flag true)⟩, ⟨"items", .id 9, .const .boolean (.flag true)⟩]
        [] []),
      .call (.option (some "Maybe") (.id 8)), .derive (.id 8) "Other" [],
      .call (.addType (.id 10)), .call .synthesise]
    (∀ act ∈ acts, ∀ x ∈ act.supplied, (run acts).resultType (.id 8) x = .ok .number) ∧
      ∀ e ∈ (run acts).entries, ∀ x ∈ e.size, (run acts).resultType (.id 8) x = .ok .number := by
  intro octet length acts
  have typed : ∀ act ∈ acts, ∀ x ∈ act.supplied, (run acts).resultType (.id 8) x = .ok .number := by
    have all : acts.flatMap supplied = [constantSize (.int 8), length] := rfl
    intro act mem x own
    have own' : x ∈ acts.flatMap supplied := mem_flatMap.mpr ⟨act, mem, own⟩
    rw [all] at own'
    rcases mem_pair.mp own' with rfl | rfl
    · rfl
    · decide +kernel
  have none : ∀ act ∈ acts, ∀ s, ¬ act.Multiplies s := by
    simp [acts, octet, Multiplies, Scales]
  refine ⟨typed, (sizes_typed_iff (.id 8) acts typed).2.mpr ?_⟩
  rintro ⟨before, act, later, split, multiplies⟩
  exact none act (split ▸ by simp) _ multiplies

/-- Three octets in an array: the size of the array has no type. -/
theorem product_untyped :
    let acts := [Act.call (.bitString (some "Octet") (some (constantSize (.int 8)))),
      .call (.array (some "Octets") (.id 6) (some (constantSize (.int 3))) none)]
    let product := severalSize (constantSize (.int 3)) (constantSize (.int 8))
    (∀ act ∈ acts, ∀ x ∈ act.supplied, (run acts).resultType .absent x = .ok .number) ∧
      (run acts).sizeOf (.id 7) = .ok (some product) ∧
      (run acts).resultType .absent product = .error (run acts).noProduct := by
  intro acts product
  refine ⟨?_, rfl, rfl⟩
  simp [acts, supplied, constantSize, Store.resultType]

end Act

end PacketDraft.Protocol
