import PacketDraft.Proofs.Protocol.Completion

/-!
# What the remainder adds up to

The one field of a structure that has no size is given what the other fields leave over of the data.
Sizes have a value once every part that is not a sum, a difference, an integer or the size of the
data has been given one. The main result: with the remainder, the sizes of all fields add up to the
size of the data, whatever these values are. Constants in front are added up at once, which is exact
for integers only.
-/

namespace PacketDraft.Protocol

open Attempt List

/-! ## Values of sizes -/

namespace Expr

/-- The value of a size, where `other` tells the values of the parts that are not looked into. -/
def value (dataSize : Int) (other : Expr → Int) : Expr → Int
  | .const t v => v.int?.getD (other (.const t v))
  | .ctx name context =>
    if name = Protocol.dataSize ∧ context = .context then dataSize else other (.ctx name context)
  | .method a "plus" [("other", b)] => a.value dataSize other + b.value dataSize other
  | .method a "minus" [("other", b)] => a.value dataSize other - b.value dataSize other
  | e => other e

/-- The values of sizes together. -/
def total (dataSize : Int) (other : Expr → Int) : List Expr → Int
  | [] => 0
  | x :: xs => x.value dataSize other + total dataSize other xs

/-- Whether a size is known. -/
def isConst : Expr → Bool
  | .const _ _ => true
  | _ => false

/-- Whether a size is a known integer. -/
def isInteger : Expr → Bool
  | .const _ v => v.int?.isSome
  | _ => false

/-- Where several sizes in front are known, they are integers. -/
def FrontExact (xs : List Expr) : Prop :=
  2 ≤ (xs.takeWhile isConst).length → ∀ x ∈ xs.takeWhile isConst, x.isInteger = true

@[simp]
theorem isConst_const (t : TypeRef) (v : Literal) : (Expr.const t v).isConst = true := rfl

variable {dataSize : Int} {other : Expr → Int}

@[simp]
theorem value_plus (a b : Expr) :
    (Expr.method a "plus" [("other", b)]).value dataSize other
      = a.value dataSize other + b.value dataSize other := by
  simp [value]

@[simp]
theorem value_remainder (sum : Expr) :
    (remainder sum).value dataSize other = dataSize - sum.value dataSize other := by
  simp [remainder, value, dataSizeExpr]

theorem total_append (xs ys : List Expr) :
    total dataSize other (xs ++ ys) = total dataSize other xs + total dataSize other ys := by
  induction xs with
  | nil => simp [total]
  | cons x xs ih => simp [total, ih, Int.add_assoc]

end Expr

theorem Literal.add_of_int {x y : Literal} {m n : Int} (left : x.int? = some m)
    (right : y.int? = some n) : x.add y = .ok (.int (m + n)) := by
  cases x <;> cases y <;> simp_all [Literal.add, Literal.int?]

variable {dataSize : Int} {other : Expr → Int}

/-- Two sizes are added up exactly, unless they are known and one is not an integer. -/
theorem addSizes_value {a b c : Expr} (added : addSizes a b = .ok c)
    (integers : a.isConst = true → b.isConst = true → a.isInteger = true ∧ b.isInteger = true) :
    c.value dataSize other = a.value dataSize other + b.value dataSize other ∧
      (c.isConst = true → a.isConst = true ∧ b.isConst = true ∧ c.isInteger = true) := by
  by_cases known : a.isConst = true ∧ b.isConst = true
  · obtain ⟨left, right⟩ := integers known.1 known.2
    cases a with
    | const t x =>
      cases b with
      | const u y =>
        obtain ⟨m, left⟩ := Option.isSome_iff_exists.mp left
        obtain ⟨n, right⟩ := Option.isSome_iff_exists.mp right
        rw [addSizes, Literal.add_of_int left right] at added
        cases added
        have whole : (Literal.int (m + n)).int? = some (m + n) := rfl
        simp [Expr.value, left, right, whole, Expr.isConst, Expr.isInteger, constantSize]
      | _ => simp [Expr.isConst] at known
    | _ => simp [Expr.isConst] at known
  · have joined : addSizes a b = .ok (.method a "plus" [("other", b)]) := by
      cases a <;> cases b <;> first | rfl | simp [Expr.isConst] at known
    rw [joined] at added
    cases added
    exact ⟨Expr.value_plus a b, fun impossible => by simp [Expr.isConst] at impossible⟩

theorem addUp_some_value {a sum : Expr} {xs : List Expr}
    (added : addUp (some a) xs = .ok (some sum))
    (integers : a.isConst = true → ∀ x ∈ xs.takeWhile Expr.isConst,
      a.isInteger = true ∧ x.isInteger = true) :
    sum.value dataSize other = a.value dataSize other + Expr.total dataSize other xs := by
  induction xs generalizing a with
  | nil =>
    cases added
    simp [Expr.total]
  | cons x xs ih =>
    obtain ⟨b, first, rest⟩ := exceptBind_eq_ok.mp added
    have front : a.isConst = true → x.isConst = true → a.isInteger = true ∧ x.isInteger = true := by
      intro left right
      exact integers left x (by simp [right])
    obtain ⟨exact_, known⟩ := addSizes_value first front
    rw [ih rest ?_, exact_, Expr.total, Int.add_assoc]
    intro constant y mem
    obtain ⟨left, right, integer⟩ := known constant
    exact ⟨integer, (integers left y (by simp [right, mem])).2⟩

/-- Sizes are added up exactly if those that are added up at once are integers. -/
theorem addUp_value {sum : Expr} {xs : List Expr} (added : addUp none xs = .ok (some sum))
    (front : Expr.FrontExact xs) :
    sum.value dataSize other = Expr.total dataSize other xs := by
  cases xs with
  | nil => cases added
  | cons x xs =>
    refine addUp_some_value added fun constant y mem => ?_
    have several : 2 ≤ ((x :: xs).takeWhile Expr.isConst).length := by
      simp only [takeWhile_cons, constant, if_true, length_cons]
      exact Nat.succ_le_succ (length_pos_of_mem mem)
    have integers := front several
    simp only [takeWhile_cons, constant, if_true, forall_mem_cons] at integers
    exact ⟨integers.1, integers.2 y mem⟩

/-! ## The size that is filled in -/

variable {s s' : Store} {t u : TypeRef} {fields front back : List Field} {f : Field}
  {xs ys : List Expr}

/-- Only the types of its fields get a size when a type is completed, and not that of its only
field. -/
theorem Fill.sizeOf (fill : Fill t fields s s') (others : ∀ g ∈ fields, g.type = u → fields = [g])
    {size : Option Expr} (known : s.sizeOf u = .ok size) : s'.sizeOf u = .ok size := by
  obtain ⟨e, entry, sent, sized⟩ := Store.sizeOf_eq_ok.mp known
  have modified {v : TypeRef} {g : Entry → Entry}
      (same : v = u → (g e).form = e.form ∧ (g e).size = e.size) :
      (s.modifyEntry v g).sizeOf u = .ok size := by
    by_cases own : v = u
    · obtain ⟨form, size⟩ := same own
      subst own
      exact Store.sizeOf_eq_ok.mpr ⟨g e, Store.entryOf_modifyEntry_self g entry, form ▸ sent,
        size.trans sized⟩
    · exact Store.sizeOf_eq_ok.mpr
        ⟨e, (Store.entryOf_modifyEntry_ne g own).trans entry, sent, sized⟩
  cases fill with
  | option made => exact Store.sizeOf_eq_ok.mpr ⟨e, made.entryOf_old entry, sent, sized⟩
  | parseFrom => exact modified fun _ => ⟨rfl, rfl⟩
  | serialiseTo => exact modified fun _ => ⟨rfl, rfl⟩
  | size sum field several empty => exact modified fun own => absurd (others _ field own) several

theorem Filling.sizeOf (filling : Filling t fields s s')
    (others : ∀ g ∈ fields, g.type = u → fields = [g]) {size : Option Expr}
    (known : s.sizeOf u = .ok size) : s'.sizeOf u = .ok size := by
  induction filling with
  | refl => exact known
  | tail _ fill ih => exact fill.sizeOf others ih

/-- A type keeps its size while types are completed that have no such field or no other field. -/
theorem each_completeType_sizeOf {ts : List TypeRef}
    (others : ∀ v ∈ ts, ∀ g ∈ s.fieldsOf v, g.type = u → s.fieldsOf v = [g]) {size : Option Expr}
    (known : s.sizeOf u = .ok size) (outcome : each completeType ts s = (.ok (), s')) :
    s'.sizeOf u = .ok size := by
  induction ts generalizing s with
  | nil =>
    cases outcome
    exact known
  | cons v ts ih =>
    obtain ⟨_, s₁, first, rest⟩ := bind_eq_ok.mp outcome
    have filling := (completeType_achieves v s).filling
    rw [first] at filling
    refine ih ?_ (filling.sizeOf (others v mem_cons_self) known) rest
    intro w mem
    rw [filling.fills.fieldsOf w]
    exact others w (mem_cons_of_mem v mem)

theorem Store.struct_of_mem_fieldsOf (mem : f ∈ s.fieldsOf t) :
    ∃ e, s.entryOf t = some e ∧ e.form = .struct := by
  cases entry : s.entryOf t with
  | none => simp [fieldsOf, entry] at mem
  | some e =>
    by_cases struct : e.form = .struct
    · exact ⟨e, rfl, struct⟩
    · rw [fieldsOf_other entry struct] at mem
      cases mem

/-- A structure gets its functions first, and no field gets a size by that. -/
theorem completeType_struct_eq_ok {e : Entry} (entry : s.entryOf t = some e)
    (struct : e.form = .struct) (outcome : completeType t s = (.ok (), s')) :
    ∃ u, Filling t [] s u ∧ completeSizes e u = (.ok (), s') := by
  unfold completeType at outcome
  rw [read_bind] at outcome
  simp only [entry, struct, Form.isParsed, if_true] at outcome
  obtain ⟨_, u, functions, sizes⟩ := bind_eq_ok.mp outcome
  have filling : Filling t [] s _ := (completeFunctions_achieves entry).filling
  rw [functions] at filling
  exact ⟨u, filling, sizes⟩

/-- The one field without a size gets what the others leave over. -/
theorem completeSizes_of_open {e : Entry} (split : s.Open (s.members e).fields front f back xs ys)
    (others : xs ++ ys ≠ []) (outcome : completeSizes e s = (.ok (), s')) :
    ∃ sum, addUp none (xs ++ ys) = .ok (some sum) ∧
      s' = s.modifyEntry f.type fun e => { e with size := some (remainder sum) } := by
  rw [completeSizes] at outcome
  obtain ⟨total, _, asked, rest⟩ := bind_eq_ok.mp outcome
  obtain ⟨summed, rfl⟩ := ask_eq_ok.mp asked
  rw [split.sumSizes] at summed
  obtain ⟨sum, added, whole⟩ := exceptBind_eq_ok.mp summed
  cases whole
  cases sum with
  | none => exact absurd (addUp_none_eq_none added) others
  | some sum => exact ⟨sum, added, (update_eq_ok.mp rest).symm⟩

theorem Store.Open.of_fills (split : s.Open fields front f back xs ys) (fills : s.Fills s')
    (unsized : s'.sizeOf f.type = .ok none) : s'.Open fields front f back xs ys :=
  ⟨split.split, fills.sized split.before, unsized, fills.sized split.after⟩

/-- When a structure is completed for the first time, a type that is not the type of a field of
another structure has the size that it had. -/
theorem synthesise_turn {name : String} {e : Entry} (outcome : synthesise s = (.ok (), s'))
    (registered : (name, t) ∈ s.types) (entry : s.entryOf t = some e) (struct : e.form = .struct) :
    ∃ (e' : Entry) (w v : Store), s.Fills w ∧ s.fieldsOf t = (w.members e').fields ∧
      (∀ u size, (∀ p ∈ s.types, p.2 ≠ t → ∀ g ∈ s.fieldsOf p.2, g.type ≠ u) →
        s.sizeOf u = .ok size → w.sizeOf u = .ok size) ∧
      completeSizes e' w = (.ok (), v) ∧ v.Fills s' := by
  obtain ⟨before, after, types, first⟩ :=
    eq_append_cons_of_mem (mem_map_of_mem (f := Prod.snd) registered)
  have run : each completeType (s.types.map Prod.snd) s = (.ok (), s') := outcome
  rw [types] at run
  obtain ⟨u, earlier, rest⟩ := each_append_eq_ok.mp run
  obtain ⟨_, v, completed, later⟩ := bind_eq_ok.mp rest
  have fills : s.Fills u := (Keeps.each fun w _ => completeType_fills w).of_eq earlier
  obtain ⟨e', entry', own⟩ := fills.entryOf t e entry
  obtain ⟨w, filling, sizes⟩ :=
    completeType_struct_eq_ok entry' (own.form.trans struct) completed
  refine ⟨e', w, v, fills.trans filling.fills, ?_, ?_, sizes,
    (Keeps.each fun w _ => completeType_fills w).of_eq later⟩
  · rw [← fills.fieldsOf, Store.fieldsOf_struct entry' (own.form.trans struct)]
    exact (filling.fills.fields e'.group).symm
  · intro c size others known
    refine filling.sizeOf (by simp) (each_completeType_sizeOf (fun w mem => ?_) known earlier)
    have listed : w ∈ s.types.map Prod.snd := types ▸ mem_append_left _ mem
    obtain ⟨p, mem', rfl⟩ := mem_map.mp listed
    exact fun g field same => absurd same (others p mem' (fun same => first (same ▸ mem)) g field)

/-- The sizes of the fields of a structure that has one field without a size, if no other structure
has such a field. -/
theorem synthesise_sized {name : String} (outcome : synthesise s = (.ok (), s'))
    (registered : (name, t) ∈ s.types) (split : s.Open (s.fieldsOf t) front f back xs ys)
    (others : xs ++ ys ≠ [])
    (own : ∀ p ∈ s.types, p.2 ≠ t → ∀ g ∈ s.fieldsOf p.2, g.type ≠ f.type) :
    ∃ sum, addUp none (xs ++ ys) = .ok (some sum) ∧
      s'.sizeOf f.type = .ok (some (remainder sum)) ∧
      s'.Sized (s'.fieldsOf t) (xs ++ remainder sum :: ys) := by
  obtain ⟨e, entry, struct⟩ := Store.struct_of_mem_fieldsOf split.mem
  obtain ⟨e', w, v, fills, fields, untouched, sizes, later⟩ :=
    synthesise_turn outcome registered entry struct
  have unsized := untouched f.type none own split.unsized
  have split' := split.of_fills fills unsized
  rw [fields] at split'
  obtain ⟨sum, added, rfl⟩ := completeSizes_of_open split' others sizes
  -- What was filled in stays.
  have filled := (completeSizes_achieves t e' w).filling.fills
  rw [sizes] at filled
  have own := Store.sizeOf_modifyEntry_self unsized (some (remainder sum))
  refine ⟨sum, added, later.sizeOf_some own, ?_⟩
  rw [(synthesise_fills.of_eq outcome).fieldsOf, fields]
  exact later.sized (split'.sized filled own)

/-- With the remainder, the sizes of all fields of a structure add up to the size of the data. -/
theorem sizes_add_up {name : String} (outcome : synthesise s = (.ok (), s'))
    (registered : (name, t) ∈ s.types) (split : s.Open (s.fieldsOf t) front f back xs ys)
    (others : xs ++ ys ≠ [])
    (own : ∀ p ∈ s.types, p.2 ≠ t → ∀ g ∈ s.fieldsOf p.2, g.type ≠ f.type)
    (exact_ : Expr.FrontExact (xs ++ ys)) (dataSize : Int) (other : Expr → Int) :
    ∃ sizes, s'.Sized (s'.fieldsOf t) sizes ∧ Expr.total dataSize other sizes = dataSize := by
  obtain ⟨sum, added, -, sized⟩ := synthesise_sized outcome registered split others own
  refine ⟨_, sized, ?_⟩
  have value : sum.value dataSize other = _ := addUp_value added exact_
  rw [Expr.total_append] at value ⊢
  rw [Expr.total, Expr.value_remainder, value]
  omega

/-! ## Two packets -/

/-- The literal of a size that is known. -/
def Expr.literal? : Expr → Option Literal
  | .const _ v => some v
  | _ => none

/-- Whether a type has a size like this. -/
def Store.hasSize (s : Store) (t : TypeRef) (like : Option Expr → Bool) : Bool :=
  match s.sizeOf t with
  | .ok size => like size
  | .error _ => false

theorem Store.exists_size {like : Option Expr → Bool} (has : s.hasSize t like = true) :
    ∃ size, s.sizeOf t = .ok size ∧ like size = true := by
  rw [hasSize] at has
  cases known : s.sizeOf t with
  | error fault => simp [known] at has
  | ok size => exact ⟨size, rfl, by simpa [known] using has⟩

/-- Whether a type has this constant for its size. -/
def Store.hasConst (s : Store) (t : TypeRef) (v : Literal) : Bool :=
  s.hasSize t fun size => size.bind Expr.literal? = some v

theorem Store.exists_const {v : Literal} (has : s.hasConst t v = true) :
    ∃ u, s.sizeOf t = .ok (some (.const u v)) := by
  obtain ⟨size, known, like⟩ := exists_size has
  simp only [decide_eq_true_eq, Option.bind_eq_some_iff] at like
  obtain ⟨x, rfl, literal⟩ := like
  cases x with
  | const u w =>
    cases literal
    exact ⟨u, known⟩
  | _ => cases literal

theorem Store.exists_unknown
    (has : s.hasSize t (fun size => size.any fun x => !x.isConst) = true) :
    ∃ x, s.sizeOf t = .ok (some x) ∧ x.isConst = false := by
  obtain ⟨size, known, like⟩ := exists_size has
  cases size with
  | none => cases like
  | some x => exact ⟨x, known, by simpa using like⟩

theorem Store.sizeOf_of_isNone (has : s.hasSize t Option.isNone = true) :
    s.sizeOf t = .ok none := by
  obtain ⟨size, known, none⟩ := exists_size has
  rw [Option.isNone_iff_eq_none.mp none] at known
  exact known

/-- Whether only one of the registered structures has fields of a type. -/
def Store.isOwned (s : Store) (t u : TypeRef) : Bool :=
  s.types.all fun p => p.2 = t || (s.fieldsOf p.2).all fun g => g.type ≠ u

theorem Store.own_of_isOwned (owned : s.isOwned t u = true) :
    ∀ p ∈ s.types, p.2 ≠ t → ∀ g ∈ s.fieldsOf p.2, g.type ≠ u := by
  intro p mem other g field
  simp only [isOwned, all_eq_true, Bool.or_eq_true, decide_eq_true_eq] at owned
  exact (owned p mem).resolve_left other g field

/-- Only the types of fields matter for their sizes. -/
theorem Store.open_of_types {ts us : List TypeRef}
    (types : (s.fieldsOf t).map (·.type) = ts ++ u :: us)
    (before : List.Forall₂ (fun t x => s.sizeOf t = .ok (some x)) ts xs)
    (unsized : s.sizeOf u = .ok none)
    (after : List.Forall₂ (fun t x => s.sizeOf t = .ok (some x)) us ys) :
    ∃ front f back, f.type = u ∧ s.Open (s.fieldsOf t) front f back xs ys := by
  obtain ⟨front, rest, eq, rfl, others⟩ := map_eq_append_iff.mp types
  obtain ⟨f, back, rfl, rfl, rfl⟩ := map_eq_cons_iff.mp others
  rw [forall₂_map_left_iff] at before after
  exact ⟨front, f, back, rfl, eq, before, unsized, after⟩

/-- A frame with a body between parts of known and unknown sizes, beside another packet. -/
def frame : Change Unit := do
  let always := Expr.const .boolean (.flag true)
  let octet ← makeBitString (some "Octet") (some (constantSize (.int 8)))
  let body ← makeBitString (some "Body") none
  let word ← makeBitString (some "Word") (some (constantSize (.int 16)))
  let tail ← makeBitString (some "Tail") (some (.field .self "length"))
  let ping ← makeStruct (some "Ping") [⟨"code", octet, always⟩] [] []
  let frame ← makeStruct (some "Frame")
    [⟨"code", octet, always⟩, ⟨"body", body, always⟩, ⟨"check", word, always⟩,
     ⟨"tail", tail, always⟩] [] []
  each addType [ping, frame]

theorem sizes_add_up_frame :
    ∃ s s' sizes, frame .initial = (.ok (), s) ∧ synthesise s = (.ok (), s') ∧
      s'.Sized (s'.fieldsOf (.id 11)) sizes ∧ sizes.length = 4 ∧
      Expr.total 1500 (fun _ => 7) sizes = 1500 := by
  have made : frame .initial = _ := eq_ok_of_isOk (by decide +kernel)
  have outcome : synthesise (frame .initial).2 = _ := eq_ok_of_isOk (by decide +kernel)
  have facts : ("Frame", .id 11) ∈ (frame .initial).2.types ∧
      ((frame .initial).2.fieldsOf (.id 11)).map (·.type)
        = [.id 6] ++ .id 7 :: [.id 8, .id 9] ∧
      (frame .initial).2.isOwned (.id 11) (.id 7) = true ∧
      (frame .initial).2.hasConst (.id 6) (.int 8) = true ∧
      (frame .initial).2.hasSize (.id 7) Option.isNone = true ∧
      (frame .initial).2.hasConst (.id 8) (.int 16) = true ∧
      (frame .initial).2.hasSize (.id 9) (fun size => size.any fun x => !x.isConst) = true := by
    decide +kernel
  obtain ⟨registered, types, owned, code, body, check, tail⟩ := facts
  obtain ⟨t, code⟩ := Store.exists_const code
  obtain ⟨u, check⟩ := Store.exists_const check
  obtain ⟨tail, known, unknown⟩ := Store.exists_unknown tail
  obtain ⟨front, f, back, rest, split⟩ := Store.open_of_types types (.cons code .nil)
    (Store.sizeOf_of_isNone body) (.cons check (.cons known .nil))
  have integers : Expr.FrontExact ([.const t (.int 8)] ++ [.const u (.int 16), tail]) := by
    have leading : ([Expr.const t (.int 8)] ++ [.const u (.int 16), tail]).takeWhile Expr.isConst
        = [.const t (.int 8), .const u (.int 16)] := by
      simp [takeWhile_cons, unknown]
    intro _
    rw [leading]
    simp [Expr.isInteger, Literal.int?]
  obtain ⟨sizes, sized, total⟩ := sizes_add_up outcome registered split (by simp)
    (rest ▸ Store.own_of_isOwned owned) integers 1500 fun _ => 7
  refine ⟨_, _, sizes, made, outcome, sized, ?_, total⟩
  rw [← sized.length_eq]
  decide +kernel

/-- A packet of half a bit, a bit and a rest. -/
def halfBit : Change Unit := do
  let always := Expr.const .boolean (.flag true)
  let half ← makeBitString (some "Half") (some (constantSize (.real ⟨0x3fe0000000000000⟩)))
  let bit ← makeBitString (some "Bit") (some (constantSize (.int 1)))
  let rest ← makeBitString (some "Rest") none
  let packet ← makeStruct (some "Packet")
    [⟨"half", half, always⟩, ⟨"bit", bit, always⟩, ⟨"rest", rest, always⟩] [] []
  addType packet

/-- The sum of half a bit and a bit is a constant of its own. Where constants other than integers
count as nothing, the sizes are one off. -/
theorem halfBit_off_by_one :
    ∃ s s' front f back xs ys, halfBit .initial = (.ok (), s) ∧ synthesise s = (.ok (), s') ∧
      ("Packet", .id 9) ∈ s.types ∧ s.Open (s.fieldsOf (.id 9)) front f back xs ys ∧
      xs ++ ys ≠ [] ∧
      (∀ p ∈ s.types, p.2 ≠ .id 9 → ∀ g ∈ s.fieldsOf p.2, g.type ≠ f.type) ∧
      ∃ sizes, s'.Sized (s'.fieldsOf (.id 9)) sizes ∧
        ∀ dataSize, Expr.total dataSize (fun _ => 0) sizes = dataSize + 1 := by
  have made : halfBit .initial = _ := eq_ok_of_isOk (by decide +kernel)
  have outcome : synthesise (halfBit .initial).2 = _ := eq_ok_of_isOk (by decide +kernel)
  have facts : ("Packet", .id 9) ∈ (halfBit .initial).2.types ∧
      ((halfBit .initial).2.fieldsOf (.id 9)).map (·.type) = [.id 6, .id 7] ++ .id 8 :: [] ∧
      (halfBit .initial).2.isOwned (.id 9) (.id 8) = true ∧
      (halfBit .initial).2.hasConst (.id 6) (.real ⟨0x3fe0000000000000⟩) = true ∧
      (halfBit .initial).2.hasConst (.id 7) (.int 1) = true ∧
      (halfBit .initial).2.hasSize (.id 8) Option.isNone = true := by
    decide +kernel
  obtain ⟨registered, types, owned, half, bit, rest⟩ := facts
  obtain ⟨t, half⟩ := Store.exists_const half
  obtain ⟨u, bit⟩ := Store.exists_const bit
  obtain ⟨front, f, back, last, split⟩ := Store.open_of_types types (.cons half (.cons bit .nil))
    (Store.sizeOf_of_isNone rest) .nil
  have own := last ▸ Store.own_of_isOwned owned
  obtain ⟨sum, added, -, sized⟩ := synthesise_sized outcome registered split (by simp) own
  refine ⟨_, _, _, _, _, _, _, made, outcome, registered, split, by simp, own, _, sized, ?_⟩
  intro dataSize
  have value : sum.value dataSize (fun _ => 0) = 0 := by
    cases added
    rfl
  have half : (Expr.const t (.real ⟨0x3fe0000000000000⟩)).value dataSize (fun _ => 0) = 0 := rfl
  have bit : (Expr.const u (.int 1)).value dataSize (fun _ => 0) = 1 := rfl
  simp only [Expr.total_append, Expr.total, Expr.value_remainder, value, half, bit]
  omega

end PacketDraft.Protocol
