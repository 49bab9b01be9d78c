import PacketDraft.Proofs.Protocol.Making
import PacketDraft.Proofs.Protocol.Typing

/-!
# Completing a protocol

Completing a type only fills in what is missing: functions that parse and serialise the type, and,
for a structure, the size of its one field that has none. What is there is never replaced (`Fills`),
so the sizes that a structure was completed with stay what they are. The main result: once a
protocol is complete, completing it again finds nothing to do.
-/

namespace PacketDraft.Protocol

open Attempt List Store

variable {owner : String} {acc : SizeSum} {fs : List Field} {size : Option Expr}
  {outcome : Except Fault Unit × Store}

/-! ## Adding up the sizes of fields -/

/-- Sizes added up behind what was added up before. -/
def addUp : Option Expr → List Expr → Except Fault (Option Expr)
  | sum, [] => .ok sum
  | none, x :: xs => addUp (some x) xs
  | some sum, x :: xs => do
    let sum ← addSizes sum x
    addUp (some sum) xs

theorem addUp_append (sum : Option Expr) (xs ys : List Expr) :
    addUp sum (xs ++ ys) = addUp sum xs >>= fun sum => addUp sum ys := by
  induction xs generalizing sum with
  | nil => rfl
  | cons x xs ih =>
    cases sum with
    | none => exact ih (some x)
    | some sum =>
      show (addSizes sum x >>= fun sum => addUp (some sum) (xs ++ ys)) = _
      simp only [ih, addUp, bind_assoc]

theorem addUp_cons (sum : Option Expr) (x : Expr) (xs : List Expr) :
    addUp sum (x :: xs) = addUp sum [x] >>= fun sum => addUp sum xs :=
  addUp_append sum [x] xs

/-- What is true of sizes, and of a sum if it is of the summands, is true when they are added up. -/
theorem forall_addUp {P : Expr → Prop} {sum total : Option Expr} {xs : List Expr}
    (closed : ∀ {a b sum}, P a → P b → addSizes a b = .ok sum → P sum) (before : ∀ x ∈ sum, P x)
    (own : ∀ x ∈ xs, P x) (added : addUp sum xs = .ok total) : ∀ x ∈ total, P x := by
  induction xs generalizing sum with
  | nil =>
    cases added
    exact before
  | cons x xs ih =>
    rw [forall_mem_cons] at own
    cases sum with
    | none => exact ih (fun y mem => Option.some.inj mem ▸ own.1) own.2 added
    | some y =>
      obtain ⟨z, joined, rest⟩ := exceptBind_eq_ok.mp added
      refine ih (fun w mem => ?_) own.2 rest
      cases mem
      exact closed (before y rfl) own.1 joined

/-- A size that is not known yet can always be added to another one. -/
theorem addSizes_of_open {a b : Expr} (unknown : ∀ t v, a ≠ .const t v) :
    addSizes a b = .ok (.method a "plus" [("other", b)]) := by
  cases a with
  | const t v => exact absurd rfl (unknown t v)
  | _ => rfl

/-- Behind a sum that is not known yet everything can be added. -/
theorem addUp_of_open {sum : Expr} (unknown : ∀ t v, sum ≠ .const t v) (xs : List Expr) :
    ∃ total, addUp (some sum) xs = .ok (some total) := by
  induction xs generalizing sum with
  | nil => exact ⟨sum, rfl⟩
  | cons x xs ih =>
    have unknown' : ∀ t v, Expr.method sum "plus" [("other", x)] ≠ .const t v := by simp
    obtain ⟨total, added⟩ := ih unknown'
    refine ⟨total, ?_⟩
    show (addSizes sum x >>= fun sum => addUp (some sum) xs) = _
    rw [addSizes_of_open unknown]
    exact added

theorem addUp_none_eq_none {xs : List Expr} (nothing : addUp none xs = .ok none) : xs = [] := by
  have more : ∀ (ys : List Expr) (sum : Expr), addUp (some sum) ys ≠ .ok none := by
    intro ys
    induction ys with
    | nil => simp [addUp]
    | cons y ys ih =>
      intro sum added
      obtain ⟨sum', -, rest⟩ := exceptBind_eq_ok.mp added
      exact ih sum' rest
  cases xs with
  | nil => rfl
  | cons x xs => exact absurd nothing (more xs x)

/-- What is left of the data when a size is taken off. -/
def remainder (size : Expr) : Expr :=
  .method dataSizeExpr "minus" [("other", size)]

theorem remainder_ne_const (size : Expr) (t : TypeRef) (v : Literal) :
    remainder size ≠ .const t v := by
  simp [remainder]

/-- Where sizes could be added up, they still can with a remainder among them. -/
theorem addUp_remainder {xs ys : List Expr} {sum : Option Expr}
    (added : addUp none (xs ++ ys) = .ok sum) (size : Expr) :
    ∃ total, addUp none (xs ++ remainder size :: ys) = .ok (some total) := by
  rw [addUp_append] at added ⊢
  obtain ⟨front, first, -⟩ := exceptBind_eq_ok.mp added
  rw [first]
  cases front with
  | none => exact addUp_of_open (remainder_ne_const size) ys
  | some front =>
    show ∃ total, (addSizes front (remainder size) >>= fun sum => addUp (some sum) ys) = _
    have joined : addSizes front (remainder size)
        = .ok (.method front "plus" [("other", remainder size)]) := by
      cases front <;> rfl
    rw [joined]
    exact addUp_of_open (by simp) ys

theorem SizeSum.add_some (owner : String) (acc : SizeSum) (t : TypeRef) (x : Expr) :
    acc.add owner t (some x) = addUp acc.sum [x] >>= fun sum => .ok { acc with sum } := by
  obtain ⟨sum, unsized⟩ := acc
  cases sum with
  | none => rfl
  | some sum =>
    simp only [SizeSum.add, addUp, bind_assoc]
    rfl

theorem SizeSum.add_some_eq_ok {acc' : SizeSum} {t : TypeRef} {x : Expr} :
    acc.add owner t (some x) = .ok acc' ↔
      addUp acc.sum [x] = .ok acc'.sum ∧ acc.unsized = acc'.unsized := by
  rw [SizeSum.add_some, exceptBind_eq_ok]
  constructor
  · rintro ⟨sum, added, same⟩
    cases same
    exact ⟨added, rfl⟩
  · rintro ⟨added, same⟩
    refine ⟨acc'.sum, added, ?_⟩
    rw [same]

theorem SizeSum.add_none_eq_ok {acc' : SizeSum} {t : TypeRef} :
    acc.add owner t none = .ok acc' ↔
      acc.sum = acc'.sum ∧ acc.unsized = none ∧ acc'.unsized = some t := by
  obtain ⟨sum, unsized⟩ := acc
  obtain ⟨sum', unsized'⟩ := acc'
  cases unsized with
  | none => simp [SizeSum.add, eq_comm]
  | some u => simp [SizeSum.add]

namespace Store

variable {s s' : Store}

/-- Fields that all have a size, with their sizes. -/
def Sized (s : Store) : List Field → List Expr → Prop :=
  List.Forall₂ fun f size => s.sizeOf f.type = .ok (some size)

/-- Fields of which exactly one has no size, with the sizes of those before and after it. -/
structure Open (s : Store) (fields front : List Field) (f : Field) (back : List Field)
    (xs ys : List Expr) : Prop where
  split : fields = front ++ f :: back
  before : s.Sized front xs
  unsized : s.sizeOf f.type = .ok none
  after : s.Sized back ys

theorem sumSizes_append (owner : String) (acc : SizeSum) (fs gs : List Field) :
    s.sumSizes owner acc (fs ++ gs)
      = s.sumSizes owner acc fs >>= fun acc => s.sumSizes owner acc gs := by
  induction fs generalizing acc with
  | nil => rfl
  | cons f fs ih => simp only [cons_append, sumSizes, ih, bind_assoc]

theorem sumSizes_of_sized {xs : List Expr} (sized : s.Sized fs xs) (owner : String) (acc : SizeSum) :
    s.sumSizes owner acc fs = addUp acc.sum xs >>= fun sum => .ok { acc with sum } := by
  induction sized generalizing acc with
  | nil => rfl
  | @cons f x fs xs size _ ih =>
    rw [addUp_cons, bind_assoc, sumSizes, size]
    show (acc.add owner f.type (some x) >>= fun acc => s.sumSizes owner acc fs) = _
    rw [SizeSum.add_some, bind_assoc]
    exact bind_congr fun sum => ih { acc with sum }

/-- Sizes are added up around the field that has none. -/
theorem Open.sumSizes {fields front back : List Field} {f : Field} {xs ys : List Expr}
    (split : s.Open fields front f back xs ys) (owner : String) :
    s.sumSizes owner {} fields
      = addUp none (xs ++ ys) >>= fun sum => .ok ⟨sum, some f.type⟩ := by
  rw [split.split, sumSizes_append, sumSizes_of_sized split.before, addUp_append, bind_assoc,
    bind_assoc]
  refine bind_congr fun sum => ?_
  show s.sumSizes owner ⟨sum, none⟩ (f :: back) = _
  rw [Store.sumSizes, split.unsized]
  exact sumSizes_of_sized split.after owner ⟨sum, some f.type⟩

/-- Sizes of fields can only be added up if at most one field has none. -/
theorem sumSizes_cases {total : SizeSum} (summed : s.sumSizes owner acc fs = .ok total) :
    (∃ xs, s.Sized fs xs ∧ addUp acc.sum xs = .ok total.sum ∧ acc.unsized = total.unsized) ∨
      acc.unsized = none ∧ ∃ front f back xs ys, s.Open fs front f back xs ys ∧
        addUp acc.sum (xs ++ ys) = .ok total.sum ∧ total.unsized = some f.type := by
  induction fs generalizing acc with
  | nil =>
    cases summed
    exact .inl ⟨[], .nil, rfl, rfl⟩
  | cons f fs ih =>
    obtain ⟨size, known, taken⟩ := exceptBind_eq_ok.mp summed
    obtain ⟨acc', one, others⟩ := exceptBind_eq_ok.mp taken
    cases size with
    | some x =>
      obtain ⟨first, same⟩ := SizeSum.add_some_eq_ok.mp one
      have added {xs : List Expr} (rest : addUp acc'.sum xs = .ok total.sum) :
          addUp acc.sum (x :: xs) = .ok total.sum := by
        rw [addUp_cons, first]
        exact rest
      obtain ⟨xs, sized, rest, left⟩ | ⟨free, front, g, back, xs, ys, split, rest, left⟩ :=
        ih others
      · exact .inl ⟨x :: xs, .cons known sized, added rest, same.trans left⟩
      · refine .inr ⟨same.trans free, f :: front, g, back, x :: xs, ys, ?_, added rest, left⟩
        exact ⟨congrArg (f :: ·) split.split, .cons known split.before, split.unsized, split.after⟩
    | none =>
      obtain ⟨same, free, used⟩ := SizeSum.add_none_eq_ok.mp one
      obtain ⟨xs, sized, rest, left⟩ | ⟨free', -⟩ := ih others
      · refine .inr ⟨free, [], f, fs, [], xs, ⟨rfl, .nil, known, sized⟩, ?_, left.symm.trans used⟩
        rw [same]
        exact rest
      · rw [used] at free'
        cases free'

theorem forall_sumSizes {P : Expr → Prop} {total : SizeSum}
    (closed : ∀ {a b sum}, P a → P b → addSizes a b = .ok sum → P sum) (before : ∀ x ∈ acc.sum, P x)
    (own : ∀ f ∈ fs, ∀ size, s.sizeOf f.type = .ok size → ∀ x ∈ size, P x)
    (summed : s.sumSizes owner acc fs = .ok total) : ∀ x ∈ total.sum, P x := by
  induction fs generalizing acc with
  | nil =>
    cases summed
    exact before
  | cons f fs ih =>
    obtain ⟨size, known, taken⟩ := exceptBind_eq_ok.mp summed
    obtain ⟨acc', one, others⟩ := exceptBind_eq_ok.mp taken
    rw [forall_mem_cons] at own
    refine ih ?_ own.2 others
    cases size with
    | some x =>
      obtain ⟨added, -⟩ := SizeSum.add_some_eq_ok.mp one
      exact forall_addUp closed before (forall_mem_singleton.mpr (own.1 _ known x rfl)) added
    | none =>
      obtain ⟨same, -⟩ := SizeSum.add_none_eq_ok.mp one
      rw [← same]
      exact before

end Store

/-! ## Filling in -/

/-- A type later on: only what it lacked has been filled in. -/
structure Entry.Fills (e e' : Entry) : Prop where
  rest : e' = { e with
    size := e'.size, parseFrom := e'.parseFrom, serialiseTo := e'.serialiseTo }
  size : e.size = none ∨ e'.size = e.size
  parseFrom : e.parseFrom = none ∨ e'.parseFrom = e.parseFrom
  serialiseTo : e.serialiseTo = none ∨ e'.serialiseTo = e.serialiseTo

/-- A store later on: only what types lacked has been filled in. There may be new types, but none
with something to fill in. -/
structure Store.Fills (s s' : Store) : Prop where
  entryOf : ∀ t e, s.entryOf t = some e → ∃ e', s'.entryOf t = some e' ∧ e.Fills e'
  fresh : ∀ t e', s.entryOf t = none → s'.entryOf t = some e' → e'.form.isParsed = false
  fields : ∀ g, (s'.membersAt g).fields = (s.membersAt g).fields
  types : s'.types = s.types

theorem filled_trans {α : Type} {x y z : Option α} (first : x = none ∨ y = x)
    (second : y = none ∨ z = y) : x = none ∨ z = x := by
  rcases first with empty | rfl
  · exact .inl empty
  · exact second

namespace Entry.Fills

variable {e e' e'' : Entry}

theorem refl (e : Entry) : e.Fills e :=
  ⟨rfl, .inr rfl, .inr rfl, .inr rfl⟩

theorem trans (first : e.Fills e') (second : e'.Fills e'') : e.Fills e'' where
  rest := by
    rw [second.rest, first.rest]
  size := filled_trans first.size second.size
  parseFrom := filled_trans first.parseFrom second.parseFrom
  serialiseTo := filled_trans first.serialiseTo second.serialiseTo

theorem form (fills : e.Fills e') : e'.form = e.form := by
  rw [fills.rest]

theorem group (fills : e.Fills e') : e'.group = e.group := by
  rw [fills.rest]

end Entry.Fills

namespace Store.Fills

variable {s s' s'' : Store} {e e' : Entry}

theorem refl (s : Store) : s.Fills s :=
  ⟨fun _ e entry => ⟨e, entry, .refl e⟩, fun _ _ none some => by simp [none] at some,
    fun _ => rfl, rfl⟩

theorem trans (first : s.Fills s') (second : s'.Fills s'') : s.Fills s'' where
  entryOf t e entry := by
    obtain ⟨e', entry', fills⟩ := first.entryOf t e entry
    obtain ⟨e'', entry'', fills'⟩ := second.entryOf t e' entry'
    exact ⟨e'', entry'', fills.trans fills'⟩
  fresh t e'' none some := by
    cases entry' : s'.entryOf t with
    | none => exact second.fresh t e'' entry' some
    | some e' =>
      obtain ⟨_, entry'', own⟩ := second.entryOf t e' entry'
      rw [some] at entry''
      cases entry''
      rw [own.form]
      exact first.fresh t e' none entry'
  fields g := (second.fields g).trans (first.fields g)
  types := second.types.trans first.types

instance : IsPreorder Store Store.Fills where
  refl := refl
  trans _ _ _ := trans

theorem fields_of (fills : s.Fills s') (own : e.Fills e') :
    (s'.members e').fields = (s.members e).fields := by
  show (s'.membersAt e'.group).fields = _
  rw [own.group]
  exact fills.fields e.group

/-- A type that could be sent still can, and has the size that it had. -/
theorem sizeOf (fills : s.Fills s') {t : TypeRef} (known : s.sizeOf t = .ok size) :
    ∃ size', s'.sizeOf t = .ok size' ∧ (size = none ∨ size' = size) := by
  rw [Store.sizeOf] at known
  cases entry : s.entryOf t with
  | none => simp [entry] at known
  | some e =>
    obtain ⟨e', entry', own⟩ := fills.entryOf t e entry
    rw [entry] at known
    by_cases sent : e.form.isRepresentable = true
    · simp only [sent, if_true, Except.ok.injEq] at known
      subst known
      refine ⟨e'.size, ?_, own.size⟩
      simp [Store.sizeOf, entry', own.form, sent]
    · simp [sent] at known

theorem sizeOf_some (fills : s.Fills s') {t : TypeRef} {size : Expr}
    (known : s.sizeOf t = .ok (some size)) : s'.sizeOf t = .ok (some size) := by
  obtain ⟨size', known', empty | rfl⟩ := fills.sizeOf known
  · cases empty
  · exact known'

theorem sized (fills : s.Fills s') {xs : List Expr} (sized : s.Sized fs xs) : s'.Sized fs xs :=
  sized.imp fun _ _ => fills.sizeOf_some

end Store.Fills

theorem Store.fills_made {form : Form} {name : String} {methods : List String} {s s' : Store}
    {e : Entry} {ms : Members} (made : Made methods [] form name s s' e ms)
    (simple : form.isParsed = false) : s.Fills s' where
  entryOf t old entry := ⟨old, made.entryOf_old entry, .refl old⟩
  fresh t e' none some := by
    rw [made.entryOf_new none some, made.form]
    exact simple
  fields g := by
    have none : ms.fields = [] := eq_nil_iff_forall_not_mem.mpr fun f mem =>
      not_mem_nil (made.fields f mem)
    rcases Nat.lt_trichotomy g s.groups.length with old | rfl | beyond
    · rw [made.membersAt old]
    · rw [membersAt, membersAt, made.groups, List.getElem?_concat_length]
      simp [none]
    · rw [membersAt, membersAt, made.groups, List.getElem?_eq_none (by simp; omega),
        List.getElem?_eq_none (Nat.le_of_lt beyond)]
  types := made.types

theorem Store.entryOf_modifyEntry_none {s : Store} {t u : TypeRef} (f : Entry → Entry)
    (none : s.entryOf u = none) : (s.modifyEntry t f).entryOf u = .none := by
  cases t with
  | absent => exact none
  | var name => exact none
  | id m =>
    cases u with
    | absent => rfl
    | var name => rfl
    | id n =>
      show (s.entries.modify m f)[n]? = .none
      rw [List.getElem?_eq_none_iff, length_modify, ← List.getElem?_eq_none_iff]
      exact none

theorem Store.types_modifyEntry (s : Store) (t : TypeRef) (f : Entry → Entry) :
    (s.modifyEntry t f).types = s.types := by
  cases t <;> rfl

theorem Store.entryOf_modifyEntry_ne {s : Store} {t u : TypeRef} (f : Entry → Entry)
    (other : t ≠ u) : (s.modifyEntry t f).entryOf u = s.entryOf u := by
  cases t with
  | absent => rfl
  | var name => rfl
  | id m =>
    cases u with
    | absent => rfl
    | var name => rfl
    | id n =>
      show (s.entries.modify m f)[n]? = s.entries[n]?
      exact List.getElem?_modify_ne _ _ (by simpa using other)

theorem Store.fills_modifyEntry {s : Store} {t : TypeRef} {f : Entry → Entry}
    (own : ∀ e, s.entryOf t = some e → e.Fills (f e)) : s.Fills (s.modifyEntry t f) where
  entryOf u e entry := by
    by_cases same : t = u
    · subst same
      exact ⟨f e, entryOf_modifyEntry_self f entry, own e entry⟩
    · exact ⟨e, (entryOf_modifyEntry_ne f same).trans entry, .refl e⟩
  fresh u e none some := by
    rw [entryOf_modifyEntry_none f none] at some
    cases some
  fields g := by rw [membersAt_modifyEntry]
  types := types_modifyEntry s t f

/-! ## What is done to complete a type -/

/-- One step of completing a type `t` with these fields. -/
inductive Fill (t : TypeRef) (fields : List Field) : Store → Store → Prop
  | option {s s' : Store} {target : TypeRef} {name : String} {e : Entry} {ms : Members}
      (made : Made ["size"] [] (.option target) name s s' e ms) : Fill t fields s s'
  | parseFrom {s : Store} {e : Entry} (f : Signature) (entry : s.entryOf t = some e)
      (empty : e.parseFrom = none) :
      Fill t fields s (s.modifyEntry t fun e => { e with parseFrom := some f })
  | serialiseTo {s : Store} {e : Entry} (f : Signature) (entry : s.entryOf t = some e)
      (empty : e.serialiseTo = none) :
      Fill t fields s (s.modifyEntry t fun e => { e with serialiseTo := some f })
  | size {s : Store} {f : Field} (sum : Expr) (field : f ∈ fields) (several : fields ≠ [f])
      (empty : s.sizeOf f.type = .ok none) :
      Fill t fields s (s.modifyEntry f.type fun e => { e with size := some (remainder sum) })

/-- Any number of steps of completing a type. -/
abbrev Filling (t : TypeRef) (fields : List Field) : Store → Store → Prop :=
  Relation.ReflTransGen (Fill t fields)

theorem Store.sizeOf_eq_ok {s : Store} {t : TypeRef} :
    s.sizeOf t = .ok size ↔
      ∃ e, s.entryOf t = some e ∧ e.form.isRepresentable = true ∧ e.size = size := by
  rw [sizeOf]
  cases s.entryOf t with
  | none => simp
  | some e => by_cases sent : e.form.isRepresentable = true <;> simp [sent]

variable {t : TypeRef} {s s' : Store} {e : Entry} {fields : List Field}

theorem Fill.fills (fill : Fill t fields s s') : s.Fills s' := by
  cases fill with
  | option made => exact fills_made made rfl
  | parseFrom f entry empty =>
    refine fills_modifyEntry fun e' entry' => ?_
    rw [entry] at entry'
    cases entry'
    exact ⟨rfl, .inr rfl, .inl empty, .inr rfl⟩
  | serialiseTo f entry empty =>
    refine fills_modifyEntry fun e' entry' => ?_
    rw [entry] at entry'
    cases entry'
    exact ⟨rfl, .inr rfl, .inr rfl, .inl empty⟩
  | size sum field several empty =>
    refine fills_modifyEntry fun e' entry' => ?_
    obtain ⟨e'', entry'', -, empty⟩ := sizeOf_eq_ok.mp empty
    rw [entry''] at entry'
    cases entry'
    exact ⟨rfl, .inl empty, .inr rfl, .inr rfl⟩

theorem Filling.fills (filling : Filling t fields s s') : s.Fills s' := by
  induction filling with
  | refl => exact .refl s
  | tail _ fill ih => exact ih.trans fill.fills

/-- A type is completed step by step, and where that succeeds, something is reached. -/
structure Achieves (t : TypeRef) (fields : List Field) (goal : Store → Prop) (s : Store)
    (outcome : Except Fault Unit × Store) : Prop where
  filling : Filling t fields s outcome.2
  reached : ∀ u, outcome = (.ok (), u) → goal u

variable {goal : Store → Prop}

theorem Achieves.after (first : Filling t fields s s') (rest : Achieves t fields goal s' outcome) :
    Achieves t fields goal s outcome :=
  ⟨first.trans rest.filling, rest.reached⟩

theorem Achieves.done (holds : goal s) : Achieves t fields goal s (.ok (), s) where
  filling := .refl
  reached u same := by
    cases same
    exact holds

theorem Achieves.failed (fault : Fault) : Achieves t fields goal s (.error fault, s) where
  filling := .refl
  reached u impossible := by cases impossible

theorem Achieves.imp {goal' : Store → Prop} (first : Achieves t fields goal s outcome)
    (weaker : ∀ u, goal u → goal' u) : Achieves t fields goal' s outcome :=
  ⟨first.filling, fun u same => weaker u (first.reached u same)⟩

theorem Achieves.bind {x : Change Unit} {rest : Unit → Change Unit} {goal' : Store → Prop}
    (first : Achieves t fields goal s (x s))
    (go : ∀ u, Filling t fields s u → goal u → Achieves t fields goal' u (rest () u)) :
    Achieves t fields goal' s ((x >>= rest) s) := by
  have filling := first.filling
  rw [bind_apply]
  rcases outcome : x s with ⟨fault | _, u⟩
  · rw [outcome] at filling
    exact .after filling (.failed fault)
  · rw [outcome] at filling
    exact .after filling (go u filling (first.reached u outcome))

theorem achieves_ask {α : Type} {f : Store → Except Fault α} {rest : α → Change Unit}
    (go : ∀ a, f s = .ok a → Achieves t fields goal s (rest a s)) :
    Achieves t fields goal s ((ask f >>= rest) s) := by
  rw [bind_apply, ask]
  cases answer : f s with
  | error fault => exact .failed fault
  | ok a => exact go a answer

/-- Going on after a function to take one thing from another was made. -/
theorem achieves_conversion {name wrapper : String} {source target : TypeRef}
    {rest : Signature → Change Unit} (entry : s.entryOf t = some e)
    (go : ∀ u f, u.entryOf t = some e → Achieves t fields goal u (rest f u)) :
    Achieves t fields goal s ((conversion name source wrapper target >>= rest) s) := by
  simp only [conversion, bind_assoc, pure_bind]
  rw [bind_apply]
  obtain ⟨fault, outcome⟩ | ⟨given, size, result, u, -, outcome, edits, -⟩ :=
    makeOption_makes (some wrapper) target s
  · rw [outcome]
    exact .failed fault
  · obtain ⟨option, ms, made⟩ := Made.of_edits edits
    refine .after (.single (.option made)) ?_
    rw [outcome]
    cases result with
    | error fault => exact .failed fault
    | ok option =>
      exact achieves_ask (f := fun _ => checkName (.function [] .absent) (some name))
        fun name _ => go u _ (made.entryOf_old entry)

/-- Whether a type has both its functions. -/
def Entry.hasFunctions (e : Entry) : Bool :=
  e.parseFrom.isSome && e.serialiseTo.isSome

theorem Entry.Fills.hasFunctions {e' : Entry} (fills : e.Fills e') (has : e.hasFunctions = true) :
    e'.hasFunctions = true := by
  simp only [Entry.hasFunctions, Bool.and_eq_true] at has ⊢
  constructor
  · obtain empty | same := fills.parseFrom
    · simp [empty] at has
    · exact same ▸ has.1
  · obtain empty | same := fills.serialiseTo
    · simp [empty] at has
    · exact same ▸ has.2

/-- The functions of a type are filled in. -/
theorem completeFunctions_achieves (entry : s.entryOf t = some e) :
    Achieves t fields (fun u => ∃ e', u.entryOf t = some e' ∧ e'.hasFunctions = true) s
      (completeFunctions t e s) := by
  have serialise : ∀ (u : Store) (e' : Entry), u.entryOf t = some e' →
      e'.parseFrom.isSome = true → e'.serialiseTo = e.serialiseTo →
      Achieves t fields (fun u => ∃ e', u.entryOf t = some e' ∧ e'.hasFunctions = true) u
        ((if e.serialiseTo.isNone then do
          let unit ← ask (·.getType "DataUnit")
          let f ← conversion ("serialise_from_" ++ Text.lowered e.shownName) t "STReturn" unit
          update (·.modifyEntry t fun e => { e with serialiseTo := some f })
          else pure () : Change Unit) u) := by
    intro u e' entry parsed same
    cases present : e.serialiseTo with
    | some f =>
      rw [present] at same
      exact .done ⟨e', entry, by simp [Entry.hasFunctions, parsed, same]⟩
    | none =>
      rw [present] at same
      refine achieves_ask fun unit _ => achieves_conversion entry fun v f entry => ?_
      refine .after (.single (.serialiseTo f entry same)) (.done ?_)
      exact ⟨_, entryOf_modifyEntry_self _ entry, by simp [Entry.hasFunctions, parsed]⟩
  unfold completeFunctions
  cases present : e.parseFrom with
  | some f => exact serialise s e entry (by simp [present]) rfl
  | none =>
    refine achieves_ask fun unit _ => achieves_conversion entry fun v f entry => ?_
    refine .after (.single (.parseFrom f entry present))
      (serialise _ { e with parseFrom := some f } ?_ rfl rfl)
    exact entryOf_modifyEntry_self _ entry

/-- Fields among which there is nothing to fill in: they have sizes that can be added up, or there
is only one field. -/
def Store.Filled (s : Store) (fields : List Field) : Prop :=
  (∃ xs sum, s.Sized fields xs ∧ addUp none xs = .ok sum) ∨
    ∃ f, fields = [f] ∧ s.sizeOf f.type = .ok none

theorem Store.Fills.filled (fills : s.Fills s') {fields : List Field} (filled : s.Filled fields) :
    s'.Filled fields := by
  obtain ⟨xs, sum, sized, added⟩ | ⟨f, rfl, empty⟩ := filled
  · exact .inl ⟨xs, sum, fills.sized sized, added⟩
  · obtain ⟨size, known, -⟩ := fills.sizeOf empty
    cases size with
    | none => exact .inr ⟨f, rfl, known⟩
    | some x => exact .inl ⟨[x], some x, .cons known .nil, rfl⟩

/-- What is done about the sizes of the fields of a structure. -/
theorem completeSizes_cases (e : Entry) (s : Store) :
    (∃ fault, completeSizes e s = (.error fault, s)) ∨
    (completeSizes e s = (.ok (), s) ∧ s.Filled (s.members e).fields) ∨
    ∃ front f back xs ys sum, s.Open (s.members e).fields front f back xs ys ∧
      addUp none (xs ++ ys) = .ok (some sum) ∧
      completeSizes e s
        = (.ok (), s.modifyEntry f.type fun e => { e with size := some (remainder sum) }) := by
  rw [completeSizes, bind_apply, ask]
  cases summed : s.sumSizes e.shownName {} (s.members e).fields with
  | error fault => exact .inl ⟨fault, rfl⟩
  | ok total =>
    obtain ⟨xs, sized, added, left⟩ | ⟨-, front, f, back, xs, ys, split, added, left⟩ :=
      sumSizes_cases summed
    · refine .inr (.inl ⟨?_, .inl ⟨xs, _, sized, added⟩⟩)
      simp only [← left]
      rfl
    · cases known : total.sum with
      | some sum =>
        refine .inr (.inr ⟨front, f, back, xs, ys, sum, split, known ▸ added, ?_⟩)
        simp only [left, known]
        rfl
      | none =>
        rw [known] at added
        obtain ⟨rfl, rfl⟩ := append_eq_nil_iff.mp (addUp_none_eq_none added)
        have one : (s.members e).fields = [f] := by
          rw [split.split, forall₂_nil_right_iff.mp split.before,
            forall₂_nil_right_iff.mp split.after]
          rfl
        refine .inr (.inl ⟨?_, .inr ⟨f, one, split.unsized⟩⟩)
        simp only [left, known]
        rfl

theorem completeSizes_of_filled {e : Entry} (filled : s.Filled (s.members e).fields) :
    completeSizes e s = (.ok (), s) := by
  rw [completeSizes, bind_apply, ask]
  obtain ⟨xs, sum, sized, added⟩ | ⟨f, one, empty⟩ := filled
  · rw [Store.sumSizes_of_sized sized, added]
    rfl
  · simp [one, Store.sumSizes, empty, SizeSum.add, bind, Except.bind]
    rfl

namespace Store.Open

variable {fields front back : List Field} {f : Field} {xs ys : List Expr}

theorem mem (split : s.Open fields front f back xs ys) : f ∈ fields := by
  rw [split.split]
  exact mem_append_right _ mem_cons_self

/-- The field is not alone if other fields have a size. -/
theorem several (split : s.Open fields front f back xs ys) (others : xs ++ ys ≠ []) :
    fields ≠ [f] := by
  intro alone
  have lengths := congrArg List.length (split.split.symm.trans alone)
  rw [length_append, length_cons, split.before.length_eq,
    split.after.length_eq] at lengths
  refine others (eq_nil_of_length_eq_zero ?_)
  rw [length_append]
  simp only [length_singleton] at lengths
  omega

/-- Once the one size is filled in, all fields have one. -/
theorem sized (split : s.Open fields front f back xs ys) {size : Expr} (fills : s.Fills s')
    (own : s'.sizeOf f.type = .ok (some size)) : s'.Sized fields (xs ++ size :: ys) := by
  rw [split.split]
  exact rel_append (fills.sized split.before) (.cons own (fills.sized split.after))

end Store.Open

theorem Store.sizeOf_modifyEntry_self (known : s.sizeOf t = .ok size) (size' : Option Expr) :
    (s.modifyEntry t fun e => { e with size := size' }).sizeOf t = .ok size' := by
  obtain ⟨e, entry, sent, -⟩ := sizeOf_eq_ok.mp known
  exact sizeOf_eq_ok.mpr ⟨_, entryOf_modifyEntry_self _ entry, sent, rfl⟩

/-- The sizes of the fields of a structure are filled in. -/
theorem completeSizes_achieves (t : TypeRef) (e : Entry) (s : Store) :
    Achieves t (s.members e).fields
      (fun u => s.Fills u ∧ u.Filled (s.members e).fields) s (completeSizes e s) := by
  obtain ⟨fault, outcome⟩ | ⟨outcome, filled⟩ |
    ⟨front, f, back, xs, ys, sum, split, added, outcome⟩ := completeSizes_cases e s
  · rw [outcome]
    exact .failed fault
  · rw [outcome]
    exact .done ⟨.refl s, filled⟩
  · rw [outcome]
    have several : xs ++ ys ≠ [] := by
      intro empty
      rw [empty] at added
      cases added
    have fill : Fill t (s.members e).fields s _ :=
      .size sum split.mem (split.several several) split.unsized
    refine .after (.single fill) (.done ⟨fill.fills, .inl ?_⟩)
    obtain ⟨total, added'⟩ := addUp_remainder added sum
    refine ⟨_, some total, split.sized fill.fills ?_, added'⟩
    exact sizeOf_modifyEntry_self split.unsized _

/-- The fields of a structure. -/
def Store.fieldsOf (s : Store) (t : TypeRef) : List Field :=
  match s.entryOf t with
  | none => []
  | some e =>
    match e.form with
    | .struct => (s.members e).fields
    | _ => []

theorem Store.fieldsOf_struct (entry : s.entryOf t = some e) (struct : e.form = .struct) :
    s.fieldsOf t = (s.members e).fields := by
  simp [fieldsOf, entry, struct]

theorem Store.fieldsOf_other (entry : s.entryOf t = some e) (other : e.form ≠ .struct) :
    s.fieldsOf t = [] := by
  cases form : e.form with
  | struct => exact absurd form other
  | _ => simp [fieldsOf, entry, form]

/-- No fields are filled in. -/
theorem Store.Fills.fieldsOf (fills : s.Fills s') (t : TypeRef) :
    s'.fieldsOf t = s.fieldsOf t := by
  cases entry : s.entryOf t with
  | none =>
    cases entry' : s'.entryOf t with
    | none => simp [Store.fieldsOf, entry, entry']
    | some e' =>
      have simple := fills.fresh t e' entry entry'
      rw [Store.fieldsOf_other entry' (fun struct => by simp [struct, Form.isParsed] at simple)]
      simp [Store.fieldsOf, entry]
  | some e =>
    obtain ⟨e', entry', own⟩ := fills.entryOf t e entry
    simp only [Store.fieldsOf, entry, entry', own.form, fills.fields_of own]

/-- There is nothing to fill in at a type. -/
def Store.Complete (s : Store) (t : TypeRef) : Prop :=
  ∀ e, s.entryOf t = some e → e.form.isParsed = true →
    e.hasFunctions = true ∧ s.Filled (s.fieldsOf t)

theorem Store.Complete.of_entry (entry : s.entryOf t = some e)
    (complete : e.form.isParsed = true → e.hasFunctions = true ∧ s.Filled (s.fieldsOf t)) :
    s.Complete t := by
  intro e' entry'
  rw [entry] at entry'
  cases entry'
  exact complete

/-- What is complete stays complete while something else is filled in. -/
theorem Store.Fills.complete (fills : s.Fills s') (complete : s.Complete t) :
    s'.Complete t := by
  cases entry : s.entryOf t with
  | none =>
    intro e' entry' parsed
    rw [fills.fresh t e' entry entry'] at parsed
    cases parsed
  | some e =>
    obtain ⟨e', entry', own⟩ := fills.entryOf t e entry
    refine .of_entry entry' fun parsed => ?_
    rw [own.form] at parsed
    obtain ⟨functions, filled⟩ := complete e entry parsed
    refine ⟨own.hasFunctions functions, ?_⟩
    rw [fills.fieldsOf t]
    exact fills.filled filled

/-- A type that is completed is complete. -/
theorem completeType_achieves (t : TypeRef) (s : Store) :
    Achieves t (s.fieldsOf t) (fun u => u.Complete t) s (completeType t s) := by
  unfold completeType
  rw [read_bind]
  cases entry : s.entryOf t with
  | none => exact .done fun e entry' => by simp [entry] at entry'
  | some e =>
    by_cases parsed : e.form.isParsed = true
    · simp only [parsed, if_true]
      refine (completeFunctions_achieves entry).bind fun u filling has => ?_
      obtain ⟨e', entry', functions⟩ := has
      cases form : e.form with
      | struct =>
        have fields : s.fieldsOf t = (u.members e).fields :=
          (fieldsOf_struct entry form).trans (filling.fills.fields e.group).symm
        rw [fields]
        refine (completeSizes_achieves t e u).imp fun v reached => ?_
        obtain ⟨fills, filled⟩ := reached
        obtain ⟨e'', entry'', own⟩ := fills.entryOf t e' entry'
        refine .of_entry entry'' fun _ => ⟨own.hasFunctions functions, ?_⟩
        rw [fills.fieldsOf, filling.fills.fieldsOf, fields]
        exact filled
      | _ =>
        refine .done (.of_entry entry' fun _ => ⟨functions, ?_⟩)
        rw [filling.fills.fieldsOf, Store.fieldsOf_other entry (by simp [form])]
        exact .inl ⟨[], none, .nil, rfl⟩
    · simp only [parsed]
      exact .done (.of_entry entry fun parsed' => absurd parsed' parsed)

theorem completeFunctions_of_hasFunctions (has : e.hasFunctions = true) :
    completeFunctions t e s = (.ok (), s) := by
  simp only [Entry.hasFunctions, Bool.and_eq_true, Option.isSome_iff_exists] at has
  obtain ⟨⟨f, parses⟩, ⟨g, serialises⟩⟩ := has
  simp only [completeFunctions, parses, serialises, Option.isNone_some]
  rfl

/-- At a complete type there is nothing to do. -/
theorem completeType_of_complete (complete : s.Complete t) : completeType t s = (.ok (), s) := by
  unfold completeType
  rw [read_bind]
  cases entry : s.entryOf t with
  | none => rfl
  | some e =>
    by_cases parsed : e.form.isParsed = true
    · obtain ⟨functions, filled⟩ := complete e entry parsed
      simp only [parsed, if_true, bind_apply, completeFunctions_of_hasFunctions functions]
      cases form : e.form with
      | struct => exact completeSizes_of_filled (fieldsOf_struct entry form ▸ filled)
      | _ => rfl
    · simp only [parsed]
      rfl

theorem completeType_fills (t : TypeRef) : Keeps Store.Fills (completeType t) :=
  fun s => (completeType_achieves t s).filling.fills

theorem synthesise_fills : Keeps Store.Fills synthesise :=
  (keeps_read _).bind fun _ => .each fun t _ => completeType_fills t

/-- After a success, every registered type is complete. -/
theorem synthesise_complete (outcome : synthesise s = (.ok (), s')) {p : String × TypeRef}
    (registered : p ∈ s.types) : s'.Complete p.2 := by
  have each : Attempt.each completeType (s.types.map (·.2)) s = (.ok (), s') := outcome
  obtain ⟨u, v, -, completed, later⟩ := each_eq_ok_of_mem completeType_fills each
    (mem_map_of_mem registered)
  exact later.complete ((completeType_achieves p.2 u).reached v completed)

/-- Completing a protocol never replaces a size or a function that a type has, whether or not it
succeeds. Once it has succeeded, it succeeds again and changes nothing. -/
theorem synthesise_idempotent (s : Store) :
    (∀ t e, s.entryOf t = some e → ∃ e', (synthesise s).2.entryOf t = some e' ∧
      (e.size ≠ none → e'.size = e.size) ∧
      (e.parseFrom ≠ none → e'.parseFrom = e.parseFrom) ∧
      (e.serialiseTo ≠ none → e'.serialiseTo = e.serialiseTo)) ∧
    ∀ s', synthesise s = (.ok (), s') → synthesise s' = (.ok (), s') := by
  constructor
  · intro t e entry
    obtain ⟨e', entry', own⟩ := (synthesise_fills s).entryOf t e entry
    exact ⟨e', entry', own.size.resolve_left, own.parseFrom.resolve_left,
      own.serialiseTo.resolve_left⟩
  · intro s' outcome
    have fills : s.Fills s' := synthesise_fills.of_eq outcome
    show Attempt.each completeType (s'.types.map (·.2)) s' = (.ok (), s')
    rw [fills.types]
    refine each_eq_self fun t mem => ?_
    obtain ⟨p, registered, rfl⟩ := mem_map.mp mem
    exact completeType_of_complete (synthesise_complete outcome registered)

/-- Two structures of different lengths that share a field type without a size. -/
def sharedKind : Change Unit := do
  let kind ← makeEnum (some "Kind") []
  let octet ← makeBitString (some "Octet") (some (constantSize (.int 8)))
  let word ← makeBitString (some "Word") (some (constantSize (.int 16)))
  let always := Expr.const .boolean (.flag true)
  let short ← makeStruct (some "Short") [⟨"kind", kind, always⟩, ⟨"body", octet, always⟩] [] []
  let long ← makeStruct (some "Long") [⟨"body", word, always⟩, ⟨"kind", kind, always⟩] [] []
  each addType [kind, octet, word, short, long]

theorem synthesise_idempotent_sharedKind :
    ∃ s', synthesise (sharedKind .initial).2 = (.ok (), s') ∧ synthesise s' = (.ok (), s') := by
  have outcome : synthesise (sharedKind .initial).2 = _ := eq_ok_of_isOk (by decide +kernel)
  exact ⟨_, outcome, (synthesise_idempotent (sharedKind .initial).2).2 _ outcome⟩

end PacketDraft.Protocol
