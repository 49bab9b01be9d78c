import PacketDraft.Proofs.Protocol.Extension
import PacketDraft.Proofs.Sequence

/-!
# Stable typing

An expression that has a type keeps it, whatever is done to the protocol: what makes an expression
well typed are methods, fields and signatures that are there, and these stay. It matters that types
have no parents, as a new method could otherwise hide an inherited one.
-/

namespace PacketDraft.Protocol.Store

variable {s s' : Store} {c t : TypeRef} {name : String}

/-! ## When an expression has a type -/

section Success

variable {ε α : Type} {a : α} {x : Except ε α} {e : ε}

theorem orThrow_eq_ok {p : Prop} [Decidable p] :
    (if p then x else throw e) = .ok a ↔ p ∧ x = .ok a := by
  by_cases holds : p
  · rw [if_pos holds, and_iff_right holds]
  · rw [if_neg holds]
    constructor
    · intro impossible
      cases impossible
    · intro both
      exact absurd both.1 holds

theorem ifAnswer_eq_ok {ask : Except ε Bool} :
    (ask >>= fun answer => if answer = true then x else throw e) = .ok a ↔
      ask = .ok true ∧ x = .ok a := by
  rw [exceptBind_eq_ok]
  constructor
  · rintro ⟨answer, known, rest⟩
    obtain ⟨rfl, rest⟩ := orThrow_eq_ok.mp rest
    exact ⟨known, rest⟩
  · rintro ⟨known, rest⟩
    exact ⟨true, known, rest⟩

end Success

theorem resultType_field_eq_ok {target : Expr} :
    s.resultType c (.field target name) = .ok t ↔
      ∃ u, s.resultType c target = .ok u ∧ s.isStruct u = true ∧ s.fieldType u name = .ok t := by
  refine exceptBind_eq_ok.trans ?_
  exact exists_congr fun u => and_congr_right fun _ => orThrow_eq_ok

theorem resultType_ifelse_eq_ok {condition whenTrue whenFalse : Expr} :
    s.resultType c (.ifelse condition whenTrue whenFalse) = .ok t ↔
      ∃ b, s.resultType c condition = .ok b ∧ s.same b .boolean = true ∧
        s.resultType c whenTrue = .ok t ∧
        ∃ u, s.resultType c whenFalse = .ok u ∧ s.same t u = true := by
  refine exceptBind_eq_ok.trans (exists_congr fun b => and_congr_right fun _ => ?_)
  by_cases boolean : s.same b .boolean = true
  · simp only [boolean, Bool.not_true, Bool.false_eq_true, if_false, true_and, exceptBind_eq_ok,
      orThrow_eq_ok]
    constructor
    · rintro ⟨_, first, u, second, same, result⟩
      cases result
      exact ⟨first, u, second, same⟩
    · rintro ⟨first, u, second, same⟩
      exact ⟨t, first, u, second, same, rfl⟩
  · simp [boolean, exceptBind_eq_ok]

theorem resultType_method_eq_ok {target : Expr} {args : List (String × Expr)} :
    s.resultType c (.method target name args) = .ok t ↔
      ∃ types, s.argumentTypes c args = .ok types ∧ ∃ u, s.resultType c target = .ok u ∧
        ∃ m, s.getMethod u name = .ok m ∧ s.methodAccepts m u types = .ok true ∧
          closedResult (.methodResultOpen name) m.result = .ok t := by
  refine exceptBind_eq_ok.trans (exists_congr fun types => and_congr_right fun _ => ?_)
  rw [exceptBind_eq_ok]
  refine exists_congr fun u => and_congr_right fun _ => ?_
  rw [exceptBind_eq_ok]
  exact exists_congr fun m => and_congr_right fun _ => ifAnswer_eq_ok

theorem resultType_func_eq_ok {function : TypeRef} {args : List (String × Expr)} :
    s.resultType c (.func function args) = .ok t ↔
      ∃ f, s.signature? function = some f ∧ ∃ types, s.argumentTypes c args = .ok types ∧
        s.accepts f.name f.parameters types = .ok true ∧
          closedResult (.functionResultOpen f.name) f.result = .ok t := by
  rw [resultType]
  cases s.signature? function with
  | none => simp
  | some f =>
    simp only [Option.some.injEq, exists_eq_left']
    rw [exceptBind_eq_ok]
    exact exists_congr fun types => and_congr_right fun _ => ifAnswer_eq_ok

theorem argumentTypes_cons_eq_ok {value : Expr} {args : List (String × Expr)}
    {types : List (String × TypeRef)} :
    s.argumentTypes c ((name, value) :: args) = .ok types ↔
      ∃ u, s.resultType c value = .ok u ∧ ∃ rest, s.argumentTypes c args = .ok rest ∧
        (name, u) :: rest = types := by
  rw [argumentTypes]
  simp only [exceptBind_eq_ok]
  refine exists_congr fun u => and_congr_right fun _ => exists_congr fun rest =>
    and_congr_right fun _ => ?_
  show Except.ok ((name, u) :: rest) = Except.ok types ↔ _
  rw [Except.ok.injEq]

/-! ## What stays -/

theorem sameWithin_refl (s : Store) (depth : Nat) (t : TypeRef) :
    s.sameWithin depth t t = true := by
  cases depth with
  | zero => simp [sameWithin]
  | succ depth => cases t <;> simp [sameWithin]

theorem allAgree_mono {α : Type} {agree agree' : α → α → Bool} {xs ys : List α}
    (mono : ∀ x y, agree x y = true → agree' x y = true) (all : allAgree agree xs ys = true) :
    allAgree agree' xs ys = true := by
  simp only [allAgree, Bool.and_eq_true, List.all_eq_true] at all ⊢
  exact ⟨all.1, fun p mem => mono p.1 p.2 (all.2 p mem)⟩

/-- Functions with the same signature. -/
theorem sameWithin_succ_eq_true {depth : Nat} {m n : Nat} :
    s.sameWithin (depth + 1) (.id m) (.id n) = true ↔ m = n ∨
      ∃ e e', s.entries[m]? = some e ∧ s.entries[n]? = some e' ∧ e.name = e'.name ∧
        ∃ ps r qs u, e.form = .function ps r ∧ e'.form = .function qs u ∧
          allAgree (fun (p q : Parameter) =>
            p.name = q.name && s.sameWithin depth p.type q.type) ps qs = true ∧
          s.sameWithin depth r u = true := by
  rw [sameWithin, Bool.or_eq_true, decide_eq_true_iff]
  refine or_congr_right ?_
  split
  · next ps r name _ _ _ _ _ _ qs u name' _ _ _ _ _ _ first second =>
    simp only [first, second, Bool.and_eq_true, decide_eq_true_iff]
    constructor
    · rintro ⟨⟨named, agree⟩, results⟩
      exact ⟨_, _, rfl, rfl, named, ps, r, qs, u, rfl, rfl, agree, results⟩
    · rintro ⟨_, _, ⟨⟩, ⟨⟩, named, ps, r, qs, u, ⟨⟩, ⟨⟩, agree, results⟩
      exact ⟨⟨named, agree⟩, results⟩
  · next other =>
    constructor
    · intro impossible
      cases impossible
    · rintro ⟨e, e', first, second, -, ps, r, qs, u, left, right, -⟩
      obtain ⟨form, name, parent, size, methods, parseFrom, serialiseTo, group⟩ := e
      obtain ⟨form', name', parent', size', methods', parseFrom', serialiseTo', group'⟩ := e'
      cases left
      cases right
      exact absurd second (other _ _ _ _ _ _ _ _ _ _ _ _ _ _ _ _ _ _ first)

/-- Types that are the same stay so. -/
theorem sameWithin_mono (later : s.Extends s') {depth depth' : Nat} (le : depth ≤ depth')
    {a b : TypeRef} (same : s.sameWithin depth a b = true) :
    s'.sameWithin depth' a b = true := by
  induction depth generalizing depth' a b with
  | zero =>
    have equal : a = b := by
      simpa [sameWithin] using same
    rw [equal]
    exact sameWithin_refl s' depth' b
  | succ depth ih =>
    obtain ⟨depth', rfl⟩ : ∃ d, depth' = d + 1 := ⟨depth' - 1, by omega⟩
    have le : depth ≤ depth' := Nat.le_of_succ_le_succ le
    cases a with
    | absent =>
      have equal : TypeRef.absent = b := by simpa [sameWithin] using same
      exact equal ▸ sameWithin_refl s' _ _
    | var name =>
      have equal : TypeRef.var name = b := by simpa [sameWithin] using same
      exact equal ▸ sameWithin_refl s' _ _
    | id m =>
      cases b with
      | absent => simp [sameWithin] at same
      | var name => simp [sameWithin] at same
      | id n =>
        rcases sameWithin_succ_eq_true.mp same with
          equal | ⟨e, f, first, second, named, ps, r, qs, u, left, right, agree, results⟩
        · exact sameWithin_succ_eq_true.mpr (.inl equal)
        · obtain ⟨e', first', later₁⟩ := later.entries m e first
          obtain ⟨f', second', later₂⟩ := later.entries n f second
          have name₁ : e'.name = e.name := later₁.name.resolve_left (by simp [left])
          have name₂ : f'.name = f.name := later₂.name.resolve_left (by simp [right])
          refine sameWithin_succ_eq_true.mpr (.inr ⟨e', f', first', second', ?_, ps, r, qs, u,
            later₁.form.trans left, later₂.form.trans right, ?_, ih le results⟩)
          · rw [name₁, name₂, named]
          · refine allAgree_mono (fun p q both => ?_) agree
            rw [Bool.and_eq_true] at both ⊢
            exact ⟨both.1, ih le both.2⟩

theorem same_mono (later : s.Extends s') {a b : TypeRef} (same : s.same a b = true) :
    s'.same a b = true := by
  exact sameWithin_mono later later.length_le same

theorem isStruct_eq_true :
    s.isStruct t = true ↔ ∃ e, s.entryOf t = some e ∧ e.form = .struct := by
  unfold isStruct
  split
  · next entry => simp [entry]
  · next other =>
    constructor
    · intro impossible
      cases impossible
    · rintro ⟨⟨form, name, parent, size, methods, parseFrom, serialiseTo, group⟩, entry, rfl⟩
      exact absurd entry (other _ _ _ _ _ _ _)

theorem isStruct_mono (later : s.Extends s') (struct : s.isStruct t = true) :
    s'.isStruct t = true := by
  obtain ⟨e, entry, form⟩ := isStruct_eq_true.mp struct
  obtain ⟨e', entry', extends_⟩ := later.entryOf entry
  exact isStruct_eq_true.mpr ⟨e', entry', extends_.form.trans form⟩

theorem isSome_lookup_iff {α : Type} {xs : List (String × α)} {key : String} :
    (xs.lookup key).isSome = true ↔ key ∈ xs.map (·.1) := by
  simp only [List.lookup_isSome_iff, beq_iff_eq, List.mem_map, @eq_comm _ key]

theorem lookup_of_isPrefix {α : Type} {key : String} {value : α} {xs ys : List (String × α)}
    (start : xs <+: ys) (found : xs.lookup key = some value) : ys.lookup key = some value := by
  obtain ⟨more, rfl⟩ := start
  rw [List.lookup_append, found]
  rfl

/-- A table whose values are changed, but not its keys. -/
theorem lookup_map_snd {α β : Type} (f : α → β) (xs : List (String × α)) (key : String) :
    (xs.map fun p => (p.1, f p.2)).lookup key = (xs.lookup key).map f := by
  induction xs with
  | nil => rfl
  | cons x xs ih =>
    obtain ⟨k, a⟩ := x
    rw [List.map_cons, List.lookup_cons, List.lookup_cons, ih]
    cases key == k <;> rfl

theorem fieldType_eq_ok :
    s.fieldType t name = .ok c ↔ ∃ e, s.entryOf t = some e ∧
      ((e.form = .struct ∧ ((s.members e).fields.find? (·.name = name)).map (·.type) = some c) ∨
        (e.form = .context ∧ (s.members e).slots.lookup name = some c)) := by
  unfold fieldType
  cases entry : s.entryOf t with
  | none => simp
  | some e =>
    simp only [Option.some.injEq, exists_eq_left']
    cases form : e.form with
    | struct =>
      simp only [reduceCtorEq, false_and, or_false, true_and]
      cases ((s.members e).fields.find? (·.name = name)).map (·.type) with
      | none => simp
      | some u => simp
    | context =>
      simp only [reduceCtorEq, false_and, false_or, true_and]
      cases (s.members e).slots.lookup name with
      | none => simp
      | some u => simp
    | _ => simp

theorem fieldType_mono (later : s.Extends s') (field : s.fieldType t name = .ok c) :
    s'.fieldType t name = .ok c := by
  obtain ⟨e, entry, found⟩ := fieldType_eq_ok.mp field
  obtain ⟨e', entry', extends_⟩ := later.entryOf entry
  have members := later.members_of extends_
  refine fieldType_eq_ok.mpr ⟨e', entry', ?_⟩
  rw [extends_.form]
  refine found.imp (fun ⟨form, found⟩ => ⟨form, ?_⟩) (fun ⟨form, found⟩ => ⟨form, ?_⟩)
  · obtain ⟨f, there, type⟩ := Option.map_eq_some_iff.mp found
    exact Option.map_eq_some_iff.mpr ⟨f, members.fields.find?_eq_some there, type⟩
  · exact lookup_of_isPrefix members.slots found

/-- A type has the methods that were added to it and inherits none. -/
theorem Regular.getMethod_eq_ok (regular : s.Regular) {m : Signature} :
    s.getMethod t name = .ok m ↔ ∃ e, s.entryOf t = some e ∧ e.methods.lookup name = some m := by
  rw [getMethod, exceptBind_eq_ok, methodWithin]
  cases entry : s.entryOf t with
  | none => simp
  | some e =>
    simp only [regular.parent_of entry, Option.some.injEq, exists_eq_left']
    cases e.methods.lookup name with
    | none => simp
    | some m' => simp [pure, Except.pure]

theorem Regular.getMethod_mono (regular : s.Regular) (regular' : s'.Regular)
    (later : s.Extends s') {m : Signature} (method : s.getMethod t name = .ok m) :
    s'.getMethod t name = .ok m := by
  obtain ⟨e, entry, found⟩ := regular.getMethod_eq_ok.mp method
  obtain ⟨e', entry', extends_⟩ := later.entryOf entry
  exact regular'.getMethod_eq_ok.mpr ⟨e', entry', lookup_of_isPrefix extends_.methods found⟩

/-- No type descends from another one. -/
theorem Regular.isA_ne_true (regular : s.Regular) (a b : TypeRef) : s.isA a b ≠ .ok true := by
  intro descends
  rw [isA, exceptBind_eq_ok, ancestorsWithin] at descends
  cases entry : s.entryOf a with
  | none => simp [entry] at descends
  | some e => simp [entry, regular.parent_of entry, pure, Except.pure] at descends

/-- One more parameter with its argument. -/
theorem Regular.accepts_cons_eq_true (regular : s.Regular) {function : String} {p : Parameter}
    {ps : List Parameter} {args : List (String × TypeRef)} :
    s.accepts function (p :: ps) ((name, t) :: args) = .ok true ↔
      (∀ x, p.type ≠ .var x) ∧ p.name = name ∧
        ((∃ x, t = .var x) ∨ s.same p.type t = true) ∧ s.accepts function ps args = .ok true := by
  obtain ⟨given, type⟩ := p
  have closed : ∀ u, (if given ≠ name then pure false
      else if s.same type u = true then s.accepts function ps args
      else do if ← s.isA u type then s.accepts function ps args else return false)
        = Except.ok true ↔
      given = name ∧ s.same type u = true ∧ s.accepts function ps args = .ok true := by
    intro u
    by_cases named : given = name
    · by_cases same : s.same type u = true
      · simp [named, same]
      · simp [named, same, exceptBind_eq_ok, regular.isA_ne_true, pure, Except.pure]
    · simp [named, pure, Except.pure]
  cases type with
  | var x => simp [accepts]
  | absent => cases t with
    | var x => by_cases named : given = name <;> simp [accepts, named]
    | absent => simpa [accepts] using closed .absent
    | id n => simpa [accepts] using closed (.id n)
  | id m => cases t with
    | var x => by_cases named : given = name <;> simp [accepts, named]
    | absent => simpa [accepts] using closed .absent
    | id n => simpa [accepts] using closed (.id n)

theorem Regular.accepts_mono (regular : s.Regular) (regular' : s'.Regular)
    (later : s.Extends s') {function : String} {ps : List Parameter}
    {args : List (String × TypeRef)} (accepted : s.accepts function ps args = .ok true) :
    s'.accepts function ps args = .ok true := by
  induction ps generalizing args with
  | nil => rw [accepts]
  | cons p ps ih =>
    cases args with
    | nil => simp [accepts]
    | cons arg args =>
      obtain ⟨closed, named, fits, rest⟩ := regular.accepts_cons_eq_true.mp accepted
      exact regular'.accepts_cons_eq_true.mpr
        ⟨closed, named, fits.imp_right (same_mono later), ih rest⟩

theorem methodAccepts_eq_true {f : Signature} {self : TypeRef} {args : List (String × TypeRef)} :
    s.methodAccepts f self args = .ok true ↔ f.isMethod = .ok true ∧
      s.accepts f.name f.parameters (("self", self) :: args) = .ok true := by
  rw [methodAccepts, exceptBind_eq_ok]
  constructor
  · rintro ⟨answer, known, rest⟩
    cases answer with
    | false => simp [pure, Except.pure] at rest
    | true => exact ⟨known, rest⟩
  · rintro ⟨known, rest⟩
    exact ⟨true, known, rest⟩

theorem signature?_mono (later : s.Extends s') {f : Signature}
    (signature : s.signature? t = some f) : s'.signature? t = some f := by
  unfold signature? at signature ⊢
  cases entry : s.entryOf t with
  | none => simp [entry] at signature
  | some e =>
    obtain ⟨e', entry', extends_⟩ := later.entryOf entry
    cases form : e.form with
    | function parameters result =>
      have name : e'.name = e.name := extends_.name.resolve_left (by simp [form])
      simpa [entry, entry', extends_.form, form, Entry.shownName, name] using signature
    | _ => simp [entry, form] at signature

/-! ## Expressions -/

mutual

/-- An expression keeps its type. -/
theorem Regular.resultType_mono (regular : s.Regular) (regular' : s'.Regular)
    (later : s.Extends s') (x : Expr) {t : TypeRef} (typed : s.resultType c x = .ok t) :
    s'.resultType c x = .ok t := by
  cases x with
  | const type value => simpa [resultType] using typed
  | self => simpa [resultType] using typed
  | field target name =>
    obtain ⟨u, target_, struct, field⟩ := resultType_field_eq_ok.mp typed
    exact resultType_field_eq_ok.mpr ⟨u, regular.resultType_mono regular' later target target_,
      isStruct_mono later struct, fieldType_mono later field⟩
  | ctx name context =>
    rw [resultType] at typed ⊢
    exact fieldType_mono later typed
  | ifelse condition whenTrue whenFalse =>
    obtain ⟨b, condition_, boolean, first, u, second, same⟩ := resultType_ifelse_eq_ok.mp typed
    exact resultType_ifelse_eq_ok.mpr
      ⟨b, regular.resultType_mono regular' later condition condition_, same_mono later boolean,
        regular.resultType_mono regular' later whenTrue first, u,
        regular.resultType_mono regular' later whenFalse second, same_mono later same⟩
  | arg name value =>
    rw [resultType] at typed ⊢
    exact regular.resultType_mono regular' later value typed
  | method target name args =>
    obtain ⟨types, args_, u, target_, m, method, accepted, result⟩ :=
      resultType_method_eq_ok.mp typed
    obtain ⟨isMethod, accepted⟩ := methodAccepts_eq_true.mp accepted
    exact resultType_method_eq_ok.mpr
      ⟨types, regular.argumentTypes_mono regular' later args args_, u,
        regular.resultType_mono regular' later target target_, m,
        regular.getMethod_mono regular' later method,
        methodAccepts_eq_true.mpr ⟨isMethod, regular.accepts_mono regular' later accepted⟩,
        result⟩
  | func function args =>
    obtain ⟨f, signature, types, args_, accepted, result⟩ := resultType_func_eq_ok.mp typed
    exact resultType_func_eq_ok.mpr
      ⟨f, signature?_mono later signature, types,
        regular.argumentTypes_mono regular' later args args_,
        regular.accepts_mono regular' later accepted, result⟩
termination_by structural x

theorem Regular.argumentTypes_mono (regular : s.Regular) (regular' : s'.Regular)
    (later : s.Extends s') (args : List (String × Expr)) {types : List (String × TypeRef)}
    (typed : s.argumentTypes c args = .ok types) : s'.argumentTypes c args = .ok types := by
  cases args with
  | nil => simpa [argumentTypes] using typed
  | cons arg args =>
    obtain ⟨name, value⟩ := arg
    obtain ⟨u, value_, rest, args_, rfl⟩ := argumentTypes_cons_eq_ok.mp typed
    exact argumentTypes_cons_eq_ok.mpr ⟨u, regular.resultType_mono regular' later value value_,
      rest, regular.argumentTypes_mono regular' later args args_, rfl⟩
termination_by structural args

end

end PacketDraft.Protocol.Store
