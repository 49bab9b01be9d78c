import Mathlib.Data.List.Nodup
import PacketDraft.Proofs.Protocol.Plain
import PacketDraft.Proofs.Protocol.SizeTyping

/-!
# Implementing a trait

A trait is implemented method by method. Each method is added under its name, with types in the place
of its type variables. The first method whose name is taken, or not the name of a function, or that
has a variable without a type, ends the attempt; the methods before it stay, and the trait is noted
only after the last one. Methods mention no variables as long as all variables stand for types.
-/

namespace PacketDraft.Protocol

open Attempt List

/-! ## Variables of methods -/

/-- The name of a type variable. -/
def TypeRef.varName? : TypeRef → Option String
  | .var name => some name
  | _ => none

/-- The types of the result and of the parameters. -/
def Signature.mentioned (m : Signature) : List TypeRef :=
  m.result :: m.parameters.map (·.type)

/-- The type variables of the result and of the parameters. -/
def Signature.variables (m : Signature) : List String :=
  m.mentioned.filterMap TypeRef.varName?

/-- The type that a variable stands for, in its place. -/
def TypeRef.under (types : String → Option TypeRef) : TypeRef → TypeRef
  | .var name => (types name).getD (.var name)
  | t => t

/-- The method with types in the place of its variables. -/
def Signature.under (types : String → Option TypeRef) (m : Signature) : Signature where
  name := m.name
  parameters := m.parameters.map fun p => { p with type := p.type.under types }
  result := m.result.under types

/-- What variables stand for where `t` implements a trait: what is given for them, and else `T` for
`t` itself. -/
def standsFor (t : TypeRef) (vars : List (String × TypeRef)) (name : String) : Option TypeRef :=
  (vars.lookup name).or (if name = "T" then some t else none)

section Variables

variable {vars : List (String × TypeRef)} {m : Signature}

theorem lookup_eq_standsFor (t : TypeRef) (vars : List (String × TypeRef)) :
    ((vars ++ [("T", t)]).lookup ·) = standsFor t vars := by
  funext name
  unfold standsFor
  rw [lookup_append]
  by_cases own : name = "T"
  · simp [own]
  · have differs : (name == "T") = false := by simpa using own
    simp [own, lookup_cons, differs]

theorem resolve_ok {r : TypeRef} (mapped : ∀ x ∈ r.varName?, vars.lookup x ≠ none) :
    resolve vars r = .ok (r.under (vars.lookup ·)) := by
  cases r with
  | var x =>
    obtain ⟨t, found⟩ := Option.ne_none_iff_exists'.mp (mapped x rfl)
    simp [resolve, TypeRef.under, found]
  | _ => rfl

theorem resolve_error {r : TypeRef} {x : String} (own : x ∈ r.varName?)
    (unmapped : vars.lookup x = none) : resolve vars r = .error .notFound := by
  cases r with
  | var y =>
    cases own
    simp [resolve, unmapped]
  | _ => cases own

theorem resolve_ok_or_error (vars : List (String × TypeRef)) (r : TypeRef) :
    resolve vars r = .ok (r.under (vars.lookup ·)) ∨ resolve vars r = .error .notFound := by
  by_cases mapped : ∀ x ∈ r.varName?, vars.lookup x ≠ none
  · exact .inl (resolve_ok mapped)
  · push Not at mapped
    obtain ⟨x, own, unmapped⟩ := mapped
    exact .inr (resolve_error own unmapped)

/-- The parameters of a method get their types from first to last. -/
theorem parameters_ok {ps : List Parameter}
    (mapped : ∀ p ∈ ps, ∀ x ∈ p.type.varName?, vars.lookup x ≠ none) :
    (ps.mapM fun p => do
        let type ← resolve vars p.type
        return { p with type } : Except Fault (List Parameter))
      = .ok (ps.map fun p => { p with type := p.type.under (vars.lookup ·) }) := by
  induction ps with
  | nil => rfl
  | cons p ps ih =>
    rw [forall_mem_cons] at mapped
    rw [mapM_cons, resolve_ok mapped.1, ih mapped.2]
    rfl

theorem parameters_error {ps : List Parameter} {p : Parameter} {x : String} (listed : p ∈ ps)
    (own : x ∈ p.type.varName?) (unmapped : vars.lookup x = none) :
    (ps.mapM fun p => do
        let type ← resolve vars p.type
        return { p with type } : Except Fault (List Parameter)) = .error .notFound := by
  induction ps with
  | nil => cases listed
  | cons q ps ih =>
    rw [mapM_cons]
    rcases mem_cons.mp listed with rfl | later
    · rw [resolve_error own unmapped]
      rfl
    · rcases resolve_ok_or_error vars q.type with known | unknown
      · rw [known, ih later]
        rfl
      · rw [unknown]
        rfl

theorem instantiate_of_mapped (mapped : ∀ x ∈ m.variables, vars.lookup x ≠ none) :
    m.instantiate vars = if isMemberName m.name = true then .ok (m.under (vars.lookup ·))
      else .error (.typing (.malformedType m.name)) := by
  have result : ∀ x ∈ m.result.varName?, vars.lookup x ≠ none := by
    intro x own
    exact mapped x (mem_filterMap.mpr ⟨m.result, mem_cons_self, own⟩)
  have parameters : ∀ p ∈ m.parameters, ∀ x ∈ p.type.varName?, vars.lookup x ≠ none := by
    intro p listed x own
    refine mapped x (mem_filterMap.mpr ⟨p.type, mem_cons_of_mem _ ?_, own⟩)
    exact mem_map_of_mem listed
  unfold Signature.instantiate
  rw [resolve_ok result, parameters_ok parameters]
  show ((if isMemberName m.name = true then Except.ok m.name
    else .error (Fault.typing (.malformedType m.name))) >>= _) = _
  split <;> rfl

theorem instantiate_error {x : String} (own : x ∈ m.variables) (unmapped : vars.lookup x = none) :
    m.instantiate vars = .error .notFound := by
  obtain ⟨r, mentioned, inside⟩ := mem_filterMap.mp own
  unfold Signature.instantiate
  rcases mem_cons.mp mentioned with rfl | parameter
  · rw [resolve_error inside unmapped]
    rfl
  · obtain ⟨p, listed, rfl⟩ := mem_map.mp parameter
    rw [parameters_error listed inside unmapped]
    rcases resolve_ok_or_error vars m.result with known | unknown
    · rw [known]
      rfl
    · rw [unknown]
      rfl

end Variables

/-! ## Methods one by one -/

/-- A method that cannot be added where methods have these names: its name is one of them, or it has
a variable that stands for nothing. -/
def Signature.Blocked (types : String → Option TypeRef) (taken : List String) (m : Signature) :
    Prop :=
  m.name ∈ taken ∨ ∃ x ∈ m.variables, types x = none

/-- Methods that can be added one after the other. -/
structure Addable (types : String → Option TypeRef) (taken : List String) (ms : List Signature) :
    Prop where
  fresh : ∀ m ∈ ms, m.name ∉ taken
  distinct : (ms.map (·.name)).Nodup
  mapped : ∀ m ∈ ms, ∀ x ∈ m.variables, types x ≠ none

/-- Methods whose names are those of functions. -/
def Named (ms : List Signature) : Prop :=
  ∀ m ∈ ms, isMemberName m.name = true

/-- What is said against a method that cannot be added. -/
def Signature.objection (types : String → Option TypeRef) (shown : String) (taken : List String)
    (m : Signature) : Fault :=
  if m.name ∈ taken then .typing (.methodTwice shown m.name)
  else if ∃ x ∈ m.variables, types x = none then .notFound
  else .typing (.malformedType m.name)

section Addable

variable {types : String → Option TypeRef} {taken : List String} {m : Signature}
  {ms done rest : List Signature}

theorem addable_nil : Addable types taken [] :=
  ⟨by simp, nodup_nil, by simp⟩

theorem addable_append :
    Addable types taken (done ++ ms) ↔
      Addable types taken done ∧ Addable types (taken ++ done.map (·.name)) ms := by
  constructor
  · rintro ⟨fresh, distinct, mapped⟩
    rw [forall_mem_append] at fresh mapped
    rw [map_append, nodup_append] at distinct
    refine ⟨⟨fresh.1, distinct.1, mapped.1⟩, ?_, distinct.2.1, mapped.2⟩
    intro m mem listed
    rcases mem_append.mp listed with old | new
    · exact fresh.2 m mem old
    · exact distinct.2.2 m.name new m.name (mem_map_of_mem mem) rfl
  · rintro ⟨⟨fresh, distinct, mapped⟩, fresh', distinct', mapped'⟩
    refine ⟨forall_mem_append.mpr ⟨fresh, fun m mem old => ?_⟩, ?_,
      forall_mem_append.mpr ⟨mapped, mapped'⟩⟩
    · exact fresh' m mem (mem_append_left _ old)
    · rw [map_append, nodup_append]
      refine ⟨distinct, distinct', ?_⟩
      rintro name listed name' listed' rfl
      obtain ⟨m, mem, rfl⟩ := mem_map.mp listed'
      exact fresh' m mem (mem_append_right _ listed)

theorem addable_singleton : Addable types taken [m] ↔ ¬ m.Blocked types taken := by
  unfold Signature.Blocked
  constructor
  · rintro ⟨fresh, -, mapped⟩ (old | ⟨x, own, unmapped⟩)
    · exact fresh m (mem_singleton_self m) old
    · exact mapped m (mem_singleton_self m) x own unmapped
  · intro free
    push Not at free
    exact ⟨forall_mem_singleton.mpr free.1, nodup_singleton _,
      forall_mem_singleton.mpr free.2⟩

/-- If not all methods can be added, then there is a first that cannot. -/
theorem addable_or_refused (types : String → Option TypeRef) (taken : List String)
    (ms : List Signature) :
    Addable types taken ms ∧ Named ms ∨ ∃ done m rest, ms = done ++ m :: rest ∧
      Addable types taken done ∧ Named done ∧
      (m.Blocked types (taken ++ done.map (·.name)) ∨ isMemberName m.name = false) := by
  induction ms using List.reverseRecOn with
  | nil => exact .inl ⟨addable_nil, by simp [Named]⟩
  | append_singleton ms m ih =>
    rcases ih with ⟨addable, named⟩ | ⟨done, first, rest, rfl, addable, named, refused⟩
    · by_cases refused : m.Blocked types (taken ++ ms.map (·.name)) ∨ isMemberName m.name = false
      · exact .inr ⟨ms, m, [], rfl, addable, named, refused⟩
      · obtain ⟨free, own⟩ := not_or.mp refused
        refine .inl ⟨addable_append.mpr ⟨addable, addable_singleton.mpr free⟩, ?_⟩
        exact forall_mem_append.mpr ⟨named, forall_mem_singleton.mpr (by simpa using own)⟩
    · exact .inr ⟨done, first, rest ++ [m], by simp, addable, named, refused⟩

end Addable

namespace Store

/-- A store in which a type has further methods. -/
def withMethods (s : Store) (t : TypeRef) (more : List (String × Signature)) : Store :=
  s.modifyEntry t fun e => { e with methods := e.methods ++ more }

/-- A store in which a type has one more trait. -/
def withTrait (s : Store) (t : TypeRef) (trait : Trait) : Store :=
  s.modifyMembers t fun ms => { ms with traits := ms.traits ++ [trait] }

/-- A type has a trait already. -/
def Implements (s : Store) (t : TypeRef) (trait : Trait) : Prop :=
  ∃ old ∈ s.traits t, s.sameTrait old trait = true

variable {s : Store} {t : TypeRef} {e : Entry}

theorem withMethods_nil (s : Store) (t : TypeRef) : s.withMethods t [] = s := by
  have same : (fun e : Entry => { e with methods := e.methods ++ [] }) = id := by
    funext e
    simp
  unfold withMethods
  rw [same]
  cases t with
  | id n => simp [modifyEntry]
  | _ => rfl

theorem withMethods_append (s : Store) (t : TypeRef) (more later : List (String × Signature)) :
    (s.withMethods t more).withMethods t later = s.withMethods t (more ++ later) := by
  cases t with
  | id n =>
    simp only [withMethods, modifyEntry, modify_modify_eq]
    congr 2
    funext e
    simp
  | _ => rfl

theorem entryOf_withMethods (entry : s.entryOf t = some e) (more : List (String × Signature)) :
    (s.withMethods t more).entryOf t = some { e with methods := e.methods ++ more } :=
  entryOf_modifyEntry_self _ entry

theorem members_modifyEntry (s : Store) (t : TypeRef) (f : Entry → Entry) (e : Entry) :
    (s.modifyEntry t f).members e = s.members e :=
  membersAt_modifyEntry s t f e.group

theorem shown_of_entryOf (entry : s.entryOf t = some e) :
    s.shown t = e.form.label ++ "<" ++ e.name.getD "" ++ "::"
      ++ " ".intercalate ((s.members e).traits.map (·.name)) ++ ">" := by
  obtain ⟨n, rfl, -⟩ := entryOf_eq_some entry
  have entry : s.entries[n]? = some e := entry
  unfold shown
  dsimp only
  rw [entry]

theorem shown_withMethods (entry : s.entryOf t = some e) (more : List (String × Signature)) :
    (s.withMethods t more).shown t = s.shown t := by
  have members : (s.withMethods t more).members { e with methods := e.methods ++ more }
      = s.members e := members_modifyEntry s t _ e
  rw [shown_of_entryOf entry, shown_of_entryOf (entryOf_withMethods entry more), members]

theorem members_modifyMembers (entry : s.entryOf t = some e) (housed : e.group < s.groups.length)
    (f : Members → Members) : (s.modifyMembers t f).members e = f (s.members e) := by
  simp [members, modifyMembers, entry, housed]

end Store

section Effect

variable {s : Store} {t : TypeRef} {e : Entry} {vars : List (String × TypeRef)} {m : Signature}
  {ms done rest : List Signature} {trait : Trait}

/-- A method under its name, with types in the place of its variables. -/
def Signature.implemented (types : String → Option TypeRef) (m : Signature) : String × Signature :=
  (m.name, m.under types)

theorem taken_iff (entry : s.entryOf t = some e) (name : String) :
    ((s.entryOf t).any fun e => (e.methods.lookup name).isSome) = true ↔
      name ∈ e.methods.map (·.1) := by
  rw [entry, Option.any_some, Store.isSome_lookup_iff]

theorem implementMethod_added (entry : s.entryOf t = some e)
    (free : ¬ m.Blocked (vars.lookup ·) (e.methods.map (·.1))) (named : isMemberName m.name = true) :
    implementMethod t vars m s
      = (.ok (), s.withMethods t [m.implemented (vars.lookup ·)]) := by
  obtain ⟨fresh, mapped⟩ := not_or.mp free
  push Not at mapped
  unfold implementMethod
  rw [read_bind, if_neg (mt (taken_iff entry m.name).mp fresh), instantiate_of_mapped mapped,
    if_pos named]
  rfl

theorem implementMethod_refused (entry : s.entryOf t = some e)
    (refused : m.Blocked (vars.lookup ·) (e.methods.map (·.1)) ∨ isMemberName m.name = false) :
    implementMethod t vars m s
      = (.error (m.objection (vars.lookup ·) (s.shown t) (e.methods.map (·.1))), s) := by
  have taken := taken_iff entry m.name
  unfold implementMethod Signature.objection
  rw [read_bind]
  by_cases old : m.name ∈ e.methods.map (·.1)
  · rw [if_pos (taken.mpr old), if_pos old]
    rfl
  rw [if_neg (mt taken.mp old), if_neg old]
  by_cases missing : ∃ x ∈ m.variables, vars.lookup x = none
  · obtain ⟨x, own, unmapped⟩ := missing
    rw [if_pos ⟨x, own, unmapped⟩, instantiate_error own unmapped]
    rfl
  · have malformed := refused.resolve_left (not_or.mpr ⟨old, missing⟩)
    rw [if_neg missing]
    push Not at missing
    rw [instantiate_of_mapped missing, if_neg (by simp [malformed])]
    rfl

theorem each_append {σ α : Type} (f : α → Attempt σ Unit) (as bs : List α) :
    each f (as ++ bs) = (each f as >>= fun _ => each f bs) := by
  induction as with
  | nil => rfl
  | cons a as ih =>
    show (f a >>= fun _ => each f (as ++ bs)) = (f a >>= fun _ => each f as) >>= fun _ => each f bs
    rw [ih, bind_assoc]

/-- All methods are added, in their order. -/
theorem each_added (entry : s.entryOf t = some e)
    (addable : Addable (vars.lookup ·) (e.methods.map (·.1)) ms) (named : Named ms) :
    each (implementMethod t vars) ms s
      = (.ok (), s.withMethods t (ms.map (·.implemented (vars.lookup ·)))) := by
  induction ms generalizing s e with
  | nil =>
    rw [map_nil, Store.withMethods_nil]
    rfl
  | cons m ms ih =>
    rw [← singleton_append, addable_append] at addable
    obtain ⟨own, named⟩ := forall_mem_cons.mp named
    have later := Store.entryOf_withMethods entry [m.implemented (vars.lookup ·)]
    show (implementMethod t vars m >>= fun _ => each (implementMethod t vars) ms) s = _
    rw [bind_apply, implementMethod_added entry (addable_singleton.mp addable.1) own]
    show each (implementMethod t vars) ms (s.withMethods t _) = _
    rw [ih later (by simpa [Signature.implemented] using addable.2) named, Store.withMethods_append]
    rfl

/-- The methods before the first that cannot be added stay. -/
theorem each_refused (entry : s.entryOf t = some e)
    (addable : Addable (vars.lookup ·) (e.methods.map (·.1)) done) (named : Named done)
    (refused : m.Blocked (vars.lookup ·) (e.methods.map (·.1) ++ done.map (·.name)) ∨
      isMemberName m.name = false) :
    each (implementMethod t vars) (done ++ m :: rest) s
      = (.error (m.objection (vars.lookup ·) (s.shown t)
            (e.methods.map (·.1) ++ done.map (·.name))),
          s.withMethods t (done.map (·.implemented (vars.lookup ·)))) := by
  have later := Store.entryOf_withMethods entry (done.map (·.implemented (vars.lookup ·)))
  have names : (e.methods ++ done.map (·.implemented (vars.lookup ·))).map (·.1)
      = e.methods.map (·.1) ++ done.map (·.name) := by
    simp [Signature.implemented]
  rw [each_append, bind_apply, each_added entry addable named]
  show (implementMethod t vars m >>= fun _ => each (implementMethod t vars) rest) _ = _
  rw [← names] at refused
  rw [bind_apply, implementMethod_refused later refused, Store.shown_withMethods entry, names]

/-! ## The whole trait -/

section

variable (entry : s.entryOf t = some e) (other : e.form.isPrimitive = false)

include entry other

theorem implementTrait_twice (twice : s.Implements t trait) (vars : List (String × TypeRef)) :
    implementTrait t trait vars s
      = (.error (.typing (.traitTwice (s.shown t) trait.name)), s) := by
  have present : (s.traits t).any (s.sameTrait · trait) = true := any_eq_true.mpr twice
  unfold implementTrait
  rw [read_bind, entry]
  simp only [other, Bool.false_eq_true, if_false]
  rw [read_bind, if_pos present]
  rfl

theorem implementTrait_once (new : ¬ s.Implements t trait) (vars : List (String × TypeRef)) :
    implementTrait t trait vars s
      = (each (implementMethod t (vars ++ [("T", t)])) trait.methods >>= fun _ =>
          update (·.withTrait t trait)) s := by
  have absent : ¬ (s.traits t).any (s.sameTrait · trait) = true := mt any_eq_true.mp new
  unfold implementTrait
  rw [read_bind, entry]
  simp only [other, Bool.false_eq_true, if_false]
  rw [read_bind, if_neg absent]
  rfl

/-- What comes of implementing a trait: the type has it already, all methods are added and then the
trait, or there is a first method that cannot be added. -/
theorem implementTrait_cases (trait : Trait) (vars : List (String × TypeRef)) :
    let types := standsFor t vars
    let taken := e.methods.map (·.1)
    s.Implements t trait ∧ implementTrait t trait vars s
        = (.error (.typing (.traitTwice (s.shown t) trait.name)), s) ∨
      ¬ s.Implements t trait ∧
        (Addable types taken trait.methods ∧ Named trait.methods ∧ implementTrait t trait vars s
            = (.ok (), (s.withMethods t (trait.methods.map (·.implemented types))).withTrait t trait) ∨
          ∃ done m rest, trait.methods = done ++ m :: rest ∧ Addable types taken done ∧ Named done ∧
            (m.Blocked types (taken ++ done.map (·.name)) ∨ isMemberName m.name = false) ∧
            implementTrait t trait vars s
              = (.error (m.objection types (s.shown t) (taken ++ done.map (·.name))),
                  s.withMethods t (done.map (·.implemented types)))) := by
  intro types taken
  by_cases twice : s.Implements t trait
  · exact .inl ⟨twice, implementTrait_twice entry other twice vars⟩
  · refine .inr ⟨twice, ?_⟩
    rw [implementTrait_once entry other twice vars, bind_apply]
    have own : types = ((vars ++ [("T", t)]).lookup ·) := (lookup_eq_standsFor t vars).symm
    rw [own]
    rcases addable_or_refused ((vars ++ [("T", t)]).lookup ·) taken trait.methods with
      ⟨addable, named⟩ | ⟨done, m, rest, split, addable, named, refused⟩
    · rw [each_added entry addable named]
      exact .inl ⟨addable, named, rfl⟩
    · rw [split, each_refused entry addable named refused]
      exact .inr ⟨done, m, rest, rfl, addable, named, refused, rfl⟩

theorem implementTrait_eq_ok_iff :
    (implementTrait t trait vars s).1 = .ok () ↔
      ¬ s.Implements t trait ∧ Addable (standsFor t vars) (e.methods.map (·.1)) trait.methods ∧
        Named trait.methods := by
  rcases implementTrait_cases entry other trait vars with
    ⟨twice, outcome⟩ | ⟨new, ⟨addable, named, outcome⟩ |
      ⟨done, m, rest, split, -, -, refused, outcome⟩⟩
  · simp [outcome, twice]
  · simp [outcome, new, addable, named]
  · have none : ¬ (Addable (standsFor t vars) (e.methods.map (·.1)) trait.methods ∧
        Named trait.methods) := by
      rw [split]
      rintro ⟨addable, named⟩
      rw [← singleton_append (l := rest), addable_append, addable_append] at addable
      rcases refused with blocked | malformed
      · exact addable_singleton.mp addable.2.1 blocked
      · rw [named m (by simp)] at malformed
        cases malformed
    simp [outcome, none]

theorem implementTrait_of_ok (ok : (implementTrait t trait vars s).1 = .ok ()) :
    (implementTrait t trait vars s).2
      = (s.withMethods t (trait.methods.map (·.implemented (standsFor t vars)))).withTrait t trait := by
  rcases implementTrait_cases entry other trait vars with
    ⟨-, outcome⟩ | ⟨-, ⟨-, -, outcome⟩ | ⟨done, m, rest, -, -, -, -, outcome⟩⟩
  · simp [outcome] at ok
  · rw [outcome]
  · simp [outcome] at ok

/-- Where a trait is not implemented, some of its methods may be. -/
theorem implementTrait_of_not_ok (failed : (implementTrait t trait vars s).1 ≠ .ok ()) :
    ∃ more, (implementTrait t trait vars s).2 = s.withMethods t more := by
  rcases implementTrait_cases entry other trait vars with
    ⟨-, outcome⟩ | ⟨-, ⟨-, -, outcome⟩ | ⟨done, m, rest, -, -, -, -, outcome⟩⟩
  · refine ⟨[], ?_⟩
    rw [outcome, Store.withMethods_nil]
  · simp [outcome] at failed
  · exact ⟨_, congrArg Prod.snd outcome⟩

/-- Whatever comes of it, the type has further methods behind its own. -/
theorem implementTrait_entryOf (trait : Trait) (vars : List (String × TypeRef)) :
    ∃ more, (implementTrait t trait vars s).2.entryOf t
      = some { e with methods := e.methods ++ more } := by
  by_cases ok : (implementTrait t trait vars s).1 = .ok ()
  · rw [implementTrait_of_ok entry other ok, Store.withTrait, Store.entryOf_modifyMembers]
    exact ⟨_, Store.entryOf_withMethods entry _⟩
  · obtain ⟨more, after⟩ := implementTrait_of_not_ok entry other ok
    rw [after]
    exact ⟨_, Store.entryOf_withMethods entry _⟩

/-- The other types stay as they are. -/
theorem implementTrait_entryOf_ne (trait : Trait) (vars : List (String × TypeRef)) {u : TypeRef}
    (differs : t ≠ u) : (implementTrait t trait vars s).2.entryOf u = s.entryOf u := by
  by_cases ok : (implementTrait t trait vars s).1 = .ok ()
  · rw [implementTrait_of_ok entry other ok, Store.withTrait, Store.entryOf_modifyMembers]
    exact Store.entryOf_modifyEntry_ne _ differs
  · obtain ⟨more, after⟩ := implementTrait_of_not_ok entry other ok
    rw [after]
    exact Store.entryOf_modifyEntry_ne _ differs

/-- A trait is noted once all its methods are there. -/
theorem implementTrait_members (housed : e.group < s.groups.length) (trait : Trait)
    (vars : List (String × TypeRef)) :
    (implementTrait t trait vars s).2.members e
      = if (implementTrait t trait vars s).1 = .ok () then
          { s.members e with traits := (s.members e).traits ++ [trait] }
        else s.members e := by
  split
  · next ok =>
    have later := Store.entryOf_withMethods entry
      (trait.methods.map (·.implemented (standsFor t vars)))
    have there : e.group < (s.withMethods t
        (trait.methods.map (·.implemented (standsFor t vars)))).groups.length := by
      rw [Store.withMethods, Store.groups_modifyEntry]
      exact housed
    rw [implementTrait_of_ok entry other ok]
    exact (Store.members_modifyMembers later there _).trans
      (congrArg (fun ms : Members => { ms with traits := ms.traits ++ [trait] })
        (Store.members_modifyEntry s t _ e))
  · next failed =>
    obtain ⟨more, after⟩ := implementTrait_of_not_ok entry other failed
    rw [after]
    exact Store.members_modifyEntry s t _ e

end

end Effect

/-! ## Methods of all types -/

/-- Every type has members, and all types that its methods mention are of a kind. -/
structure Store.Resolved (P : TypeRef → Prop) (s : Store) : Prop where
  housed : ∀ e ∈ s.entries, e.group < s.groups.length
  methods : ∀ e ∈ s.entries, ∀ p ∈ e.methods, ∀ r ∈ p.2.mentioned, P r

section Resolved

variable {P : TypeRef → Prop}

namespace Store.Resolved

variable {s : Store} {t : TypeRef} {e : Entry}

section

variable (resolved : s.Resolved P)

include resolved

theorem modifyEntry {f : Entry → Entry} (group : ∀ e, (f e).group = e.group)
    (methods : ∀ e, (∀ p ∈ e.methods, ∀ r ∈ p.2.mentioned, P r) →
      ∀ p ∈ (f e).methods, ∀ r ∈ p.2.mentioned, P r) : (s.modifyEntry t f).Resolved P := by
  cases t with
  | id n =>
    refine ⟨forall_mem_modify resolved.housed (fun e housed => ?_) n,
      forall_mem_modify resolved.methods methods n⟩
    rw [group e]
    exact housed
  | _ => exact resolved

theorem modifyEntry_same {f : Entry → Entry}
    (same : ∀ e, (f e).group = e.group ∧ (f e).methods = e.methods) :
    (s.modifyEntry t f).Resolved P := by
  refine resolved.modifyEntry (fun e => (same e).1) fun e own => ?_
  rw [(same e).2]
  exact own

theorem modifyMembers {f : Members → Members} : (s.modifyMembers t f).Resolved P := by
  unfold Store.modifyMembers
  split
  · refine ⟨fun e mem => ?_, resolved.methods⟩
    rw [length_modify]
    exact resolved.housed e mem
  · exact resolved

theorem push (form : Form) (name : String) (size : Option Expr) :
    (s.push form name size).Resolved P := by
  refine ⟨forall_mem_append.mpr ⟨fun old mem => ?_, forall_mem_singleton.mpr ?_⟩,
    forall_mem_append.mpr ⟨resolved.methods, forall_mem_singleton.mpr (by simp)⟩⟩
  · have older := resolved.housed old mem
    simp only [Store.push, length_append]
    omega
  · simp [Store.push]

theorem pushSharing (entry : s.entryOf t = some e) (name : Option String) :
    (s.pushSharing { e with name }).Resolved P := by
  obtain ⟨n, rfl, -⟩ := entryOf_eq_some entry
  have mem : e ∈ s.entries := mem_of_getElem? entry
  exact ⟨forall_mem_append.mpr ⟨resolved.housed,
      forall_mem_singleton.mpr (resolved.housed e mem)⟩,
    forall_mem_append.mpr ⟨resolved.methods,
      forall_mem_singleton.mpr (resolved.methods e mem)⟩⟩

theorem entryOf (entry : s.entryOf t = some e) :
    e.group < s.groups.length ∧ ∀ p ∈ e.methods, ∀ r ∈ p.2.mentioned, P r := by
  obtain ⟨n, rfl, -⟩ := entryOf_eq_some entry
  have mem : e ∈ s.entries := mem_of_getElem? entry
  exact ⟨resolved.housed e mem, resolved.methods e mem⟩

end

end Store.Resolved

/-- Types of a kind take the place of variables, and the others stay. -/
theorem mentioned_under {types : String → Option TypeRef} {m : Signature} {r : TypeRef}
    (plain : ∀ r : TypeRef, r.varName? = none → P r) (given : ∀ x t, types x = some t → P t)
    (mapped : ∀ x ∈ m.variables, types x ≠ none) (mem : r ∈ (m.under types).mentioned) : P r := by
  have each : ∀ r ∈ m.mentioned, P (r.under types) := by
    intro r mentioned
    cases r with
    | var x =>
      have own : x ∈ m.variables := mem_filterMap.mpr ⟨.var x, mentioned, rfl⟩
      obtain ⟨t, found⟩ := Option.ne_none_iff_exists'.mp (mapped x own)
      rw [TypeRef.under, found]
      exact given x t found
    | absent => exact plain _ rfl
    | id n => exact plain _ rfl
  have shape : (m.under types).mentioned = m.mentioned.map (·.under types) := by
    simp [Signature.under, Signature.mentioned]
  rw [shape] at mem
  obtain ⟨r, mentioned, rfl⟩ := mem_map.mp mem
  exact each r mentioned

/-- All methods keep mentioning types of a kind only. -/
abbrev Resolves (P : TypeRef → Prop) {α : Type} (x : Change α) : Prop :=
  Keeps (Keeping (Store.Resolved P)) x

variable {t : TypeRef}

theorem Store.Resolved.withMethods {s : Store} {types : String → Option TypeRef}
    {ms : List Signature} (resolved : s.Resolved P)
    (plain : ∀ r : TypeRef, r.varName? = none → P r) (given : ∀ x t, types x = some t → P t)
    (mapped : ∀ m ∈ ms, ∀ x ∈ m.variables, types x ≠ none) :
    (s.withMethods t (ms.map (·.implemented types))).Resolved P := by
  refine resolved.modifyEntry (fun _ => rfl) fun e own p mem => ?_
  rcases mem_append.mp mem with old | new
  · exact own p old
  · obtain ⟨m, listed, rfl⟩ := mem_map.mp new
    exact fun r mem => mentioned_under plain given (mapped m listed) mem

theorem implementTrait_resolves (plain : ∀ r : TypeRef, r.varName? = none → P r) (trait : Trait)
    {vars : List (String × TypeRef)} (given : ∀ p ∈ vars, P p.2) :
    Resolves P (implementTrait t trait vars) := by
  intro s resolved
  cases entry : s.entryOf t with
  | none =>
    unfold implementTrait
    rw [read_bind, entry]
    exact resolved
  | some e =>
    by_cases primitive : e.form.isPrimitive = true
    · unfold implementTrait
      rw [read_bind, entry]
      simp only [primitive, if_true]
      exact resolved
    · have types : ∀ x u, standsFor t vars x = some u → P u := by
        intro x u found
        rcases Option.or_eq_some_iff.mp found with own | ⟨-, own⟩
        · obtain ⟨front, back, rfl, -⟩ := lookup_eq_some_iff.mp own
          exact given (x, u) (by simp)
        · obtain ⟨-, ⟨⟩⟩ := Option.ite_none_right_eq_some.mp own
          obtain ⟨n, rfl, -⟩ := Store.entryOf_eq_some entry
          exact plain _ rfl
      rcases implementTrait_cases entry (by simpa using primitive) trait vars with
        ⟨-, outcome⟩ | ⟨-, ⟨addable, -, outcome⟩ | ⟨done, m, rest, -, addable, -, -, outcome⟩⟩
      · rw [outcome]
        exact resolved
      · rw [outcome]
        exact (resolved.withMethods plain types addable.mapped).modifyMembers
      · rw [outcome]
        exact resolved.withMethods plain types addable.mapped

theorem makeType_resolves (form : Form) (name : Option String) (size : Option Expr) :
    Resolves P (makeType form name size) := by
  refine (keeps_ofExcept _).bind fun name => (keeps_read _).bind fun n => ?_
  refine (keeps_update fun s resolved => ?_).bind fun _ => keeps_pure _
  exact resolved.push form name size

theorem setSize_resolves (size : Option Expr) : Resolves P (setSize t size) :=
  keeps_update fun _ resolved => resolved.modifyEntry_same fun _ => ⟨rfl, rfl⟩

theorem addSlot_resolves (name : String) (type : TypeRef) : Resolves P (addSlot t name type) := by
  refine (addSlot_changes t name type).keeps ?_
  rintro s _ ⟨e, -, -, -, rfl⟩ resolved
  exact resolved.modifyMembers

theorem addField_resolves (field : Field) : Resolves P (addField t field) := by
  refine addField_keeps (fun s e _ _ => (addStructField_changes t e field).keeps ?_ s)
    (addSlot_resolves field.name field.type)
  rintro s _ ⟨-, size, -, ⟨-, rfl⟩ | ⟨a, x, sum, -, -, -, rfl⟩⟩ resolved
  · exact resolved.modifyMembers
  · exact Store.Resolved.modifyMembers (setSize_resolves (some sum) s resolved)

theorem addTyped_resolves (wanted : TypeRef) (refuse : String → TypeFault)
    (add : Expr → Members → Members) (x : Expr) :
    Resolves P (addTyped wanted refuse add t x) := by
  refine (addTyped_changes wanted refuse add t x).keeps ?_
  rintro s _ ⟨r, -, -, -, rfl⟩ resolved
  exact resolved.modifyMembers

theorem addType_resolves (t : TypeRef) : Resolves P (addType t) := by
  refine (addType_changes t).keeps ?_
  rintro s _ ⟨name, -, -, rfl⟩ resolved
  exact ⟨resolved.housed, resolved.methods⟩

theorem definePdu_resolves (name : String) : Resolves P (definePdu name) := by
  refine (definePdu_changes name).keeps ?_
  rintro s _ ⟨t, -, -, rfl⟩ resolved
  exact ⟨resolved.housed, resolved.methods⟩

theorem setProtocolName_resolves (name : String) : Resolves P (setProtocolName name) := by
  refine (setProtocolName_changes name).keeps ?_
  rintro s _ ⟨-, rfl⟩ resolved
  exact resolved.modifyEntry_same fun _ => ⟨rfl, rfl⟩

section Plain

variable (plain : ∀ r : TypeRef, r.varName? = none → P r)

include plain

theorem makeBitString_resolves (name : Option String) (size : Option Expr) :
    Resolves P (makeBitString name size) := by
  have implement : ∀ t trait, Resolves P (implementTrait t trait []) := fun t trait =>
    implementTrait_resolves plain trait (by simp)
  refine (makeType_resolves _ name size).bind fun t => (implement t _).bind fun _ => ?_
  refine (implement t _).bind fun _ => (implement t _).bind fun _ => (implement t _).bind fun _ => ?_
  exact keeps_pure t

theorem makeOption_resolves (name : Option String) (reference : TypeRef) :
    Resolves P (makeOption name reference) := by
  refine (keeps_ask _).bind fun size => (makeType_resolves _ name size).bind fun t => ?_
  exact (implementTrait_resolves plain _ (by simp)).bind fun _ => keeps_pure t

theorem makeArray_resolves (name : Option String) {element : TypeRef} (own : P element)
    (length size : Option Expr) : Resolves P (makeArray name element length size) := by
  refine (makeType_resolves _ name none).bind fun t => ?_
  refine (implementTrait_resolves plain _ (by simp)).bind fun _ => ?_
  refine (implementTrait_resolves plain _ (by simp)).bind fun _ => ?_
  refine (implementTrait_resolves plain _ (by simpa using own)).bind fun _ => ?_
  refine (setSize_resolves size).bind fun _ => ?_
  cases length with
  | none => exact keeps_pure t
  | some length =>
    refine (keeps_ask _).bind fun elementSize => ?_
    cases elementSize with
    | none => exact keeps_pure t
    | some elementSize => exact (setSize_resolves _).bind fun _ => keeps_pure t

theorem makeStruct_resolves (name : Option String) (fields : List Field)
    (constraints actions : List Expr) :
    Resolves P (makeStruct name fields constraints actions) := by
  refine (makeType_resolves _ name none).bind fun t => ?_
  refine (implementTrait_resolves plain _ (by simp)).bind fun _ => (setSize_resolves _).bind fun _ => ?_
  refine (Keeps.each fun f _ => addField_resolves f).bind fun _ => ?_
  refine (Keeps.each fun x _ => addTyped_resolves _ _ _ x).bind fun _ => ?_
  refine (Keeps.each fun x _ => addTyped_resolves _ _ _ x).bind fun _ => ?_
  exact (implementTrait_resolves plain _ (by simp)).bind fun _ => keeps_pure t

theorem makeEnum_resolves (name : Option String) (variants : List TypeRef) :
    Resolves P (makeEnum name variants) := by
  refine (makeType_resolves _ name none).bind fun t => ?_
  exact (implementTrait_resolves plain _ (by simp)).bind fun _ => keeps_pure t

theorem completing_resolves : Completing (Keeping (Store.Resolved P)) where
  option name t := makeOption_resolves plain name t
  size s _ _ _ _ _ _ _ := setSize_resolves _ s
  parseFrom _ _ _ resolved := resolved.modifyEntry_same fun _ => ⟨rfl, rfl⟩
  serialiseTo _ _ _ resolved := resolved.modifyEntry_same fun _ => ⟨rfl, rfl⟩

theorem derive_resolves (source : TypeRef) (name : String) (traits : List Trait) :
    Resolves P (derive source name traits) :=
  derive_keeps (fun _ _ entry resolved => resolved.pushSharing entry (some name))
    (fun _ trait => implementTrait_resolves plain trait (by simp)) traits

theorem resolved_initial : Store.initial.Resolved P := by
  have foundation : Store.foundation.Resolved P := by
    refine ⟨by decide, fun e mem p own r mentioned => plain r ?_⟩
    revert e p r
    decide
  have made : Resolves P (makeBitString (some "DataUnit") (some dataSizeExpr) >>= addType) :=
    (makeBitString_resolves plain _ _).bind addType_resolves
  exact made .foundation foundation

end Plain

end Resolved

namespace Act

/-- The types that type variables are made to stand for. -/
def bound : Act → List TypeRef
  | .call (.implementTrait _ _ vars) => vars.map (·.2)
  | .call (.array _ element _ _) => [element]
  | _ => []

variable {P : TypeRef → Prop}

theorem resolved_after {s : Store} {act : Act} (plain : ∀ r : TypeRef, r.varName? = none → P r)
    (own : ∀ r ∈ act.bound, P r) (resolved : s.Resolved P) : (act.after s).Resolved P := by
  cases act with
  | derive source name traits => exact derive_resolves plain source name traits s resolved
  | call c =>
    cases c with
    | bitString name size => exact makeBitString_resolves plain name size s resolved
    | option name reference => exact makeOption_resolves plain name reference s resolved
    | array name element length size =>
      exact makeArray_resolves plain name (own element mem_cons_self) length size s resolved
    | struct name fields constraints actions =>
      exact makeStruct_resolves plain name fields constraints actions s resolved
    | enum name variants => exact makeEnum_resolves plain name variants s resolved
    | function name parameters result => exact makeType_resolves _ name none s resolved
    | context name => exact makeType_resolves _ name none s resolved
    | implementTrait t trait vars =>
      refine implementTrait_resolves plain trait (fun p mem => ?_) s resolved
      exact own p.2 (mem_map_of_mem mem)
    | addField t field => exact addField_resolves field s resolved
    | addSlot t name type => exact addSlot_resolves name type s resolved
    | addConstraint t x => exact addTyped_resolves _ _ _ x s resolved
    | addAction t x => exact addTyped_resolves _ _ _ x s resolved
    | addType t => exact addType_resolves t s resolved
    | definePdu name => exact definePdu_resolves name s resolved
    | setProtocolName name => exact setProtocolName_resolves name s resolved
    | synthesise => exact (completing_resolves plain).keeps_synthesise s resolved

theorem resolved_run (plain : ∀ r : TypeRef, r.varName? = none → P r) (acts : List Act)
    (own : ∀ act ∈ acts, ∀ r ∈ act.bound, P r) : (run acts).Resolved P := by
  induction acts using List.reverseRecOn with
  | nil => exact resolved_initial plain
  | append_singleton acts act ih =>
    rw [forall_mem_append, forall_mem_singleton] at own
    rw [run_append]
    exact resolved_after plain own.2 (ih own.1)

end Act

end PacketDraft.Protocol
