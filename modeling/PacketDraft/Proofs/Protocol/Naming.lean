import PacketDraft.Proofs.Protocol.Implementing

/-!
# Names of fields and types

A field can be made under every valid name, and so can a bit string and a structure: the traits that a
new type gets have methods of different names, so that the name is all that can be refused.
-/

namespace PacketDraft.Protocol

open Attempt Store

/-! ## Valid names -/

theorem isNameFrom_cons {first : Char → Bool} {c : Char} {cs : List Char}
    (own : ∀ d ∈ cs, isNameChar d = true) : isNameFrom first (c :: cs) = (first c && !cs.isEmpty) := by
  have same : dropFinalNewline cs = cs := by
    unfold dropFinalNewline
    rw [if_neg]
    intro newline
    exact absurd (own _ (List.mem_of_getLast? newline)) (by decide)
  simp only [isNameFrom, same, List.all_eq_true.mpr own, Bool.and_true]

theorem makeField_ok_iff {name : String} {type : TypeRef} {presence : Option Expr} :
    (∃ field, makeField name type presence = .ok field ∧ field.name = name) ↔
      isMemberName name = true := by
  unfold makeField
  by_cases valid : isMemberName name = true
  · simp [valid]
  · simp [valid]

/-! ## New types -/

/-- A type that is not primitive has methods of these names, and these traits. -/
def Store.Equipped (s : Store) (t : TypeRef) (methods : List String) (traits : List Trait) : Prop :=
  ∃ e, s.entryOf t = some e ∧ e.form.isPrimitive = false ∧ e.group < s.groups.length ∧
    e.methods.map (·.1) = methods ∧ (s.members e).traits = traits

/-- A trait whose methods have valid names, and no variable but the type itself. -/
def Trait.Simple (trait : Trait) : Prop :=
  ∀ m ∈ trait.methods, isMemberName m.name = true ∧ ∀ x ∈ m.variables, x = "T"

instance (trait : Trait) : Decidable trait.Simple :=
  inferInstanceAs (Decidable (∀ m ∈ trait.methods, isMemberName m.name = true ∧ _))

theorem Store.length_groups_modifyMembers (s : Store) (t : TypeRef) (f : Members → Members) :
    (s.modifyMembers t f).groups.length = s.groups.length := by
  unfold modifyMembers
  split
  · exact List.length_modify ..
  · rfl

section Equipped

variable {s : Store} {t : TypeRef} {methods : List String} {traits : List Trait}

theorem Store.equipped_push (s : Store) (form : Form) (other : form.isPrimitive = false)
    (name : String) (size : Option Expr) :
    (s.push form name size).Equipped (.id s.entries.length) [] [] := by
  refine ⟨_, List.getElem?_concat_length .., other, ?_, rfl, ?_⟩
  · simp [push]
  · simp [push, members]

theorem Store.Equipped.setSize (equipped : s.Equipped t methods traits) (size : Option Expr) :
    (s.modifyEntry t fun e => { e with size }).Equipped t methods traits := by
  obtain ⟨e, entry, other, housed, named, had⟩ := equipped
  refine ⟨{ e with size }, entryOf_modifyEntry_self _ entry, other, ?_, named, ?_⟩
  · rw [groups_modifyEntry]
    exact housed
  · exact (congrArg Members.traits (members_modifyEntry s t _ _)).trans had

/-- One more trait can be implemented if no other has its name and all names of methods differ. -/
theorem Store.Equipped.implement (equipped : s.Equipped t methods traits) (trait : Trait)
    (simple : trait.Simple) (new : ∀ old ∈ traits, old.name ≠ trait.name)
    (fresh : (methods ++ trait.methods.map (·.name)).Nodup) :
    ∃ s', implementTrait t trait [] s = (.ok (), s') ∧
      s'.Equipped t (methods ++ trait.methods.map (·.name)) (traits ++ [trait]) := by
  obtain ⟨e, entry, other, housed, rfl, rfl⟩ := equipped
  rw [List.nodup_append] at fresh
  have lacks : ¬ s.Implements t trait := by
    rintro ⟨old, mem, same⟩
    have mem : old ∈ (s.members e).traits := by
      simpa [traits, entry] using mem
    simp only [sameTrait, Bool.and_eq_true, decide_eq_true_eq] at same
    exact new old mem same.1
  have addable : Addable (standsFor t []) (e.methods.map (·.1)) trait.methods := by
    refine ⟨fun m mem taken => ?_, fresh.2.1, fun m mem x own => ?_⟩
    · exact fresh.2.2 m.name taken m.name (List.mem_map_of_mem mem) rfl
    · simp [standsFor, (simple m mem).2 x own]
  have ok := (implementTrait_eq_ok_iff entry other).mpr
    ⟨lacks, addable, fun m mem => (simple m mem).1⟩
  have members := implementTrait_members entry other housed trait []
  rw [if_pos ok] at members
  refine ⟨(implementTrait t trait [] s).2, Prod.ext ok rfl,
    { e with methods := e.methods ++ trait.methods.map (·.implemented (standsFor t [])) },
    ?_, other, ?_, ?_, congrArg Members.traits members⟩
  · rw [implementTrait_of_ok entry other ok, withTrait, entryOf_modifyMembers]
    exact entryOf_withMethods entry _
  · rw [implementTrait_of_ok entry other ok, withTrait, length_groups_modifyMembers,
      withMethods, groups_modifyEntry]
    exact housed
  · simp [Signature.implemented]

end Equipped

section Making

variable {name : String}

theorem makeBitString_of_valid (valid : isTypeName name = true) (size : Option Expr) (s : Store) :
    ∃ s', makeBitString (some name) size s = (.ok (.id s.entries.length), s') := by
  have made : makeType .bitString (some name) size s
      = (.ok (.id s.entries.length), s.push .bitString name size) := by
    simp only [makeType, checkName, valid, if_true]
    rfl
  have plain := s.equipped_push .bitString rfl name size
  obtain ⟨s₁, first, sized⟩ := plain.implement .sized (by decide) (by decide) (by decide)
  obtain ⟨s₂, second, value⟩ := sized.implement .value (by decide) (by decide) (by decide)
  obtain ⟨s₃, third, equality⟩ := value.implement .equality (by decide) (by decide) (by decide)
  obtain ⟨s₄, last, -⟩ := equality.implement .numberRepresentable (by decide) (by decide) (by decide)
  exact ⟨s₄, bind_eq_ok.mpr ⟨_, _, made, bind_eq_ok.mpr ⟨_, _, first, bind_eq_ok.mpr ⟨_, _, second,
    bind_eq_ok.mpr ⟨_, _, third, bind_eq_ok.mpr ⟨_, _, last, rfl⟩⟩⟩⟩⟩⟩

theorem makeStruct_of_valid (valid : isTypeName name = true) (s : Store) :
    ∃ s', makeStruct (some name) [] [] [] s = (.ok (.id s.entries.length), s') := by
  have made : makeType .struct (some name) none s
      = (.ok (.id s.entries.length), s.push .struct name none) := by
    simp only [makeType, checkName, valid, if_true]
    rfl
  have plain := s.equipped_push .struct rfl name none
  obtain ⟨s₁, first, sized⟩ := plain.implement .sized (by decide) (by decide) (by decide)
  obtain ⟨s₂, last, -⟩ := (sized.setSize (some (constantSize (.int 0)))).implement .equality
    (by decide) (by decide) (by decide)
  exact ⟨s₂, bind_eq_ok.mpr ⟨_, _, made, bind_eq_ok.mpr ⟨_, _, first, bind_eq_ok.mpr ⟨_, _, rfl,
    bind_eq_ok.mpr ⟨_, _, rfl, bind_eq_ok.mpr ⟨_, _, rfl, bind_eq_ok.mpr ⟨_, _, rfl,
      bind_eq_ok.mpr ⟨_, _, last, rfl⟩⟩⟩⟩⟩⟩⟩⟩

theorem makeBitString_ok_iff {size : Option Expr} {s : Store} :
    (∃ s', makeBitString (some name) size s = (.ok (.id s.entries.length), s')) ↔
      isTypeName name = true := by
  constructor
  · rintro ⟨s', ok⟩
    obtain ⟨t, s₁, made, -⟩ := bind_eq_ok.mp ok
    exact isTypeName_of_makeType (by simp) made
  · intro valid
    exact makeBitString_of_valid valid size s

theorem makeStruct_ok_iff {s : Store} :
    (∃ s', makeStruct (some name) [] [] [] s = (.ok (.id s.entries.length), s')) ↔
      isTypeName name = true := by
  constructor
  · rintro ⟨s', ok⟩
    obtain ⟨t, s₁, made, -⟩ := bind_eq_ok.mp ok
    exact isTypeName_of_makeType (by simp) made
  · intro valid
    exact makeStruct_of_valid valid s

end Making

end PacketDraft.Protocol
