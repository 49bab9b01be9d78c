import Mathlib.Logic.Relator
import PacketDraft.Proofs.Protocol.Remainder

/-!
# Matching protocols

Two protocols match if their types correspond one to one, under the same names, with the same sizes
and with corresponding fields; the types may have been registered in different orders. A type
without a size gets one from the first structure that has a field of the type. So the order matters,
unless no type without a size is that of fields of two structures. The main result: matching
protocols in which this is so have the same sizes once both are complete.
-/

namespace PacketDraft.Protocol

open Attempt List

variable {R : TypeRef → TypeRef → Prop} {s s' c c' : Store} {t t' u : TypeRef} {f : Field}
  {fields : List Field} {name : String}

/-- No two structures have fields of a type that has no size. -/
def Store.Unshared (s : Store) : Prop :=
  ∀ p ∈ s.types, ∀ q ∈ s.types, ∀ f ∈ s.fieldsOf p.2, ∀ g ∈ s.fieldsOf q.2,
    f.type = g.type → s.sizeOf f.type = .ok none → p.2 = q.2

instance (s : Store) (t : TypeRef) : Decidable (s.sizeOf t = .ok none) :=
  decidable_of_iff (s.hasSize t Option.isNone = true)
    ⟨Store.sizeOf_of_isNone, fun unsized => by simp [Store.hasSize, unsized]⟩

instance (s : Store) : Decidable s.Unshared :=
  inferInstanceAs (Decidable (∀ p ∈ s.types, ∀ q ∈ s.types, ∀ f ∈ s.fieldsOf p.2,
    ∀ g ∈ s.fieldsOf q.2, f.type = g.type → s.sizeOf f.type = .ok none → p.2 = q.2))

/-- The types of two stores correspond to each other. -/
structure Store.Matches (R : TypeRef → TypeRef → Prop) (s s' : Store) : Prop where
  unique : Relator.BiUnique R
  left : ∀ name t, (name, t) ∈ s.types → ∃ t', (name, t') ∈ s'.types ∧ R t t'
  right : ∀ name t', (name, t') ∈ s'.types → ∃ t, (name, t) ∈ s.types ∧ R t t'
  known : ∀ t t', R t t' → ∃ e e', s.entryOf t = some e ∧ s'.entryOf t' = some e'
  sizes : ∀ t t', R t t' → s.sizeOf t = s'.sizeOf t'
  fields : ∀ name t t', (name, t) ∈ s.types → R t t' →
    List.Forall₂ (fun f f' => R f.type f'.type) (s.fieldsOf t) (s'.fieldsOf t')

/-! ## Sizes in one protocol -/

/-- What cannot be sent has no size later on either. -/
theorem Store.Fills.sizeOf_error {e : Entry} {fault : Fault} (fills : s.Fills s')
    (entry : s.entryOf t = some e) (failed : s.sizeOf t = .error fault) :
    s'.sizeOf t = .error .inapplicable := by
  obtain ⟨e', entry', own⟩ := fills.entryOf t e entry
  rw [Store.sizeOf, entry] at failed
  by_cases sent : e.form.isRepresentable = true
  · simp [sent] at failed
  · simp [Store.sizeOf, entry', own.form, sent]

/-- A type is not that of fields of two structures. -/
theorem Store.Unshared.own (unshared : s.Unshared) (registered : (name, t) ∈ s.types)
    (mem : f ∈ s.fieldsOf t) (unsized : s.sizeOf f.type = .ok none) :
    ∀ p ∈ s.types, p.2 ≠ t → ∀ g ∈ s.fieldsOf p.2, g.type ≠ f.type := by
  intro p listed other g field same
  exact other (unshared p listed (name, t) registered g field f mem same (same ▸ unsized))

/-- Sizes that are there once a store has been filled were there before, or nothing was. -/
theorem Store.Fills.sized_of_sized {xs : List Expr} (fills : s.Fills s')
    (known : ∀ f ∈ fields, ∃ e, s.entryOf f.type = some e)
    (same : ∀ f ∈ fields, s.sizeOf f.type = .ok none → s'.sizeOf f.type = .ok none)
    (sized : s'.Sized fields xs) : s.Sized fields xs := by
  induction sized with
  | nil => exact .nil
  | @cons f x fields xs size _ ih =>
    rw [forall_mem_cons] at known same
    refine .cons ?_ (ih known.2 same.2)
    obtain ⟨e, entry⟩ := known.1
    cases before : s.sizeOf f.type with
    | error fault =>
      rw [fills.sizeOf_error entry before] at size
      cases size
    | ok size' =>
      cases size' with
      | none =>
        rw [same.1 before] at size
        cases size
      | some y => rw [← size, fills.sizeOf_some before]

theorem Store.Sized.not_none {xs : List Expr} (sized : s.Sized fields xs) (mem : f ∈ fields) :
    s.sizeOf f.type ≠ .ok none := by
  obtain ⟨x, -, size⟩ := exists_of_forall₂ sized mem
  simp [size]

/-- The field without a size is the one. -/
theorem Store.Open.eq_of_unsized {front back : List Field} {g : Field} {xs ys : List Expr}
    (split : s.Open fields front g back xs ys) (mem : f ∈ fields)
    (unsized : s.sizeOf f.type = .ok none) : f = g := by
  rw [split.split] at mem
  rcases mem_append.mp mem with before | rest
  · exact absurd unsized (split.before.not_none before)
  · rcases mem_cons.mp rest with same | after
    · exact same
    · exact absurd unsized (split.after.not_none after)

/-- In a protocol that can be completed, a structure has at most one field without a size. -/
theorem synthesise_open (outcome : synthesise s = (.ok (), s')) (unshared : s.Unshared)
    (registered : (name, t) ∈ s.types)
    (known : ∀ g ∈ s.fieldsOf t, ∃ e, s.entryOf g.type = some e) (mem : f ∈ s.fieldsOf t)
    (unsized : s.sizeOf f.type = .ok none) :
    s.fieldsOf t = [f] ∨
      ∃ front back xs ys, s.Open (s.fieldsOf t) front f back xs ys ∧ xs ++ ys ≠ [] := by
  obtain ⟨e, entry, struct⟩ := Store.struct_of_mem_fieldsOf mem
  obtain ⟨e', w, v, fills, same, untouched, sizes, -⟩ :=
    synthesise_turn outcome registered entry struct
  have kept : ∀ g ∈ s.fieldsOf t, s.sizeOf g.type = .ok none → w.sizeOf g.type = .ok none :=
    fun g field empty => untouched g.type none (unshared.own registered field empty) empty
  have still := kept f mem unsized
  obtain ⟨fault, failed⟩ | ⟨-, ⟨xs, sum, sized, -⟩ | ⟨g, one, -⟩⟩ |
    ⟨front, g, back, xs, ys, sum, split, added, -⟩ := completeSizes_cases e' w
  · rw [failed] at sizes
    cases sizes
  · exact absurd still (sized.not_none (same ▸ mem))
  · left
    rw [same, one, mem_singleton] at mem
    rw [same, one, mem]
  · right
    rw [← same] at split
    obtain rfl := split.eq_of_unsized mem still
    have part : front ⊆ s.fieldsOf t ∧ back ⊆ s.fieldsOf t := by
      rw [split.split]
      exact ⟨subset_append_left _ _,
        subset_append_of_subset_right _ (subset_cons_self _ _)⟩
    refine ⟨front, back, xs, ys, ⟨split.split, ?_, unsized, ?_⟩, ?_⟩
    · exact fills.sized_of_sized (fun g field => known g (part.1 field))
        (fun g field => kept g (part.1 field)) split.before
    · exact fills.sized_of_sized (fun g field => known g (part.2 field))
        (fun g field => kept g (part.2 field)) split.after
    · intro empty
      rw [empty] at added
      cases added

/-- A type that structures have for their only field gets no size. -/
theorem synthesise_unsized (outcome : synthesise s = (.ok (), s'))
    (alone : ∀ p ∈ s.types, ∀ g ∈ s.fieldsOf p.2, g.type = t → s.fieldsOf p.2 = [g])
    (unsized : s.sizeOf t = .ok none) : s'.sizeOf t = .ok none := by
  refine each_completeType_sizeOf (fun v listed => ?_) unsized outcome
  obtain ⟨p, mem, rfl⟩ := mem_map.mp listed
  exact alone p mem

/-! ## Sizes in two protocols -/

namespace Store.Matches

/-- Matching goes both ways. -/
theorem symm (matching : s.Matches R s') : s'.Matches (flip R) s where
  unique := ⟨fun _ _ _ first second => matching.unique.2 first second,
    fun _ _ _ first second => matching.unique.1 first second⟩
  left := matching.right
  right := matching.left
  known t' t related := by
    obtain ⟨e, e', entry, entry'⟩ := matching.known t t' related
    exact ⟨e', e, entry', entry⟩
  sizes t' t related := (matching.sizes t t' related).symm
  fields name t' t listed related := by
    obtain ⟨u, registered, related'⟩ := matching.right name t' listed
    obtain rfl := matching.unique.1 related' related
    exact (matching.fields name u t' registered related).flip

variable {fields' : List Field}

section

variable (matching : s.Matches R s')

include matching

/-- Corresponding fields have the same sizes. -/
theorem sized {xs : List Expr} (related : List.Forall₂ (fun f f' => R f.type f'.type) fields fields')
    (sized : s.Sized fields xs) : s'.Sized fields' xs := by
  induction related generalizing xs with
  | nil =>
    cases sized
    exact .nil
  | cons first _ ih =>
    cases sized with
    | cons size rest => exact .cons ((matching.sizes _ _ first).symm.trans size) (ih rest)

theorem exists_field (registered : (name, t) ∈ s.types) (related : R t t') (mem : f ∈ s.fieldsOf t) :
    ∃ f' ∈ s'.fieldsOf t', R f.type f'.type :=
  exists_of_forall₂ (matching.fields name t t' registered related) mem

/-- Two structures that share a type without a size match two such structures. -/
theorem unshared (unshared : s.Unshared) : s'.Unshared := by
  rintro ⟨a, p'⟩ listedP ⟨b, q'⟩ listedQ f' memF g' memG same unsized
  obtain ⟨p, registeredP, relatedP⟩ := matching.right a p' listedP
  obtain ⟨q, registeredQ, relatedQ⟩ := matching.right b q' listedQ
  obtain ⟨f, memF, typeF⟩ := matching.symm.exists_field listedP relatedP memF
  obtain ⟨g, memG, typeG⟩ := matching.symm.exists_field listedQ relatedQ memG
  have typeG : R g.type f'.type := same ▸ typeG
  have shared : p = q := unshared (a, p) registeredP (b, q) registeredQ f memF g memG
    (matching.unique.1 typeF typeG) ((matching.sizes _ _ typeF).trans unsized)
  subst shared
  exact matching.unique.2 relatedP relatedQ

/-- A structure with one field without a size matches such a structure. -/
theorem exists_open {front back : List Field} {xs ys : List Expr} (registered : (name, t) ∈ s.types)
    (related : R t t') (split : s.Open (s.fieldsOf t) front f back xs ys) :
    ∃ front' f' back', s'.Open (s'.fieldsOf t') front' f' back' xs ys ∧ R f.type f'.type := by
  have fields := (matching.fields name t t' registered related).flip
  rw [split.split] at fields
  have whole := (take_append_drop front.length (s'.fieldsOf t')).symm
  have before := forall₂_take_append _ _ _ fields
  obtain ⟨f', back', same, after, rest⟩ :=
    forall₂_cons_right_iff.mp (forall₂_drop_append _ _ _ fields)
  rw [rest] at whole
  refine ⟨_, f', back', ⟨whole, matching.sized before.flip split.before, ?_,
    matching.sized after.flip split.after⟩, same⟩
  exact (matching.sizes _ _ same).symm.trans split.unsized

/-- A type that structures have for their only field matches such a type. -/
theorem alone (related : R t t')
    (alone : ∀ p ∈ s.types, ∀ g ∈ s.fieldsOf p.2, g.type = t → s.fieldsOf p.2 = [g]) :
    ∀ p ∈ s'.types, ∀ g ∈ s'.fieldsOf p.2, g.type = t' → s'.fieldsOf p.2 = [g] := by
  rintro ⟨name, u'⟩ listed g' mem' rfl
  obtain ⟨u, registered, same⟩ := matching.right name u' listed
  obtain ⟨g, mem, typed⟩ := matching.symm.exists_field listed same mem'
  have fields := matching.fields name u u' registered same
  rw [alone (name, u) registered g mem (matching.unique.1 typed related)] at fields
  obtain ⟨h, rest, -, none, whole⟩ := forall₂_cons_left_iff.mp fields
  rw [forall₂_nil_left_iff.mp none] at whole
  rw [whole, mem_singleton] at mem'
  rw [whole, mem']

/-- Corresponding types have the same sizes once both protocols are complete. -/
theorem completed (unshared : s.Unshared) (outcome : synthesise s = (.ok (), c))
    (outcome' : synthesise s' = (.ok (), c')) (related : R t t') : c.sizeOf t = c'.sizeOf t' := by
  have fills := synthesise_fills.of_eq outcome
  have fills' := synthesise_fills.of_eq outcome'
  have same := matching.sizes t t' related
  cases known : s.sizeOf t with
  | error fault =>
    obtain ⟨e, e', entry, entry'⟩ := matching.known t t' related
    rw [fills.sizeOf_error entry known, fills'.sizeOf_error entry' (same ▸ known)]
  | ok size =>
    cases size with
    | some x => rw [fills.sizeOf_some known, fills'.sizeOf_some (same ▸ known)]
    | none =>
      by_cases alone : ∀ p ∈ s.types, ∀ g ∈ s.fieldsOf p.2, g.type = t → s.fieldsOf p.2 = [g]
      · rw [synthesise_unsized outcome alone known,
          synthesise_unsized outcome' (matching.alone related alone) (same ▸ known)]
      · simp only [not_forall] at alone
        obtain ⟨⟨name, u⟩, registered, f, mem, rfl, several⟩ := alone
        obtain ⟨u', registered', same'⟩ := matching.left name u registered
        have entries : ∀ g ∈ s.fieldsOf u, ∃ e, s.entryOf g.type = some e := by
          intro g field
          obtain ⟨g', -, typed⟩ := matching.exists_field registered same' field
          obtain ⟨e, -, entry, -⟩ := matching.known _ _ typed
          exact ⟨e, entry⟩
        obtain ⟨front, back, xs, ys, split, others⟩ :=
          (synthesise_open outcome unshared registered entries mem known).resolve_left several
        obtain ⟨front', f', back', split', typed⟩ :=
          matching.exists_open registered same' split
        obtain rfl := matching.unique.2 typed related
        -- Both remainders are what the same sizes leave over.
        obtain ⟨sum, added, size, -⟩ := synthesise_sized outcome registered split others
          (unshared.own registered mem known)
        obtain ⟨sum', added', size', -⟩ := synthesise_sized outcome' registered' split' others
          ((matching.unshared unshared).own registered' split'.mem split'.unsized)
        rw [added] at added'
        cases added'
        rw [size, size']

end

end Store.Matches

end PacketDraft.Protocol
