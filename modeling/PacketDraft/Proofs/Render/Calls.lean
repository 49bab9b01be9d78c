import PacketDraft.Proofs.Render.Source

/-!
# Calls of parser functions that fit

A call in the source of a protocol fits if the parser function is defined once and takes as many
values as it is given. Where the written types are told apart by the lower case of their names, this
comes down to the store: there must be a written type with such a parser function, it must not be
called like the one for packets, and it takes no values unless the call stands in a structure and no
other structure is written in between.
-/

namespace PacketDraft.Render.Rust

open Protocol Text List

/-! ## Which calls are served -/

/-- The written type whose parser function has a name. -/
def target? (s : Store) (function : String) : Option TypeRef :=
  (writtenTypes s).find? fun t => hasParser s t && parserName s t == function

/-- Whether a call is served, where the values for the parser functions of the types in `fresh` are
passed. The parser function for packets takes no values. -/
def isServed (s : Store) (fresh : List TypeRef) (function : String) : Bool :=
  match target? s function with
  | none => function == "parse_pdu"
  | some t => function != "parse_pdu" && (fresh.contains t || (inputsOf s t).isEmpty)

/-- The types for which values are passed behind a type. A structure takes all of them away. -/
def freshAfter (s : Store) (fresh : List TypeRef) (t : TypeRef) : List TypeRef :=
  if isStruct s t then [] else t :: fresh

/-- Whether the calls in the parser function of a type are served. Only structures pass values. -/
def servesType (s : Store) (fresh : List TypeRef) (t : TypeRef) : Bool :=
  !hasParser s t || (calledTypes s t).all fun c =>
    isServed s (if isStruct s t then fresh else []) (parserName s c)

/-- Whether the calls in the parser functions of types are served, one type after the other. -/
def servesTypes (s : Store) : List TypeRef → List TypeRef → Bool
  | _, [] => true
  | fresh, t :: ts => servesType s fresh t && servesTypes s (freshAfter s fresh t) ts

/-- Whether all calls in the source of a protocol are served. -/
def servesCalls (s : Store) : Bool :=
  servesTypes s [] (writtenTypes s) &&
    s.pdus.all fun name => isServed s [] ("parse_" ++ lowered name)

/-- Expressions and names can be told apart from the rest of a source, and the written types from
each other. -/
structure Legible (s : Store) : Prop where
  spelled : s.Spelled Mild
  named : ∀ t ∈ writtenTypes s, Capitalised (typeNameOf s t)
  parts : ∀ t ∈ writtenTypes s, ∀ c ∈ s.components t, IsWord (typeNameOf s c)
  apart : ∀ t ∈ writtenTypes s, ∀ u ∈ writtenTypes s, typeNameOf s t = typeNameOf s u → t = u
  nodup : (writtenTypes s).Nodup
  packets : ∀ name ∈ s.pdus, IsWord name

section Definitions

variable {s : Store} {t u : TypeRef} {function : String}

/-- Written types have different parser functions. -/
theorem Legible.parserName_injective (legible : Legible s) (own : t ∈ writtenTypes s)
    (own' : u ∈ writtenTypes s) (same : parserName s t = parserName s u) : t = u := by
  have names := (String.append_right_inj "parse_").mp same
  exact legible.apart t own u own'
    ((legible.named t own).lowered_injective (legible.named u own') names)

theorem Legible.target?_eq_some (legible : Legible s) : target? s function = some t ↔
    t ∈ writtenTypes s ∧ hasParser s t = true ∧ parserName s t = function := by
  constructor
  · intro found
    have own := List.find?_some found
    rw [Bool.and_eq_true, beq_iff_eq] at own
    exact ⟨mem_of_find?_eq_some found, own⟩
  · rintro ⟨own, parser, rfl⟩
    cases found : target? s (parserName s t) with
    | none =>
      have none := List.find?_eq_none.mp found t own
      simp [parser] at none
    | some u =>
      have other := List.find?_some found
      rw [Bool.and_eq_true, beq_iff_eq] at other
      rw [legible.parserName_injective (mem_of_find?_eq_some found) own other.2]

theorem filter_defines_typeMentions (inputs : List (String × List String)) (t : TypeRef) :
    (typeMentions s inputs t).filter (·.defines function)
      = if hasParser s t && parserName s t == function then
          [.definition function (inputsOf s t).length] else [] := by
  unfold typeMentions
  by_cases parser : hasParser s t = true
  · by_cases same : parserName s t = function
    · simp [parser, same, Mention.defines]
    · simp [parser, same, Mention.defines]
  · simp [parser]

theorem filter_defines_runMentions (inputs : List (String × List String)) (ts : List TypeRef) :
    (runMentions s inputs ts).filter (·.defines function)
      = (ts.filter fun t => hasParser s t && parserName s t == function).map fun t =>
          .definition function (inputsOf s t).length := by
  induction ts generalizing inputs with
  | nil => rfl
  | cons t ts ih =>
    rw [runMentions, filter_append, filter_defines_typeMentions, ih, filter_cons]
    split <;> simp

/-- At most one element is found. -/
theorem filter_eq_find? {α : Type} {p : α → Bool} {xs : List α} (nodup : xs.Nodup)
    (unique : ∀ x ∈ xs, ∀ y ∈ xs, p x = true → p y = true → x = y) :
    xs.filter p = (xs.find? p).toList := by
  induction xs with
  | nil => rfl
  | cons x xs ih =>
    rw [nodup_cons] at nodup
    by_cases own : p x = true
    · have others : xs.filter p = [] := by
        refine filter_eq_nil_iff.mpr fun y mem other => ?_
        have same := unique x mem_cons_self y (mem_cons_of_mem x mem) own other
        exact nodup.1 (same ▸ mem)
      simp [own, others]
    · have rest := ih nodup.2 fun y mem z mem' =>
        unique y (mem_cons_of_mem x mem) z (mem_cons_of_mem x mem')
      simp [own, rest]

/-- The definitions of a parser function in the source: that for a type, and that for packets. -/
theorem Legible.definitions_eq (legible : Legible s) (function : String) :
    (sourceMentions s).filter (·.defines function)
      = (target? s function).toList.map (fun t => .definition function (inputsOf s t).length)
        ++ if function = "parse_pdu" then [.definition function 0] else [] := by
  have calls : (s.pdus.map fun name => Mention.call ("parse_" ++ lowered name) 0).filter
      (·.defines function) = [] := by
    simp [filter_eq_nil_iff, Mention.defines]
  have unique : ∀ t ∈ writtenTypes s, ∀ u ∈ writtenTypes s,
      (hasParser s t && parserName s t == function) = true →
        (hasParser s u && parserName s u == function) = true → t = u := by
    intro t own u own' first second
    rw [Bool.and_eq_true, beq_iff_eq] at first second
    exact legible.parserName_injective own own' (first.2.trans second.2.symm)
  rw [sourceMentions, filter_append, filter_defines_runMentions,
    filter_eq_find? legible.nodup unique, filter_cons, calls, target?]
  by_cases packets : function = "parse_pdu"
  · simp [packets, Mention.defines]
  · simp [packets, Ne.symm packets, Mention.defines]

end Definitions

/-! ## What is passed -/

/-- The notes about types. -/
def notes (s : Store) (fresh : List TypeRef) : List (String × List String) :=
  fresh.filterMap fun t => (noted? s t).map (parserName s t, ·)

section Values

variable {s : Store} {t : TypeRef} {fresh : List TypeRef} {function : String}

theorem inputsAfter_notes (s : Store) (fresh : List TypeRef) (t : TypeRef) :
    inputsAfter s (notes s fresh) t = notes s (freshAfter s fresh t) := by
  unfold inputsAfter freshAfter
  by_cases struct : isStruct s t = true
  · simp [struct, notes]
  · cases noted : noted? s t <;> simp [struct, notes, noted]

/-- What is noted, is noted for a parser function. -/
theorem hasParser_of_noted {fields : List String} (noted : noted? s t = some fields) :
    hasParser s t = true := by
  have some : (extent s t).isSome = true := by
    cases known : extent s t with
    | none => simp [noted?, known, size] at noted
    | some x => rfl
  unfold extent at some
  unfold hasParser
  cases entry : s.entryOf t with
  | none => simp [entry] at some
  | some e =>
    rw [entry] at some
    dsimp only at some ⊢
    cases form : e.form <;> simp_all

/-- A call passes the values that are noted for its parser function. -/
theorem Legible.lookup_notes (legible : Legible s) (own : ∀ t ∈ fresh, t ∈ writtenTypes s)
    (function : String) : ((notes s fresh).lookup function).getD []
      = (target? s function).elim [] fun t => if t ∈ fresh then inputsOf s t else [] := by
  induction fresh with
  | nil => cases target? s function <;> rfl
  | cons t fresh ih =>
    rw [forall_mem_cons] at own
    have ih := ih own.2
    cases noted : noted? s t with
    | none =>
      have skip : notes s (t :: fresh) = notes s fresh := by simp [notes, noted]
      rw [skip, ih]
      cases found : target? s function with
      | none => rfl
      | some u =>
        by_cases same : u = t
        · simp [same, inputsOf, noted]
        · simp [same]
    | some fields =>
      have front : notes s (t :: fresh) = (parserName s t, fields) :: notes s fresh := by
        simp [notes, noted]
      rw [front, lookup_cons]
      by_cases same : function = parserName s t
      · have found : target? s function = some t :=
          legible.target?_eq_some.mpr ⟨own.1, hasParser_of_noted noted, same.symm⟩
        rw [found, beq_iff_eq.mpr same]
        simp [inputsOf, noted]
      · rw [beq_eq_false_iff_ne.mpr same]
        dsimp only
        rw [ih]
        cases found : target? s function with
        | none => rfl
        | some u =>
          have other : u ≠ t := by
            rintro rfl
            exact same (legible.target?_eq_some.mp found).2.2.symm
          simp [other]

/-- One call fits exactly if it is served. -/
theorem Legible.isServed_iff (legible : Legible s) (fresh : List TypeRef)
    (own : ∀ t ∈ fresh, t ∈ writtenTypes s) (function : String) :
    (sourceMentions s).filter (·.defines function)
      = [.definition function (((notes s fresh).lookup function).getD []).length]
      ↔ isServed s fresh function = true := by
  rw [legible.definitions_eq, legible.lookup_notes own, isServed]
  cases target? s function with
  | none =>
    by_cases packets : function = "parse_pdu"
    · simp [packets]
    · simp [packets]
  | some t =>
    by_cases packets : function = "parse_pdu"
    · simp [packets]
    · by_cases mem : t ∈ fresh
      · simp [packets, mem]
      · simp [packets, mem]

end Values

/-! ## Whole sources -/

section Sources

variable {s : Store} {t : TypeRef} {fresh : List TypeRef} {function : String}

/-- A list of mentions whose calls all fit the definitions of a source. -/
def AllFit (s : Store) (ms : List Mention) : Prop :=
  ∀ function arguments, .call function arguments ∈ ms →
    (sourceMentions s).filter (·.defines function) = [.definition function arguments]

theorem allFit_append {ms ns : List Mention} :
    AllFit s (ms ++ ns) ↔ AllFit s ms ∧ AllFit s ns := by
  simp only [AllFit, mem_append, or_imp, forall_and]

theorem Legible.allFit_typeMentions (legible : Legible s)
    (own : ∀ t ∈ fresh, t ∈ writtenTypes s) (t : TypeRef) :
    AllFit s (typeMentions s (notes s fresh) t) ↔ servesType s fresh t = true := by
  have passed : ∀ c, given s (notes s fresh) t c
      = ((notes s (if isStruct s t then fresh else [])).lookup (parserName s c)).getD [] := by
    intro c
    unfold given
    split <;> rfl
  have own : ∀ u ∈ (if isStruct s t then fresh else []), u ∈ writtenTypes s := by
    split
    · exact own
    · simp
  unfold servesType typeMentions
  by_cases parser : hasParser s t = true
  · simp only [parser, if_true, Bool.not_true, Bool.false_or, all_eq_true]
    constructor
    · intro fit c mem
      rw [← legible.isServed_iff _ own, ← passed]
      exact fit _ _ (mem_cons_of_mem _ (mem_map_of_mem mem))
    · intro served function arguments mem
      obtain ⟨c, called, same⟩ := mem_map.mp ((mem_cons.mp mem).resolve_left (by simp))
      cases same
      rw [passed]
      exact (legible.isServed_iff _ own _).mpr (served c called)
  · simp [parser, AllFit]

theorem Legible.allFit_runMentions (legible : Legible s) (fresh : List TypeRef) {ts : List TypeRef}
    (own : ∀ t ∈ fresh, t ∈ writtenTypes s) (rest : ∀ t ∈ ts, t ∈ writtenTypes s) :
    AllFit s (runMentions s (notes s fresh) ts) ↔ servesTypes s fresh ts = true := by
  induction ts generalizing fresh with
  | nil => simp [runMentions, servesTypes, AllFit]
  | cons t ts ih =>
    rw [forall_mem_cons] at rest
    have later : ∀ u ∈ freshAfter s fresh t, u ∈ writtenTypes s := by
      unfold freshAfter
      split
      · simp
      · exact forall_mem_cons.mpr ⟨rest.1, own⟩
    rw [runMentions, allFit_append, legible.allFit_typeMentions own, inputsAfter_notes,
      ih _ later rest.2, servesTypes, Bool.and_eq_true]

/-- All calls in a source fit exactly if the store serves them. -/
theorem Legible.callsFit_iff (legible : Legible s) {source : String}
    (told : mentions source = sourceMentions s) : CallsFit source ↔ servesCalls s = true := by
  have types : AllFit s (runMentions s [] (writtenTypes s)) ↔
      servesTypes s [] (writtenTypes s) = true :=
    legible.allFit_runMentions [] (by simp) fun _ mem => mem
  have packets : AllFit s (.definition "parse_pdu" 0 :: s.pdus.map fun name =>
      .call ("parse_" ++ lowered name) 0) ↔
        ∀ name ∈ s.pdus, isServed s [] ("parse_" ++ lowered name) = true := by
    constructor
    · intro fit name mem
      rw [← legible.isServed_iff [] (by simp)]
      exact fit _ _ (mem_cons_of_mem _ (mem_map_of_mem mem))
    · intro served function arguments mem
      obtain ⟨name, packet, same⟩ := mem_map.mp ((mem_cons.mp mem).resolve_left (by simp))
      cases same
      exact (legible.isServed_iff [] (by simp) _).mpr (served name packet)
  have whole : CallsFit source ↔ AllFit s (sourceMentions s) := by
    rw [CallsFit, told]
    rfl
  rw [whole, sourceMentions, allFit_append, types, packets, servesCalls, Bool.and_eq_true,
    all_eq_true]

end Sources

end PacketDraft.Render.Rust
