import PacketDraft.Proofs.Render.Parsers

/-!
# Parser functions in a whole source

For every type that is written, which parser functions its part of the source defines and calls, as
far as the store tells it: a call for a field passes the values that are noted for the parser function
at the time. The source tells all of it, one type after the other.
-/

namespace PacketDraft.Render.Rust

open Protocol Text Attempt List

/-! ## What is told of a type -/

/-- The parser function for a type. -/
def parserName (s : Store) (t : TypeRef) : String :=
  "parse_" ++ lowered (typeNameOf s t)

/-- What tells how far a value reaches: the size of a bit string, the length of an array or else its
size. -/
def extent (s : Store) (t : TypeRef) : Option Expr :=
  match s.entryOf t with
  | none => none
  | some e =>
    match e.form with
    | .bitString => e.size
    | .array _ length => length <|> e.size
    | _ => none

/-- The fields that are noted for the parser function of a type, if its extent is computed. -/
def noted? (s : Store) (t : TypeRef) : Option (List String) :=
  match size s (extent s t) with
  | .ok (.text x) => some (references x)
  | _ => none

/-- The fields whose values the parser function of a type takes. -/
def inputsOf (s : Store) (t : TypeRef) : List String :=
  (noted? s t).getD []

/-- Whether a type has a parser function. -/
def hasParser (s : Store) (t : TypeRef) : Bool :=
  match s.entryOf t with
  | none => false
  | some e =>
    match e.form with
    | .bitString | .struct | .enum _ => true
    | .array _ length => (length <|> e.size).isSome
    | _ => false

/-- Whether a type is a structure. -/
def isStruct (s : Store) (t : TypeRef) : Bool :=
  match s.entryOf t with
  | none => false
  | some e =>
    match e.form with
    | .struct => true
    | _ => false

/-- Whether a type is made by a description. -/
def isMade (s : Store) (t : TypeRef) : Bool :=
  (s.entryOf t).any (!·.form.isPrimitive)

/-- The types whose parser functions the one of a type calls. -/
def calledTypes (s : Store) (t : TypeRef) : List TypeRef :=
  match s.entryOf t with
  | none => []
  | some e =>
    match e.form with
    | .struct => (s.members e).fields.map (·.type)
    | .array element _ => [element]
    | .enum variants => variants.filter (isMade s)
    | _ => []

/-- The values that a parser function is given by the one of a type. -/
def given (s : Store) (inputs : List (String × List String)) (t c : TypeRef) : List String :=
  if isStruct s t then (inputs.lookup (parserName s c)).getD [] else []

/-- The mentions in the source of a type. -/
def typeMentions (s : Store) (inputs : List (String × List String)) (t : TypeRef) : List Mention :=
  if hasParser s t then
    .definition (parserName s t) (inputsOf s t).length ::
      (calledTypes s t).map fun c => .call (parserName s c) (given s inputs t c).length
  else []

/-- What is noted behind the source of a type. A structure takes all notes away. -/
def inputsAfter (s : Store) (inputs : List (String × List String)) (t : TypeRef) :
    List (String × List String) :=
  if isStruct s t then []
  else match noted? s t with
    | some fields => (parserName s t, fields) :: inputs
    | none => inputs

/-- The mentions in the source of types, given what is noted before. -/
def runMentions (s : Store) : List (String × List String) → List TypeRef → List Mention
  | _, [] => []
  | inputs, t :: ts => typeMentions s inputs t ++ runMentions s (inputsAfter s inputs t) ts

/-! ## Sheets -/

/-- The mentions on a sheet. -/
def Sheet.Told (sheet : Sheet) (ms : List Mention) : Prop :=
  Tells (Place.In .clear) (String.join sheet.chunks) ms (Place.In .clear)

/-- One sheet goes on from another one, with these mentions more. -/
structure Sheet.Adds (ms : List Mention) (a b : Sheet) : Prop where
  told : ∀ before, a.Told before → b.Told (before ++ ms)
  inputs : b.inputs = a.inputs

section Sheets

variable {a b c : Sheet} {ms ns : List Mention} {name : String} {r : Unit} {chunks : List String}

theorem Sheet.Adds.append (first : Adds ms a b) (second : Adds ns b c) : Adds (ms ++ ns) a c where
  told before told := by
    rw [← append_assoc]
    exact second.told _ (first.told before told)
  inputs := second.inputs.trans first.inputs

theorem Sheet.Adds.then (first : Adds [] a b) (second : Adds ns b c) : Adds ns a c :=
  first.append second

theorem Sheet.Adds.quiet (first : Adds ms a b) (second : Adds [] b c) : Adds ms a c := by
  have both := first.append second
  rwa [append_nil] at both

/-- What is noted does not matter for what is told. -/
theorem Sheet.Adds.note (adds : Adds ms a b) (x : String × List String) :
    Adds ms { a with inputs := x :: a.inputs } { b with inputs := x :: b.inputs } where
  told := adds.told
  inputs := congrArg (x :: ·) adds.inputs

theorem put_adds (tells : Tells (Place.In .clear) (String.join chunks) ms (Place.In .clear))
    (done : put chunks a = (.ok r, b)) : Sheet.Adds ms a b := by
  cases done
  refine ⟨fun before told => ?_, rfl⟩
  show Tells _ (String.join (a.chunks ++ chunks)) _ _
  rw [String.join_append]
  exact told.append tells

theorem requireNew_eq_ok (done : requireNew name a = (.ok r, b)) : b = a := by
  rw [requireNew, read_bind] at done
  split at done
  · cases done
  · exact (pure_eq_ok.mp done).2.symm

end Sheets

/-! ## Writing a type -/

section Types

variable {s : Store} {t : TypeRef} {e : Entry} {a b : Sheet} {name : String} {r : Unit}

theorem writeInteger_adds {size : Option Int} (word : IsWord name)
    (done : writeInteger name size a = (.ok r, b)) :
    Sheet.Adds [.definition ("parse_" ++ lowered name) 0] a b := by
  obtain ⟨_, _, new, done⟩ := bind_eq_ok.mp done
  cases requireNew_eq_ok new
  obtain ⟨_, _, opening, last⟩ := bind_eq_ok.mp done
  have shown : Mild (size.elim "None" toString) := by
    cases size with
    | none => exact ⟨_, rfl⟩
    | some n => exact mild_toString n
  have head := put_adds (tells_bitStringOpening word (by simp [AreWords]) (quiet_width size)) opening
  refine head.quiet (put_adds (quiet_chunks ?_) last)
  simp only [forall_mem_cons]
  exact ⟨(quiet_fill rfl shown.quiet rfl).fill (quiet_camelCase word) rfl, quiet_text rfl, by simp⟩

theorem writeBytes_adds {size : String} (word : IsWord name) (mild : Mild size)
    (done : writeBytes name size a = (.ok r, b)) :
    Sheet.Adds [.definition ("parse_" ++ lowered name) (references size).length]
      { a with inputs := ("parse_" ++ lowered name, references size) :: a.inputs } b := by
  obtain ⟨_, _, note, done⟩ := bind_eq_ok.mp done
  cases update_eq_ok.mp note
  obtain ⟨_, _, new, done⟩ := bind_eq_ok.mp done
  cases requireNew_eq_ok new
  obtain ⟨_, _, opening, done⟩ := bind_eq_ok.mp done
  have shown : Quiet (Place.In .word) ("(pub " ++ "Vec<u8>" ++ ");\n") (Place.In .clear) :=
    quiet_fill rfl (quiet_text rfl) rfl
  have head := put_adds (tells_bitStringOpening word (areWords_references size) shown) opening
  split at done
  · cases done
  · obtain ⟨_, _, loop, last⟩ := bind_eq_ok.mp done
    have loop := put_adds (quiet_bitStringLoop word (mild.resolved (by simp))) loop
    refine (head.quiet loop).quiet (put_adds (quiet_chunks ?_) last)
    simp only [forall_mem_cons]
    exact ⟨quiet_text rfl, by simp⟩

theorem quiet_fieldDeclaration {f : Field} {type : String} (named : Mild f.name)
    (word : IsWord type) :
    Quiet (Place.In .clear) ("    pub " ++ f.name ++ ": " ++ (if isAlways f.presence then
      camelCase type else "Option<" ++ camelCase type ++ ">") ++ ",\n") (Place.In .clear) := by
  have start : Quiet (Place.In .clear) ("    pub " ++ f.name ++ ": ") (Place.In .clear) :=
    quiet_fill rfl named.quiet rfl
  split
  · exact start.fill (quiet_camelCase word) rfl
  · exact start.fill (quiet_fill rfl (quiet_camelCase word) rfl) rfl

/-- Fields are declared without a call. -/
theorem declareFields_adds {fields : List Field} {codes : List FieldCode}
    (spelled : ∀ f ∈ fields, Mild f.name ∧ Plain Mild f.presence)
    (words : ∀ f ∈ fields, IsWord (typeNameOf s f.type))
    (done : declareFields s fields a = (.ok codes, b)) :
    Sheet.Adds [] a b ∧ (∀ f ∈ codes, f.Fine) ∧
      codes.map (·.parser) = fields.map fun f => parserName s f.type := by
  induction fields generalizing a codes with
  | nil =>
    obtain ⟨rfl, rfl⟩ := pure_eq_ok.mp done
    exact ⟨⟨fun before told => by rwa [append_nil], rfl⟩, by simp, rfl⟩
  | cons f fields ih =>
    rw [forall_mem_cons] at spelled words
    obtain ⟨_, _, declared, done⟩ := bind_eq_ok.mp done
    obtain ⟨presence, _, shown, done⟩ := bind_eq_ok.mp done
    obtain ⟨rendered, rfl⟩ := ofExcept_eq_ok.mp shown
    obtain ⟨rest, _, later, done⟩ := bind_eq_ok.mp done
    obtain ⟨rfl, rfl⟩ := pure_eq_ok.mp done
    have first := put_adds (quiet_chunks (forall_mem_singleton.mpr
      (quiet_fieldDeclaration spelled.1.1 words.1))) declared
    obtain ⟨adds, fine, parsers⟩ := ih spelled.2 words.2 later
    refine ⟨first.then adds, forall_mem_cons.mpr ⟨?_, fine⟩, ?_⟩
    · exact ⟨spelled.1.1, mild_expr spelled.1.2 rendered, _, words.1, rfl⟩
    · rw [map_cons, map_cons, parsers]
      rfl

theorem Constraint.fine_of_rendered {x : Rendered} {c : Constraint} (mild : Mild x.shown)
    (made : Constraint.ofRendered x = .ok c) : Mild c.text ∧ AreWords c.fields := by
  cases x with
  | text text =>
    cases made
    exact ⟨Mild.resolved mild (by simp), areWords_references text⟩
  | _ => cases made

/-- A structure calls the parser functions of its fields. -/
theorem writeStruct_adds {fields : List Field} {constraints : List Rendered} (word : IsWord name)
    (spelled : ∀ f ∈ fields, Mild f.name ∧ Plain Mild f.presence)
    (words : ∀ f ∈ fields, IsWord (typeNameOf s f.type)) (mild : ∀ x ∈ constraints, Mild x.shown)
    (noted : ∀ p ∈ a.inputs, AreWords p.2)
    (done : writeStruct s name fields constraints a = (.ok r, b)) :
    ∃ c, b = { c with inputs := [] } ∧ Sheet.Adds (.definition ("parse_" ++ lowered name) 0 ::
      fields.map fun f => .call (parserName s f.type)
        ((a.inputs.lookup (parserName s f.type)).getD []).length) a c := by
  obtain ⟨_, _, new, done⟩ := bind_eq_ok.mp done
  cases requireNew_eq_ok new
  obtain ⟨checks, _, asked, done⟩ := bind_eq_ok.mp done
  obtain ⟨collected, rfl⟩ := ofExcept_eq_ok.mp asked
  have fine : ∀ c ∈ checks, Mild c.text ∧ AreWords c.fields := by
    intro c mem
    obtain ⟨x, own, made⟩ := exists_of_mem_mapM collected mem
    exact Constraint.fine_of_rendered (mild x own) made
  obtain ⟨_, _, opening, done⟩ := bind_eq_ok.mp done
  obtain ⟨codes, _, declared, done⟩ := bind_eq_ok.mp done
  obtain ⟨_, c₃, head, done⟩ := bind_eq_ok.mp done
  have start : Sheet.Adds [.definition ("parse_" ++ lowered name) 0] a c₃ := by
    refine ((put_adds ?_ opening).then (declareFields_adds spelled words declared).1).then
      (put_adds ?_ head)
    · simp only [String.join_cons]
      refine (quiet_fill rfl (quiet_name word) rfl).then ((quiet_until .word rfl).then ?_)
      refine tells_text_append rfl (tells_text_append rfl ((quiet_camelCase word).then ?_))
      exact tells_text_append rfl quiet_empty
    · simp only [String.join_cons, snakeCase_of_isWord word]
      refine tells_text_append rfl (tells_text_append rfl (Tells.quiet ?_ quiet_empty))
      exact tells_simpleHeader (isWord_lowered word) (quiet_parserResult word) (fun _ => rfl) rfl
        (by decide) rfl rfl
  split at done
  · cases done
  obtain ⟨inputs, _, known, done⟩ := bind_eq_ok.mp done
  obtain ⟨rfl, rfl⟩ := read_eq_ok.mp known
  obtain ⟨code, _, asked, done⟩ := bind_eq_ok.mp done
  obtain ⟨calls, rfl⟩ := ofExcept_eq_ok.mp asked
  rw [start.inputs] at calls
  obtain ⟨_, _, called, done⟩ := bind_eq_ok.mp done
  obtain ⟨_, _, result, done⟩ := bind_eq_ok.mp done
  obtain ⟨_, _, names, done⟩ := bind_eq_ok.mp done
  obtain ⟨_, c, closing, done⟩ := bind_eq_ok.mp done
  cases update_eq_ok.mp done
  obtain ⟨-, fineCodes, parsers⟩ := declareFields_adds spelled words declared
  have same : (codes.map fun f => Mention.call f.parser
      ((a.inputs.lookup f.parser).getD []).length) = fields.map fun f =>
        .call (parserName s f.type) ((a.inputs.lookup (parserName s f.type)).getD []).length := by
    simpa [Function.comp_def] using congrArg
      (List.map fun p => Mention.call p ((a.inputs.lookup p).getD []).length) parsers
  refine ⟨c, rfl, ?_⟩
  rw [← same]
  refine (((start.append (put_adds (tells_fieldsCode fineCodes noted fine calls) called)).quiet
    (put_adds (quiet_chunks ?_) result)).quiet (put_adds (quiet_chunks ?_) names)).quiet
    (put_adds (quiet_chunks ?_) closing)
  · simp only [forall_mem_cons]
    exact ⟨quiet_text rfl, quiet_text rfl, quiet_fill rfl (quiet_camelCase word) rfl, by simp⟩
  · simp only [forall_mem_map]
    exact fun f mem => quiet_fill rfl (fineCodes f mem).name.quiet rfl
  · simp only [forall_mem_cons]
    exact ⟨quiet_text rfl, quiet_text rfl, quiet_text rfl, quiet_text rfl, by simp⟩

theorem neededText_eq_ok {x : Rendered} {text : String} :
    neededText x = .ok text ↔ x = .text text := by
  cases x <;> simp [neededText]

/-- The loop of an array calls the parser function of its elements. -/
theorem writeLoop_adds {x : Expr} {element : String} {loop : String → List String}
    (word : IsWord name) (plain : Plain Mild x)
    (loops : ∀ text, Mild text → Tells (Place.In .clear) (String.join (loop text))
      [.call ("parse_" ++ lowered element) 0] (Place.In .clear))
    (done : writeLoop s name x loop a = (.ok r, b)) :
    ∃ text, expr s x = .ok (.text text) ∧
      Sheet.Adds [.definition ("parse_" ++ lowered name) (references text).length,
          .call ("parse_" ++ lowered element) 0]
        { a with inputs := ("parse_" ++ lowered name, references text) :: a.inputs } b := by
  obtain ⟨rendered, _, asked, done⟩ := bind_eq_ok.mp done
  obtain ⟨shown, rfl⟩ := ofExcept_eq_ok.mp asked
  obtain ⟨text, _, asked, done⟩ := bind_eq_ok.mp done
  obtain ⟨needed, rfl⟩ := ofExcept_eq_ok.mp asked
  obtain ⟨_, _, note, done⟩ := bind_eq_ok.mp done
  cases update_eq_ok.mp note
  obtain ⟨_, _, head, last⟩ := bind_eq_ok.mp done
  rw [neededText_eq_ok.mp needed] at shown
  have mild : Mild text := mild_expr plain shown
  have head := put_adds (tells_arrayHeader word (areWords_references text)) head
  have last := put_adds (loops _ (mild.resolved (by simp))) last
  rw [snakeCase_of_isWord word] at head
  exact ⟨text, shown, head.append last⟩

/-- An array with a length or a size has a parser function, and no other one. -/
theorem writeArray_adds {element : TypeRef} {length size : Option Expr} (word : IsWord name)
    (word' : IsWord (typeNameOf s element)) (plain : ∀ x ∈ length, Plain Mild x)
    (plain' : ∀ x ∈ size, Plain Mild x)
    (done : writeArray s name element length size a = (.ok r, b)) :
    (length <|> size) = none ∧ Sheet.Adds [] a b ∨
      ∃ x text, (length <|> size) = some x ∧ expr s x = .ok (.text text) ∧
        Sheet.Adds [.definition ("parse_" ++ lowered name) (references text).length,
            .call (parserName s element) 0]
          { a with inputs := ("parse_" ++ lowered name, references text) :: a.inputs } b := by
  obtain ⟨_, _, new, done⟩ := bind_eq_ok.mp done
  cases requireNew_eq_ok new
  obtain ⟨_, a₁, opening, done⟩ := bind_eq_ok.mp done
  have start : Sheet.Adds [] a a₁ := by
    refine put_adds (quiet_chunks ?_) opening
    simp only [forall_mem_cons]
    exact ⟨quiet_fill rfl (quiet_name word) rfl, quiet_text rfl,
      (quiet_fill rfl (quiet_camelCase word) rfl).fill (quiet_camelCase word') rfl, quiet_text rfl,
      by simp⟩
  have closes : ∀ {c d : Sheet}, put ["\n\x7d\n"] c = (.ok r, d) → Sheet.Adds [] c d :=
    put_adds (quiet_chunks (forall_mem_singleton.mpr (quiet_text rfl)))
  cases length with
  | some x =>
    obtain ⟨_, _, loop, last⟩ := bind_eq_ok.mp done
    obtain ⟨text, shown, adds⟩ := writeLoop_adds word (plain x rfl)
      (fun _ mild => tells_lengthLoop word word' mild) loop
    exact .inr ⟨x, text, rfl, shown, ((start.note _).then adds).quiet (closes last)⟩
  | none =>
    cases size with
    | some x =>
      obtain ⟨_, _, loop, last⟩ := bind_eq_ok.mp done
      obtain ⟨text, shown, adds⟩ := writeLoop_adds word (plain' x rfl)
        (fun _ mild => tells_sizeLoop word word' mild.inner) loop
      exact .inr ⟨x, text, rfl, shown, ((start.note _).then adds).quiet (closes last)⟩
    | none =>
      exact .inl ⟨rfl, start.then (closes done)⟩

/-- The variants that an enumeration names. -/
theorem variantNames_eq (s : Store) (variants : List TypeRef) :
    (variants.filterMap fun v =>
      (s.entryOf v).bind fun e => if e.form.isPrimitive then none else some e.shownName)
      = (variants.filter (isMade s)).map (typeNameOf s) := by
  induction variants with
  | nil => rfl
  | cons v variants ih =>
    rw [filterMap_cons, filter_cons, isMade, ih]
    cases entry : s.entryOf v with
    | none => simp
    | some e => cases primitive : e.form.isPrimitive <;> simp [primitive, typeNameOf, entry]

/-- An enumeration calls the parser functions of its variants. -/
theorem writeEnum_adds {variants : List TypeRef} (word : IsWord name)
    (words : ∀ v ∈ variants, IsWord (typeNameOf s v))
    (done : writeEnum s name variants a = (.ok r, b)) :
    Sheet.Adds (.definition ("parse_" ++ lowered name) 0 ::
      (variants.filter (isMade s)).map fun v => .call (parserName s v) 0) a b := by
  unfold writeEnum at done
  simp only [variantNames_eq] at done
  have words : ∀ v ∈ (variants.filter (isMade s)).map (typeNameOf s), IsWord v := by
    intro v mem
    obtain ⟨v, own, rfl⟩ := mem_map.mp mem
    exact words v (mem_of_mem_filter own)
  obtain ⟨_, a₁, head, done⟩ := bind_eq_ok.mp done
  have head : Sheet.Adds [.definition ("parse_" ++ lowered name) 0] a a₁ := by
    refine put_adds ?_ head
    simp only [String.join_cons, snakeCase_of_isWord word]
    refine (quiet_fill rfl (quiet_name word) rfl).then (tells_text_append rfl ?_)
    refine (quiet_fill rfl (quiet_camelCase word) rfl).then ((quiet_variantLines words).then ?_)
    refine tells_text_append rfl (tells_text_append rfl (Tells.quiet ?_ quiet_empty))
    exact tells_simpleHeader (isWord_lowered word) (quiet_parserResult word) (fun _ => rfl) rfl
      (by decide) rfl rfl
  split at done
  · cases done
  obtain ⟨_, _, calls, last⟩ := bind_eq_ok.mp done
  have calls := put_adds (tells_flatMap fun v mem => tells_tryVariant word (words v mem)) calls
  rw [map_map] at calls
  refine (head.append calls).quiet (put_adds (quiet_chunks ?_) last)
  simp only [forall_mem_cons]
  exact ⟨quiet_text rfl, quiet_text rfl, by simp⟩

/-! ## The context, packets and files -/

theorem quiet_slotLines {type : TypeRef} {lines : List String} (named : Mild name)
    (known : slotLines s name type = .ok lines) :
    ∀ line ∈ lines, Quiet (Place.In .clear) line (Place.In .clear) := by
  have widths : ∀ size, Mild (toString (integerWidth size)) := by
    have each : ∀ n ∈ [8, 16, 32, 64, 128], Mode.follow .low .clear (toString n).toList
        = some .word := by
      decide
    exact fun size => ⟨_, each _ (mem_widths size)⟩
  unfold slotLines at known
  split at known
  · cases known
    simp
  · split at known
    · cases known
      exact forall_mem_singleton.mpr (quiet_fill rfl named.quiet rfl)
    · obtain ⟨rendered, -, known⟩ := exceptBind_eq_ok.mp known
      split at known
      · cases known
      · cases known
        exact forall_mem_singleton.mpr
          ((quiet_fill rfl named.quiet rfl).fill (widths none).quiet rfl)
      · cases known
        exact forall_mem_singleton.mpr
          ((quiet_fill rfl named.quiet rfl).fill (widths _).quiet rfl)
    · cases known
      simp

/-- The context makes no mention, although it goes in front. -/
theorem writeContext_adds {slots : List (String × TypeRef)} (named : ∀ p ∈ slots, Mild p.1)
    (done : writeContext s slots a = (.ok r, b)) : Sheet.Adds [] a b := by
  obtain ⟨lines, _, asked, done⟩ := bind_eq_ok.mp done
  obtain ⟨known, rfl⟩ := ofExcept_eq_ok.mp asked
  cases update_eq_ok.mp done
  refine ⟨fun before told => ?_, rfl⟩
  rw [append_nil]
  show Tells _ (String.join (_ :: a.chunks)) _ _
  rw [String.join_cons]
  refine (quiet_fill rfl (quiet_intercalate (quiet_text rfl) fun line mem => ?_) rfl).then told
  obtain ⟨own, mem, inside⟩ := mem_flatten.mp mem
  obtain ⟨p, slot, known⟩ := exists_of_mem_mapM known mem
  exact quiet_slotLines (named p slot) known line inside

/-- The names of a type and of its parts are words. -/
structure Worded (s : Store) (t : TypeRef) : Prop where
  own : IsWord (typeNameOf s t)
  parts : ∀ c ∈ s.components t, IsWord (typeNameOf s c)

theorem typeNameOf_eq (entry : s.entryOf t = some e) (made : e.form.isPrimitive = false) :
    typeNameOf s t = e.shownName := by
  simp [typeNameOf, entry, made]

/-- What is written for a type is as the store tells it. -/
def Agrees (s : Store) (t : TypeRef) (a b : Sheet) : Prop :=
  (∀ before, a.Told before → b.Told (before ++ typeMentions s a.inputs t)) ∧
    b.inputs = inputsAfter s a.inputs t

theorem agrees_bitString {x : Rendered} (entry : s.entryOf t = some e) (form : e.form = .bitString)
    (word : IsWord e.shownName) (shown : size s e.size = .ok x) (mild : Mild x.shown)
    (done : writeBitString e.shownName x a = (.ok r, b)) : Agrees s t a b := by
  have name : parserName s t = "parse_" ++ lowered e.shownName := by
    rw [parserName, typeNameOf_eq entry (by rw [form]; rfl)]
  have own : extent s t = e.size := by simp [extent, entry, form]
  have mentions : typeMentions s a.inputs t
      = [.definition ("parse_" ++ lowered e.shownName) (inputsOf s t).length] := by
    simp [typeMentions, hasParser, calledTypes, entry, form, name]
  have after : inputsAfter s a.inputs t = match noted? s t with
      | some fields => ("parse_" ++ lowered e.shownName, fields) :: a.inputs
      | none => a.inputs := by
    simp [inputsAfter, isStruct, entry, form, name]
  rw [Agrees, mentions, after, inputsOf, noted?, own, shown]
  cases x with
  | absent =>
    have adds := writeInteger_adds word done
    exact ⟨adds.told, adds.inputs⟩
  | number n =>
    have adds := writeInteger_adds word done
    exact ⟨adds.told, adds.inputs⟩
  | text size =>
    have adds := writeBytes_adds word mild done
    exact ⟨adds.told, adds.inputs⟩

theorem agrees_struct {constraints : List Rendered} (spelled : s.Spelled Mild)
    (entry : s.entryOf t = some e) (form : e.form = .struct) (worded : Worded s t)
    (words : ∀ p ∈ a.inputs, AreWords p.2)
    (shown : (s.members e).constraints.mapM (expr s) = .ok constraints)
    (done : writeStruct s e.shownName (s.members e).fields constraints a = (.ok r, b)) :
    Agrees s t a b := by
  have type := typeNameOf_eq entry (by rw [form]; rfl)
  have parts : ∀ f ∈ (s.members e).fields, IsWord (typeNameOf s f.type) := by
    intro f mem
    refine worded.parts _ ?_
    rw [Store.components, entry]
    simp only [form]
    exact mem_map_of_mem mem
  have mild : ∀ x ∈ constraints, Mild x.shown := by
    intro x mem
    obtain ⟨c, own, shown⟩ := exists_of_mem_mapM shown mem
    exact mild_expr ((spelled.members e).constraints c own) shown
  obtain ⟨c, rfl, adds⟩ := writeStruct_adds (type ▸ worded.own) (spelled.members e).fields parts mild
    words done
  have none : inputsOf s t = [] := by simp [inputsOf, noted?, extent, entry, form, size]
  have mentions : typeMentions s a.inputs t
      = .definition ("parse_" ++ lowered e.shownName) 0 :: (s.members e).fields.map fun f =>
        .call (parserName s f.type) ((a.inputs.lookup (parserName s f.type)).getD []).length := by
    simp [typeMentions, hasParser, calledTypes, given, isStruct, entry, form, none, parserName, type,
      Function.comp_def]
  have after : inputsAfter s a.inputs t = [] := by simp [inputsAfter, isStruct, entry, form]
  rw [Agrees, mentions, after]
  exact ⟨adds.told, rfl⟩

theorem agrees_array {element : TypeRef} {length : Option Expr} (spelled : s.Spelled Mild)
    (entry : s.entryOf t = some e) (form : e.form = .array element length) (worded : Worded s t)
    (done : writeArray s e.shownName element length e.size a = (.ok r, b)) : Agrees s t a b := by
  have type := typeNameOf_eq entry (by rw [form]; rfl)
  have part : IsWord (typeNameOf s element) :=
    worded.parts _ (by simp [Store.components, entry, form])
  have plain : ∀ x ∈ length, Plain Mild x := by
    have own := (spelled.entryOf entry).length
    rwa [form] at own
  have own : extent s t = (length <|> e.size) := by simp [extent, entry, form]
  have mentions : typeMentions s a.inputs t = if (length <|> e.size).isSome then
      [.definition ("parse_" ++ lowered e.shownName) (inputsOf s t).length,
        .call (parserName s element) 0] else [] := by
    simp [typeMentions, hasParser, calledTypes, given, isStruct, entry, form, parserName, type]
  have after : inputsAfter s a.inputs t = match noted? s t with
      | some fields => ("parse_" ++ lowered e.shownName, fields) :: a.inputs
      | none => a.inputs := by
    simp [inputsAfter, isStruct, entry, form, parserName, type]
  rw [Agrees, mentions, after, inputsOf, noted?, own]
  rcases writeArray_adds (type ▸ worded.own) part plain (spelled.entryOf entry).size done with
    ⟨none, adds⟩ | ⟨x, text, some, shown, adds⟩
  · rw [none]
    exact ⟨adds.told, adds.inputs⟩
  · rw [some, size, shown]
    exact ⟨adds.told, adds.inputs⟩

theorem agrees_enum {variants : List TypeRef} (entry : s.entryOf t = some e)
    (form : e.form = .enum variants) (worded : Worded s t)
    (done : writeEnum s e.shownName variants a = (.ok r, b)) : Agrees s t a b := by
  have type := typeNameOf_eq entry (by rw [form]; rfl)
  have parts : ∀ v ∈ variants, IsWord (typeNameOf s v) := by
    intro v mem
    exact worded.parts v (by simpa [Store.components, entry, form] using mem)
  have adds := writeEnum_adds (type ▸ worded.own) parts done
  have none : noted? s t = none := by simp [noted?, extent, entry, form, size]
  have mentions : typeMentions s a.inputs t = .definition ("parse_" ++ lowered e.shownName) 0 ::
      (variants.filter (isMade s)).map fun v => .call (parserName s v) 0 := by
    simp [typeMentions, hasParser, calledTypes, given, isStruct, inputsOf, entry, form, none,
      parserName, type]
  have after : inputsAfter s a.inputs t = a.inputs := by
    simp [inputsAfter, isStruct, entry, form, none]
  rw [Agrees, mentions, after]
  exact ⟨adds.told, adds.inputs⟩

theorem agrees_context (spelled : s.Spelled Mild) (entry : s.entryOf t = some e)
    (form : e.form = .context) (done : writeContext s (s.members e).slots a = (.ok r, b)) :
    Agrees s t a b := by
  have adds := writeContext_adds (spelled.members e).slots done
  have mentions : typeMentions s a.inputs t = [] := by simp [typeMentions, hasParser, entry, form]
  have after : inputsAfter s a.inputs t = a.inputs := by
    simp [inputsAfter, isStruct, noted?, extent, size, entry, form]
  rw [Agrees, mentions, after]
  exact ⟨adds.told, adds.inputs⟩

/-- What is written for a type is as the store tells it, whatever its form. -/
theorem writeType_agrees (spelled : s.Spelled Mild) (worded : Worded s t)
    (written : isWritten s t = true) (words : ∀ p ∈ a.inputs, AreWords p.2)
    (done : writeType s t a = (.ok r, b)) : Agrees s t a b := by
  unfold writeType at done
  unfold isWritten at written
  cases entry : s.entryOf t with
  | none =>
    rw [entry] at done
    cases done
  | some e =>
    rw [entry] at done written
    dsimp only at done written
    cases form : e.form with
    | bitString =>
      rw [form] at done
      obtain ⟨x, _, asked, done⟩ := bind_eq_ok.mp done
      obtain ⟨shown, rfl⟩ := ofExcept_eq_ok.mp asked
      have word : IsWord e.shownName := typeNameOf_eq entry (by rw [form]; rfl) ▸ worded.own
      refine agrees_bitString entry form word shown ?_ done
      cases given : e.size with
      | none =>
        rw [given] at shown
        cases shown
        exact ⟨_, rfl⟩
      | some size =>
        rw [given] at shown
        exact mild_expr ((spelled.entryOf entry).size size given) shown
    | struct =>
      rw [form] at done
      obtain ⟨constraints, _, asked, done⟩ := bind_eq_ok.mp done
      obtain ⟨shown, rfl⟩ := ofExcept_eq_ok.mp asked
      exact agrees_struct spelled entry form worded words shown done
    | array element length =>
      rw [form] at done
      exact agrees_array spelled entry form worded done
    | enum variants =>
      rw [form] at done
      exact agrees_enum entry form worded done
    | context =>
      rw [form] at done
      exact agrees_context spelled entry form done
    | _ => simp [form] at written

end Types

/-! ## The whole source -/

section Whole

variable {s : Store} {a b : Sheet} {r : Unit}

theorem areWords_inputsAfter {inputs : List (String × List String)} (t : TypeRef)
    (words : ∀ p ∈ inputs, AreWords p.2) : ∀ p ∈ inputsAfter s inputs t, AreWords p.2 := by
  unfold inputsAfter
  split
  · simp
  · split
    · next fields noted =>
      refine forall_mem_cons.mpr ⟨?_, words⟩
      unfold noted? at noted
      split at noted
      · cases noted
        exact areWords_references _
      · cases noted
    · exact words

/-- One type after the other. -/
theorem writeTypes_told {ts : List TypeRef} {before : List Mention} (spelled : s.Spelled Mild)
    (worded : ∀ t ∈ ts, Worded s t) (written : ∀ t ∈ ts, isWritten s t = true)
    (words : ∀ p ∈ a.inputs, AreWords p.2) (told : a.Told before)
    (done : Attempt.each (writeType s) ts a = (.ok r, b)) :
    b.Told (before ++ runMentions s a.inputs ts) := by
  induction ts generalizing a before with
  | nil =>
    cases done
    rwa [runMentions, append_nil]
  | cons t ts ih =>
    rw [forall_mem_cons] at worded written
    obtain ⟨_, c, first, rest⟩ := bind_eq_ok.mp done
    obtain ⟨tells, inputs⟩ := writeType_agrees spelled worded.1 written.1 words first
    have later := ih worded.2 written.2 (inputs ▸ areWords_inputsAfter t words) (tells before told) rest
    rwa [inputs, append_assoc] at later

theorem packetHeader_eq :
    "pub fn parse_pdu<'a>(input: (&'a [u8], usize), mut context: &'a mut Context) -> "
      = "pub fn parse_" ++ "pdu"
        ++ "<'a>(input: (&'a [u8], usize), mut context: &'a mut Context) -> " := by
  decide +kernel

/-- The parser function for packets calls those of all of them. -/
theorem writeProtocol_adds {pdus : List String} (words : ∀ name ∈ pdus, IsWord name)
    (done : writeProtocol pdus a = (.ok r, b)) :
    Sheet.Adds (.definition "parse_pdu" 0 :: pdus.map fun name => .call ("parse_" ++ lowered name) 0)
      a b := by
  obtain ⟨_, c, head, done⟩ := bind_eq_ok.mp done
  have head : Sheet.Adds [.definition "parse_pdu" 0] a c := by
    refine put_adds ?_ head
    have result : Quiet (Place.In .clear) (parserResult "PDU") (Place.In .clear) :=
      quiet_fill rfl (quiet_until .word rfl) rfl
    have named : IsWord "pdu" := by decide
    simp only [String.join_cons]
    refine tells_text_append rfl (tells_text_append rfl (tells_text_append rfl ?_))
    refine (quiet_variantLines words).then (tells_text_append rfl (tells_text_append rfl ?_))
    refine Tells.quiet ?_ quiet_empty
    rw [packetHeader_eq]
    exact tells_simpleHeader named result (fun _ => rfl) rfl (by decide) rfl rfl
  split at done
  · cases done
  obtain ⟨_, _, calls, last⟩ := bind_eq_ok.mp done
  have calls := put_adds (tells_flatMap fun name mem => tells_tryPacket (words name mem)) calls
  refine (head.append calls).quiet (put_adds (quiet_chunks ?_) last)
  simp only [forall_mem_cons]
  exact ⟨quiet_text rfl, quiet_text rfl, by simp⟩

/-- The mentions in the source of a protocol. -/
def sourceMentions (s : Store) : List Mention :=
  runMentions s [] (writtenTypes s) ++
    .definition "parse_pdu" 0 :: s.pdus.map fun name => .call ("parse_" ++ lowered name) 0

/-- The source of a crate makes the mentions that the store tells of. -/
theorem mentions_of_writeCrate {name : String} {files : List (String × String)}
    (spelled : s.Spelled Mild) (worded : ∀ t ∈ writtenTypes s, Worded s t)
    (words : ∀ name ∈ s.pdus, IsWord name) (done : writeCrate s name {} = (.ok files, b)) :
    ∃ source, files.lookup "src/lib.rs" = some source ∧ mentions source = sourceMentions s := by
  obtain ⟨_, a, types, done⟩ := bind_eq_ok.mp done
  obtain ⟨_, c, packets, done⟩ := bind_eq_ok.mp done
  have start : Sheet.Told {} [] := quiet_empty
  have told := writeTypes_told spelled worded (fun t mem => (mem_filter.mp mem).2)
    (by simp) start types
  have told := (writeProtocol_adds words packets).told _ told
  cases done
  refine ⟨_, rfl, ?_⟩
  have lead : Quiet (Place.In .clear) preface (Place.In .clear) := quiet_text (by decide)
  have whole := ((lead.then told) ⟨[], []⟩ rfl).2 []
  rw [append_nil, mentionsFrom, append_nil] at whole
  rw [mentions, String.join_cons, whole]
  rfl

end Whole

end PacketDraft.Render.Rust
