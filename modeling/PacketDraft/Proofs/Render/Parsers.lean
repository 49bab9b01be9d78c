import PacketDraft.Proofs.Protocol.Closure
import PacketDraft.Proofs.Render.Expressions
import PacketDraft.Proofs.Render.Names
import PacketDraft.Proofs.Text.Blank

/-!
# Parser functions in the source of a type

Every piece of the source of a type is read: which parser functions it defines and calls, and with how
many values besides input and context.
-/

namespace PacketDraft.Render.Rust

open Protocol Text List

/-! ## Names and lists of values -/

section Lists

variable {P : Place → Prop} {name : String} {fields : List String}

theorem IsWord.not_opening (word : IsWord name) : ∀ c ∈ name.toList, c ≠ '(' ∧ c ≠ '<' := by
  intro c mem
  constructor
  · rintro rfl
    exact absurd (word _ mem) (by decide)
  · rintro rfl
    exact absurd (word _ mem) (by decide)

theorem quiet_name (word : IsWord name) : Quiet P name (Place.In .low) :=
  quiet_of_forall word.not_opening

theorem quiet_lowered (word : IsWord name) : Quiet P (lowered name) (Place.In .low) :=
  quiet_name (isWord_lowered word)

theorem quiet_camelCase (word : IsWord name) :
    Quiet (Place.In .clear) (camelCase name) (Place.In .word) :=
  (quiet_of_letters (letters_camelCase word)).imp (fun _ => Place.In.word) fun _ => id

/-- Fields that a text refers to. -/
def AreWords (fields : List String) : Prop :=
  ∀ field ∈ fields, ∀ c ∈ field.toList, isWordChar c = true

theorem areWords_references (text : String) : AreWords (references text) :=
  fun _ mem => isWordChar_of_mem_references mem

theorem count_eq_zero_of_isWordChar {field : String} {c : Char}
    (word : ∀ c ∈ field.toList, isWordChar c = true) (other : isWordChar c = false) :
    field.toList.count c = 0 := by
  rw [count_eq_zero]
  intro mem
  rw [word c mem] at other
  cases other

/-- Fields, each with the same text behind it, and a comma before each. -/
def listed (suffix : String) : List String → String
  | [] => ""
  | fields => ", " ++ ", ".intercalate (fields.map (· ++ suffix))

theorem listed_cons (suffix field : String) (fields : List String) :
    listed suffix (field :: fields) = ", " ++ (field ++ suffix) ++ listed suffix fields := by
  cases fields with
  | nil => simp [listed]
  | cons next fields =>
    apply String.toList_injective
    simp [listed]

/-- What is counted in a list of fields. -/
theorem count_listed {c : Char} {suffix : String} (words : AreWords fields)
    (other : isWordChar c = false) :
    (listed suffix fields).toList.count c = fields.length * (", " ++ suffix).toList.count c := by
  induction fields with
  | nil => simp [listed]
  | cons field fields ih =>
    have none := count_eq_zero_of_isWordChar (words field mem_cons_self) other
    rw [listed_cons]
    simp only [String.toList_append, count_append, none, length_cons, Nat.add_mul,
      Nat.one_mul] at ih ⊢
    rw [ih fun f mem => words f (mem_cons_of_mem field mem)]
    omega

/-- A list of fields opens nothing. -/
theorem not_opening_listed (suffix : String) (words : AreWords fields)
    (closed : ∀ c ∈ suffix.toList, c ≠ '(' ∧ c ≠ '<') :
    ∀ c ∈ (listed suffix fields).toList, c ≠ '(' ∧ c ≠ '<' := by
  induction fields with
  | nil => simp [listed]
  | cons field fields ih =>
    rw [listed_cons]
    simp only [String.toList_append, forall_mem_append]
    refine ⟨⟨by simp, fun c mem => ?_, closed⟩, ?_⟩
    · exact not_opening_of_isWordChar (words field mem_cons_self c mem)
    · exact ih fun f mem => words f (mem_cons_of_mem field mem)

end Lists

/-! ## Definitions -/

section Definitions

variable {name : String} {fields : List String}

theorem quiet_parserResult (word : IsWord name) :
    Quiet (Place.In .clear) (parserResult (camelCase name)) (Place.In .clear) :=
  quiet_fill rfl (quiet_camelCase word) rfl

/-- The number of parameters, given in a list between fixed texts. -/
theorem parameterCount_between {before list after : String} {n : Nat}
    (start : before.toList.count ':' = 2 ∧ before.toList.count '-' = 0)
    (own : list.toList.count ':' = n ∧ list.toList.count '-' = 0)
    (ends : '-' ∈ after.toList ∧ (after.toList.takeWhile (· != '-')).count ':' = 0)
    (rest : List Char) :
    parameterCount (before.toList ++ (list.toList ++ (after.toList ++ rest))) = n := by
  rw [← append_assoc, parameterCount_append ?_ ends.1, count_append, start.1, own.1,
    ends.2]
  · omega
  · rw [← count_eq_zero, count_append, start.2, own.2]

theorem count_parameters (words : AreWords fields) :
    (listed ": usize" fields).toList.count ':' = fields.length ∧
      (listed ": usize" fields).toList.count '-' = 0 := by
  have colon : (", " ++ ": usize").toList.count ':' = 1 := by decide
  have dash : (", " ++ ": usize").toList.count '-' = 0 := by decide
  rw [count_listed words (by decide), count_listed words (by decide), colon, dash]
  omega

theorem parameters_eq_listed (fields : List String) :
    (if fields = [] then "" else ", " ++ inputParameters fields) = listed ": usize" fields := by
  cases fields <;> rfl

/-- The head of the parser function of a bit string. -/
theorem tells_bitStringHeader (word : IsWord name) (words : AreWords fields) :
    Tells (Place.In .clear) (bitStringHeader name fields)
      [.definition ("parse_" ++ lowered name) fields.length] (Place.In .clear) := by
  have list := quiet_of_forall (P := Place.In .word)
    (not_opening_listed ": usize" words (by simp))
  have result := quiet_parserResult word
  unfold bitStringHeader
  rw [parameters_eq_listed]
  simp only [String.append_assoc]
  refine (quiet_naming (fun _ => rfl) rfl).then (tells_definition (isWord_lowered word) ?_ ?_ ?_)
  · rw [String.toList_append]
    rfl
  · exact (quiet_until .word rfl).then
      (list.then (tells_text_append rfl (result.then (quiet_text rfl))))
  · intro rest
    simp only [String.toList_append, append_assoc]
    exact parameterCount_between (by decide) (count_parameters words) (by decide) _

/-- Without the comma before the first one, the parameters are as many. -/
theorem count_inputParameters (words : AreWords fields) :
    (inputParameters fields).toList.count ':' = fields.length ∧
      (inputParameters fields).toList.count '-' = 0 := by
  cases fields with
  | nil => exact ⟨rfl, rfl⟩
  | cons field fields =>
    have counts := count_parameters words
    rw [← parameters_eq_listed, if_neg (by simp)] at counts
    simpa using counts

theorem not_opening_inputParameters (words : AreWords fields) :
    ∀ c ∈ (inputParameters fields).toList, c ≠ '(' ∧ c ≠ '<' := by
  cases fields with
  | nil => simp [inputParameters]
  | cons field fields =>
    have closed := not_opening_listed ": usize" words (by simp)
    rw [← parameters_eq_listed, if_neg (by simp), String.toList_append,
      forall_mem_append] at closed
    exact closed.2

/-- The head of the parser function of an array. -/
theorem tells_arrayHeader (word : IsWord name) (words : AreWords fields) :
    Tells (Place.In .clear) (String.join (arrayHeader name fields))
      [.definition ("parse_" ++ lowered name) fields.length] (Place.In .clear) := by
  have list := quiet_of_forall (P := Place.In .clear) (not_opening_inputParameters words)
  have result := quiet_parserResult word
  unfold arrayHeader
  rw [snakeCase_of_isWord word, String.join_cons]
  refine Tells.quiet ?_ (quiet_chunks ?_)
  · simp only [String.append_assoc]
    refine (quiet_naming (fun _ => rfl) rfl).then (tells_definition (isWord_lowered word) ?_ ?_ ?_)
    · rw [String.toList_append]
      rfl
    · exact tells_text_append rfl (list.then (tells_text_append rfl (result.then (quiet_text rfl))))
    · intro rest
      simp only [String.toList_append, append_assoc]
      exact parameterCount_between (by decide) (count_inputParameters words) (by decide) _
  · rw [forall_mem_singleton]
    exact (quiet_fill rfl (quiet_lowered word) rfl).fill (quiet_camelCase word) rfl

/-- The head of a parser function that takes nothing but input and context. -/
theorem tells_simpleHeader {lead tail : List Char} {name type : String} (word : IsWord name)
    (result : Quiet (Place.In .clear) (parserResult type) (Place.In .clear))
    (leads : ∀ before, Place.behind ⟨before, []⟩ lead = ⟨"fn".toList, "parse_".toList⟩)
    (opens : tail.head? = some '<')
    (counted : '-' ∈ tail ∧ (tail.takeWhile (· != '-')).count ':' = 2)
    (followed : Mode.follow .clear .clear lead = some .low)
    (followed' : Mode.follow .clear .clear tail = some .clear) :
    Tells (Place.In .clear)
      (String.ofList lead ++ name ++ String.ofList tail ++ parserResult type ++ " \x7b\n")
      [.definition ("parse_" ++ name) 0] (Place.In .clear) := by
  simp only [String.append_assoc]
  refine (quiet_naming leads followed).then (tells_definition word ?_ ?_ ?_)
  · rw [String.toList_append, String.toList_ofList, List.head?_append, opens]
    rfl
  · exact (quiet_text followed').then (result.then (quiet_text rfl))
  · intro rest
    rw [String.toList_append, String.toList_ofList, append_assoc,
      parameterCount_of_mem counted.1, counted.2]

end Definitions

/-! ## Calls -/

section Calls

variable {name : String} {fields : List String}

/-- A call that gives nothing but input and context. -/
theorem tells_simpleCall {lead tail : List Char} (word : IsWord name)
    (leads : ∀ before, Place.behind ⟨before, []⟩ lead = ⟨"match".toList, "parse_".toList⟩)
    (opens : tail.head? = some '(')
    (counted : ')' ∈ tail ∧ (tail.takeWhile (· != ')')).count ',' = 1)
    (followed : Mode.follow .clear .clear lead = some .low)
    (followed' : Mode.follow .clear .clear tail = some .clear) :
    Tells (Place.In .clear) (String.ofList lead ++ snakeCase name ++ String.ofList tail)
      [.call ("parse_" ++ lowered name) 0] (Place.In .clear) := by
  rw [snakeCase_of_isWord word, String.append_assoc]
  refine (quiet_naming leads followed).then ?_
  refine tells_call (isWord_lowered word) ?_ (quiet_text followed') ?_ (by decide)
  · rw [String.toList_ofList]
    exact opens
  · intro rest
    rw [String.toList_ofList, argumentCount_of_mem counted.1, counted.2]

/-- A call with values of fields. -/
theorem tells_fieldCall (word : IsWord name) (words : AreWords fields) :
    Tells (Place.After "match") ("parse_" ++ lowered name ++ "(input, context"
        ++ listed ".0 as usize" fields ++ ") \x7b\n")
      [.call ("parse_" ++ lowered name) fields.length] (Place.In .clear) := by
  have list := quiet_of_forall (P := Place.In .word)
    (not_opening_listed ".0 as usize" words (by simp))
  have before : "(input, context".toList.count ',' = 1 ∧ "(input, context".toList.count ')' = 0 := by
    decide
  have each : (", " ++ ".0 as usize").toList.count ',' = 1 ∧
      (", " ++ ".0 as usize").toList.count ')' = 0 := by
    decide
  have behind : (") \x7b\n".toList.takeWhile (· != ')')).count ',' = 0 := by decide
  simp only [String.append_assoc]
  refine (quiet_parse "match").then (tells_call (isWord_lowered word) ?_ ?_ ?_ (by decide))
  · rw [String.toList_append]
    rfl
  · exact (quiet_until .word rfl).then (list.then (quiet_text rfl))
  · intro rest
    simp only [String.toList_append, append_assoc]
    rw [← append_assoc, argumentCount_append ?_ (by decide), count_append,
      count_listed words (by decide), each.1, before.1, behind]
    · omega
    · rw [← count_eq_zero, count_append, count_listed words (by decide), each.2,
        before.2]
      rfl

end Calls

/-! ## Bit strings -/

section BitStrings

variable {name size : String}

theorem quiet_bitStringLoop (word : IsWord name) (mild : Mild size) :
    Quiet (Place.In .clear) (String.join (bitStringLoop name size)) (Place.In .clear) := by
  have n := quiet_lowered (P := Place.In .clear) word
  have camel := quiet_camelCase word
  have size := mild.unwrapped.quiet
  refine quiet_chunks ?_
  simp only [bitStringLoop, forall_mem_cons]
  exact ⟨(quiet_fill rfl n rfl).fill size rfl, (quiet_fill rfl n rfl).fill camel rfl, quiet_text rfl,
    quiet_fill rfl n rfl, (quiet_fill rfl n rfl).fill n rfl, quiet_text rfl, quiet_text rfl,
    quiet_text rfl, quiet_fill rfl n rfl, quiet_text rfl, quiet_text rfl, quiet_text rfl,
    quiet_fill rfl n rfl, quiet_text rfl, quiet_fill rfl n rfl, by simp⟩

/-- The type of a bit string and the head of its parser function. -/
theorem tells_bitStringOpening {type : String} {fields : List String} (word : IsWord name)
    (words : AreWords fields)
    (shown : Quiet (Place.In .word) ("(pub " ++ type ++ ");\n") (Place.In .clear)) :
    Tells (Place.In .clear) (String.join (bitStringOpening name type fields))
      [.definition ("parse_" ++ lowered name) fields.length] (Place.In .clear) := by
  simp only [bitStringOpening, String.join_cons]
  refine (quiet_fill rfl (quiet_name word) rfl).then ?_
  have derive : Quiet (Place.In .clear) (deriveLine ++ "\n") (Place.In .clear) :=
    Tells.then (quiet_text rfl) (quiet_text rfl)
  refine derive.then (tells_text_append rfl ((quiet_camelCase word).then (shown.then ?_)))
  exact tells_text_append rfl ((tells_bitStringHeader word words).quiet quiet_empty)

theorem mem_widths (size : Option Int) : integerWidth size ∈ [8, 16, 32, 64, 128] := by
  unfold integerWidth
  split
  · simp
  · split_ifs <;> simp

theorem quiet_width (size : Option Int) :
    Quiet (Place.In .word) ("(pub " ++ ("u" ++ toString (integerWidth size)) ++ ");\n")
      (Place.In .clear) := by
  have widths : ∀ n ∈ [8, 16, 32, 64, 128], Mode.follow .clear .word
      ("(pub " ++ ("u" ++ toString n) ++ ");\n").toList = some .clear := by
    decide
  exact quiet_of_follow .clear (widths _ (mem_widths size))

end BitStrings

/-! ## Structures -/

section Structs

variable {current name : String}

theorem quiet_checkCode {c : Constraint} (mild : Mild c.text) (words : AreWords c.fields) :
    Quiet (Place.In .clear) (checkCode current c) (Place.In .clear) :=
  (quiet_fill rfl mild.quiet rfl).fill (mild.condition words current).quiet (by decide)

theorem quiet_intercalate {sep : String} {texts : List String}
    (gap : Quiet (Place.In .clear) sep (Place.In .clear))
    (each : ∀ text ∈ texts, Quiet (Place.In .clear) text (Place.In .clear)) :
    Quiet (Place.In .clear) (sep.intercalate texts) (Place.In .clear) := by
  induction texts with
  | nil => exact quiet_empty
  | cons text texts ih =>
    rw [forall_mem_cons] at each
    cases texts with
    | nil => simpa using each.1
    | cons next texts =>
      rw [String.intercalate_cons_cons]
      exact (each.1.then gap).then (ih each.2)

/-- Constraints are checked without a call. -/
theorem quiet_arm {checked : List Constraint}
    (fine : ∀ c ∈ checked, Mild c.text ∧ AreWords c.fields) :
    Quiet (Place.In .clear) (String.join (arm current checked)) (Place.In .clear) := by
  unfold arm
  split
  · refine quiet_chunks ?_
    simp only [forall_mem_cons]
    exact ⟨quiet_text rfl, quiet_text rfl, quiet_text rfl, quiet_text rfl, quiet_text rfl, by simp⟩
  · have checks : Quiet (Place.In .clear) ("\n".intercalate (checked.map (checkCode current)))
        (Place.In .clear) := by
      refine quiet_intercalate (quiet_text rfl) fun text mem => ?_
      obtain ⟨c, own, rfl⟩ := mem_map.mp mem
      exact quiet_checkCode (fine c own).1 (fine c own).2
    refine quiet_chunks ?_
    simp only [forall_mem_cons]
    exact ⟨quiet_fill rfl checks rfl, quiet_text rfl, quiet_text rfl, quiet_text rfl, by simp⟩

/-- What goes around the parsing of a field makes no call. -/
theorem quiet_presenceCode {presence : Rendered} {open_ close : String}
    (mild : Mild presence.shown) (code : presenceCode presence = .ok (open_, close)) :
    Quiet (Place.In .clear) open_ (Place.In .clear) ∧
      Quiet (Place.In .clear) close (Place.In .clear) := by
  unfold presenceCode at code
  split at code
  · cases code
    exact ⟨quiet_empty, quiet_empty⟩
  · next p _ =>
    dsimp only at code
    split at code
    · cases code
    · cases code
      have condition : Mild (resolved ".0" p) := Mild.resolved mild (by simp)
      exact ⟨quiet_fill rfl condition.unwrapped.quiet rfl, quiet_text rfl⟩
  · cases code

/-- What is needed of a field so that its code is read. -/
structure FieldCode.Fine (f : FieldCode) : Prop where
  name : Mild f.name
  presence : Mild f.presence.shown
  parser : ∃ type, IsWord type ∧ f.parser = "parse_" ++ lowered type

theorem inputArguments_eq_listed (inputs : List (String × List String)) (parser : String) :
    inputArguments inputs parser = listed ".0 as usize" ((inputs.lookup parser).getD []) := by
  unfold inputArguments listed
  split <;> simp_all

/-- The line that parses a field. -/
theorem tells_fieldLine {f : FieldCode} {open_ : String} {fields : List String} (fine : f.Fine)
    (opened : Quiet (Place.In .clear) open_ (Place.In .clear)) (words : AreWords fields) :
    Tells (Place.In .clear) ("    let " ++ f.name ++ " = " ++ open_ ++ "match " ++ f.parser
        ++ "(input, context" ++ listed ".0 as usize" fields ++ ") \x7b\n")
      [.call f.parser fields.length] (Place.In .clear) := by
  obtain ⟨type, word, parser⟩ := fine.parser
  have start : Quiet (Place.In .clear) ("    let " ++ f.name ++ " = " ++ open_)
      (Place.In .clear) := (quiet_fill rfl fine.name.quiet rfl).then opened
  have lead : Quiet (Place.In .clear) "match " (Place.After "match") :=
    quiet_after (fun _ => rfl) rfl
  have call := lead.then (tells_fieldCall word words)
  rw [← parser] at call
  simpa only [String.append_assoc] using start.then call

/-- Every field is parsed by one call, with the values that are noted for its parser function. -/
theorem tells_fieldsCode {inputs : List (String × List String)} {before code : List String}
    {codes : List FieldCode} {constraints : List Constraint} (fine : ∀ f ∈ codes, f.Fine)
    (noted : ∀ p ∈ inputs, AreWords p.2)
    (checks : ∀ c ∈ constraints, Mild c.text ∧ AreWords c.fields)
    (done : fieldsCode inputs before codes constraints = .ok code) :
    Tells (Place.In .clear) (String.join code)
      (codes.map fun f => .call f.parser ((inputs.lookup f.parser).getD []).length)
      (Place.In .clear) := by
  induction codes generalizing before constraints code with
  | nil =>
    cases done
    exact quiet_empty
  | cons f codes ih =>
    rw [forall_mem_cons] at fine
    rw [fieldsCode] at done
    dsimp only at done
    obtain ⟨⟨open_, close⟩, presence, done⟩ := exceptBind_eq_ok.mp done
    obtain ⟨rest, later, done⟩ := exceptBind_eq_ok.mp done
    cases done
    rw [partition_eq_filter_filter] at later ⊢
    obtain ⟨opened, closed⟩ := quiet_presenceCode fine.1.presence presence
    have checked : ∀ p, Quiet (Place.In .clear) (String.join (arm f.name (constraints.filter p)))
        (Place.In .clear) :=
      fun p => quiet_arm fun c mem => checks c (mem_of_mem_filter mem)
    have words : AreWords ((inputs.lookup f.parser).getD []) := by
      cases found : inputs.lookup f.parser with
      | none => simp [AreWords]
      | some fields => exact noted _ (Store.mem_of_lookup found)
    rw [String.join_append, map_cons]
    refine Tells.cons ?_ (ih fine.2 (fun c mem => checks c (mem_of_mem_filter mem)) later)
    rw [inputArguments_eq_listed, append_assoc, singleton_append, String.join_cons,
      String.join_append]
    refine (tells_fieldLine fine.1 opened words).quiet ((checked _).then (quiet_chunks ?_))
    simp only [forall_mem_cons]
    exact ⟨quiet_text rfl, quiet_fill rfl closed rfl, by simp⟩

end Structs

/-! ## Arrays, enumerations and packets -/

section Loops

variable {name element : String}

theorem tells_lengthLoop {length : String} (word : IsWord name) (word' : IsWord element)
    (mild : Mild length) :
    Tells (Place.In .clear) (String.join (lengthLoop name element length))
      [.call ("parse_" ++ lowered element) 0] (Place.In .clear) := by
  have n := quiet_lowered (P := Place.In .clear) word
  unfold lengthLoop
  rw [snakeCase_of_isWord word, String.join_cons, String.join_cons]
  refine (quiet_fill rfl mild.quiet rfl).then ?_
  refine (tells_simpleCall word' (fun _ => rfl) rfl (by decide) rfl rfl).quiet (quiet_chunks ?_)
  simp only [forall_mem_cons]
  exact ⟨quiet_fill rfl n rfl, quiet_text rfl, quiet_text rfl, quiet_text rfl, quiet_fill rfl n rfl,
    by simp⟩

theorem tells_sizeLoop {size : String} (word : IsWord name) (word' : IsWord element)
    (mild : Mild size) :
    Tells (Place.In .clear) (String.join (sizeLoop name element size))
      [.call ("parse_" ++ lowered element) 0] (Place.In .clear) := by
  have n := quiet_lowered (P := Place.In .clear) word
  simp only [sizeLoop, String.join_cons, snakeCase_of_isWord word]
  refine tells_text_append rfl ((quiet_fill rfl mild.quiet rfl).then (tells_text_append rfl ?_))
  refine (tells_simpleCall word' (fun _ => rfl) rfl (by decide) rfl rfl).quiet ?_
  refine tells_text_append rfl (tells_text_append rfl (tells_text_append rfl ?_))
  refine tells_text_append rfl ((quiet_fill rfl n rfl).then (tells_text_append rfl ?_))
  refine tells_text_append rfl (tells_text_append rfl ((quiet_until .word rfl).then ?_))
  refine tells_text_append rfl (tells_text_append rfl (tells_text_append rfl ?_))
  refine tells_text_append rfl (tells_text_append rfl (tells_text_append rfl ?_))
  refine tells_text_append rfl ?_
  exact (quiet_fill rfl n rfl).then (tells_text_append rfl quiet_empty)

theorem quiet_variantLine (word : IsWord name) :
    Quiet (Place.In .clear) (variantLine name) (Place.In .clear) :=
  (quiet_fill rfl (quiet_camelCase word) rfl).fill (quiet_camelCase word) rfl

theorem quiet_variantLines {names : List String} (words : ∀ name ∈ names, IsWord name) :
    Quiet (Place.In .clear) ("\n".intercalate (names.map variantLine)) (Place.In .clear) := by
  refine quiet_intercalate (quiet_text rfl) fun text mem => ?_
  obtain ⟨name, own, rfl⟩ := mem_map.mp mem
  exact quiet_variantLine (words name own)

/-- A variant is tried by one call. -/
theorem tells_tryVariant {container : String} (word : IsWord container) (word' : IsWord name) :
    Tells (Place.In .clear) (String.join (tryVariant (camelCase container) name))
      [.call ("parse_" ++ lowered name) 0] (Place.In .clear) := by
  unfold tryVariant
  rw [String.join_cons]
  refine (tells_simpleCall word' (fun _ => rfl) rfl (by decide) rfl rfl).quiet (quiet_chunks ?_)
  simp only [forall_mem_cons]
  exact ⟨(quiet_fill rfl (quiet_camelCase word) rfl).fill (quiet_camelCase word') rfl,
    quiet_text rfl, by simp⟩

/-- So is a packet. -/
theorem tells_tryPacket (word : IsWord name) :
    Tells (Place.In .clear) (String.join (tryPacket name))
      [.call ("parse_" ++ lowered name) 0] (Place.In .clear) := by
  unfold tryPacket
  rw [String.join_cons]
  refine (tells_simpleCall word (fun _ => rfl) rfl (by decide) rfl rfl).quiet (quiet_chunks ?_)
  simp only [forall_mem_cons]
  exact ⟨quiet_fill rfl (quiet_camelCase word) rfl, quiet_text rfl, by simp⟩

end Loops

end PacketDraft.Render.Rust
