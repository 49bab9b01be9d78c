import PacketDraft.Proofs.Render.Source

/-!
# Where constraints are checked

A structure parses its fields in their order. Each constraint is checked in the arm of one field, the
last of those that it refers to, and the checks of an arm keep the order of the constraints.
-/

namespace PacketDraft.Render.Rust

open Protocol Text Attempt List

variable {codes : List FieldCode} {inputs : List (String × List String)}
  {constraints : List Constraint}

/-! ## Where a constraint falls due -/

/-- A constraint that refers to `fields` falls due at a place among the names of a structure: at the
last of the fields, or at the first place if there are none. A field that is not of the structure
leaves no place for it. -/
def FallsDue (names fields : List String) (place : Nat) : Prop :=
  (∀ f ∈ fields, f ∈ names ∧ names.idxOf f ≤ place) ∧
    (fields = [] ∧ place = 0 ∨ ∃ f ∈ fields, names.idxOf f = place)

instance (names fields : List String) (place : Nat) : Decidable (FallsDue names fields place) :=
  inferInstanceAs (Decidable (_ ∧ _))

section Places

variable {names fields : List String} {i j : Nat}

theorem FallsDue.known (due : FallsDue names fields i) : ∀ f ∈ fields, f ∈ names :=
  fun f mem => (due.1 f mem).1

theorem FallsDue.le (due : FallsDue names fields i) (due' : FallsDue names fields j) : i ≤ j := by
  rcases due.2 with ⟨-, rfl⟩ | ⟨f, mem, rfl⟩
  · exact Nat.zero_le j
  · exact (due'.1 f mem).2

theorem FallsDue.lt_length (due : FallsDue names fields i) (some : names ≠ []) :
    i < names.length := by
  rcases due.2 with ⟨-, rfl⟩ | ⟨f, mem, rfl⟩
  · exact length_pos_iff.mpr some
  · exact idxOf_lt_length_iff.mpr (due.known f mem)

theorem exists_fallsDue (known : ∀ f ∈ fields, f ∈ names) : ∃ i, FallsDue names fields i := by
  induction fields with
  | nil => exact ⟨0, by simp, .inl ⟨rfl, rfl⟩⟩
  | cons f fields ih =>
    rw [forall_mem_cons] at known
    obtain ⟨i, below, attained⟩ := ih known.2
    rcases Nat.le_total i (names.idxOf f) with le | le
    · refine ⟨names.idxOf f, forall_mem_cons.mpr ⟨⟨known.1, Nat.le_refl _⟩, fun g mem => ?_⟩,
        .inr ⟨f, mem_cons_self, rfl⟩⟩
      exact ⟨(below g mem).1, Nat.le_trans (below g mem).2 le⟩
    · refine ⟨i, forall_mem_cons.mpr ⟨⟨known.1, le⟩, below⟩, .inr ?_⟩
      rcases attained with ⟨-, rfl⟩ | ⟨g, mem, own⟩
      · exact ⟨f, mem_cons_self, Nat.le_zero.mp le⟩
      · exact ⟨g, mem_cons_of_mem f mem, own⟩

/-- A constraint has one place, if the structure has all fields that it refers to. -/
theorem existsUnique_fallsDue (some : names ≠ []) (known : ∀ f ∈ fields, f ∈ names) :
    ∃! i, i < names.length ∧ FallsDue names fields i := by
  obtain ⟨i, due⟩ := exists_fallsDue known
  refine ⟨i, ⟨due.lt_length some, due⟩, fun j other => ?_⟩
  exact Nat.le_antisymm (other.2.le due) (due.le other.2)

end Places

/-! ## The arms of the fields -/

/-- The check of a constraint, with its text and its condition. -/
def checkOf (text condition : String) : String :=
  "            // check constraint: " ++ text ++ "\n            if !(" ++ condition
    ++ ") \x7b\n                return (IResult::Err(Err::Error((input, ErrorKind::NonEmpty))), c);\n            \x7d;"

/-- The check of a rendered constraint in the arm of a field. Names of fields are replaced by their
values one after the other. -/
def checkIn (current text : String) : String :=
  checkOf (resolved "" text) ((references text).foldl
    (fun text field => replaced field (if field = current then "o.0" else field ++ ".0") text)
    (resolved "" text))

/-- The arm that takes a parsed value over, behind checks. -/
def armOf (checks : List String) : List String :=
  if checks = [] then
    ["        (IResult::Ok((i, o)), c) => \x7b\n", "            input = i;\n",
      "            context = c;\n", "            o\n", "        \x7d\n"]
  else
    ["        (IResult::Ok((i, o)), c) => \x7b\n" ++ "\n".intercalate checks
        ++ "\n            input = i;\n",
      "            context = c;\n", "            o\n", "        \x7d,\n"]

/-- What goes around the parsing of a field. -/
def FieldCode.wrapping (f : FieldCode) : String × String :=
  match f.presence with
  | .text "True" => ("", "")
  | .text p => ("if " ++ unwrapped (resolved ".0" p) ++ " \x7b Some(", "\x7d) \x7d else \x7b None ")
  | _ => ("", "")

/-- The code for a field, with checks in its arm. -/
def FieldCode.code (inputs : List (String × List String)) (f : FieldCode) (checks : List String) :
    List String :=
  ["    let " ++ f.name ++ " = " ++ f.wrapping.1 ++ "match " ++ f.parser ++ "(input, context"
      ++ inputArguments inputs f.parser ++ ") \x7b\n"]
    ++ armOf checks
    ++ ["        (IResult::Err(e), c) => return (IResult::Err(e), c),\n",
        "    " ++ f.wrapping.2 ++ "\x7d;\n\n"]

/-- The code for fields behind others, with every constraint in the arm where it falls due. -/
def placedCode (inputs : List (String × List String)) (before : List String)
    (codes : List FieldCode) (constraints : List Constraint) : List String :=
  (codes.mapIdx fun i f => f.code inputs ((constraints.filter fun c =>
    FallsDue (before ++ codes.map (·.name)) c.fields (before.length + i)).map
      (checkCode f.name))).flatten

/-- The constraint that a rendered text is. -/
def Constraint.ofText (text : String) : Constraint :=
  ⟨resolved "" text, references text⟩

/-- What stands at the presence of a field is a text, and not an empty one. -/
def FieldCode.Present (f : FieldCode) : Prop :=
  ∃ p, p ≠ "" ∧ f.presence = .text p

section Arms

variable {f : FieldCode} {c : Constraint} {before names : List String} {i : Nat}

theorem pieces_ne_nil {text : String} (some : text ≠ "") : pieces text ≠ [] := by
  have some : text.toList ≠ [] := by simpa using some
  unfold pieces
  obtain ⟨c, cs, chars⟩ := exists_cons_of_ne_nil some
  rw [chars, length_cons, piecesWithin]
  split <;> simp

/-- Behind a reference there is more than nothing. -/
theorem resolved_ne_empty {suffix text : String} (some : text ≠ "") (some' : suffix ≠ "") :
    resolved suffix text ≠ "" := by
  have some' : suffix.toList ≠ [] := by simpa using some'
  obtain ⟨p, ps, own⟩ := exists_cons_of_ne_nil (pieces_ne_nil some)
  unfold resolved
  rw [own, flatMap_cons, Ne, String.ofList_eq_empty_iff, append_eq_nil_iff]
  rintro ⟨none, -⟩
  cases p with
  | char c => simp at none
  | ref name => simp [some'] at none

theorem FieldCode.Present.presenceCode_eq (present : f.Present) :
    presenceCode f.presence = .ok f.wrapping := by
  obtain ⟨p, some, own⟩ := present
  have some := resolved_ne_empty some (by decide : ".0" ≠ "")
  unfold FieldCode.wrapping presenceCode
  rw [own]
  split
  · rename_i same
    cases same
    rfl
  · rename_i same
    cases same
    simp [some]
  · rename_i other
    exact absurd rfl (other _)

theorem arm_eq (current : String) (checked : List Constraint) :
    arm current checked = armOf (checked.map (checkCode current)) := by
  simp only [arm, armOf, map_eq_nil_iff]

theorem mem_iff_idxOf_lt {field : String} {names' : List String}
    (known : field ∈ names ++ names') :
    field ∈ names ↔ (names ++ names').idxOf field < names.length := by
  rw [← mem_take_iff_idxOf_lt known, take_left]

/-- A constraint is checked as soon as its last field is there. -/
theorem all_known_iff (first : before = [] ∨ ∃ f ∈ c.fields, f ∉ before) (name : String) :
    c.fields.all (before ++ [name]).contains = true ↔
      FallsDue (before ++ name :: names) c.fields before.length := by
  have whole : before ++ name :: names = (before ++ [name]) ++ names := by simp
  rw [whole, all_eq_true]
  constructor
  · intro known
    have known : ∀ f ∈ c.fields, f ∈ before ++ [name] := by simpa using known
    have below : ∀ f ∈ c.fields, ((before ++ [name]) ++ names).idxOf f ≤ before.length := by
      intro f mem
      have there := (mem_iff_idxOf_lt (mem_append_left names (known f mem))).mp (known f mem)
      rw [length_append, length_singleton] at there
      exact Nat.le_of_lt_succ there
    refine ⟨fun f mem => ⟨mem_append_left names (known f mem), below f mem⟩, ?_⟩
    rcases first with rfl | ⟨f, mem, new⟩
    · cases own : c.fields with
      | nil => exact .inl ⟨rfl, rfl⟩
      | cons f fs =>
        have mem : f ∈ c.fields := by simp [own]
        exact .inr ⟨f, mem_cons_self, Nat.le_zero.mp (below f mem)⟩
    · refine .inr ⟨f, mem, Nat.le_antisymm (below f mem) ?_⟩
      rw [append_assoc, idxOf_append_of_notMem new]
      exact Nat.le_add_right _ _
  · intro due f mem
    obtain ⟨known, below⟩ := due.1 f mem
    rw [contains_iff_mem, mem_iff_idxOf_lt known, length_append, length_singleton]
    exact Nat.lt_succ_of_le below

/-- What falls due later refers to a field that is not there yet. -/
theorem FallsDue.exists_notMem (due : FallsDue (before ++ names) c.fields (before.length + i))
    (some : before ≠ []) : ∃ f ∈ c.fields, f ∉ before := by
  have some := length_pos_iff.mpr some
  rcases due.2 with ⟨-, zero⟩ | ⟨f, mem, place⟩
  · omega
  · refine ⟨f, mem, fun there => ?_⟩
    have early := (mem_iff_idxOf_lt (due.known f mem)).mp there
    omega

/-- What the arm of a field checks does not fall due in a later one. -/
theorem placedCode_cons (left : ∀ c ∈ constraints, before = [] ∨ ∃ f ∈ c.fields, f ∉ before) :
    placedCode inputs before (f :: codes) constraints
      = f.code inputs ((constraints.filter fun c =>
          c.fields.all (before ++ [f.name]).contains).map (checkCode f.name))
        ++ placedCode inputs (before ++ [f.name]) codes
          (constraints.filter fun c => !c.fields.all (before ++ [f.name]).contains) := by
  have due : (constraints.filter fun c => c.fields.all (before ++ [f.name]).contains)
      = constraints.filter fun c =>
        FallsDue (before ++ f.name :: codes.map (·.name)) c.fields before.length := by
    refine filter_congr fun c mem => ?_
    rw [Bool.eq_iff_iff, decide_eq_true_iff]
    exact all_known_iff (left c mem) f.name
  have later : ∀ i, ((constraints.filter fun c => !c.fields.all (before ++ [f.name]).contains).filter
      fun c => FallsDue ((before ++ [f.name]) ++ codes.map (·.name)) c.fields
        ((before ++ [f.name]).length + i))
      = constraints.filter fun c => FallsDue (before ++ f.name :: codes.map (·.name)) c.fields
        (before.length + (i + 1)) := by
    intro i
    have whole : before ++ f.name :: codes.map (·.name)
        = (before ++ [f.name]) ++ codes.map (·.name) := by simp
    have place : before.length + (i + 1) = (before ++ [f.name]).length + i := by simp; omega
    rw [filter_filter, whole]
    refine filter_congr fun c mem => ?_
    rw [Bool.eq_iff_iff, Bool.and_eq_true, decide_eq_true_iff, place, decide_eq_true_iff,
      and_iff_left_iff_imp]
    intro due
    simpa using due.exists_notMem (by simp)
  simp only [placedCode, mapIdx_cons, flatten_cons, later, due, map_cons,
    Nat.add_zero]

/-- Fields behind others are parsed in their order, and every constraint that is left is checked in
the arm where it falls due. -/
theorem fieldsCode_eq (present : ∀ f ∈ codes, f.Present)
    (left : ∀ c ∈ constraints, before = [] ∨ ∃ f ∈ c.fields, f ∉ before) :
    fieldsCode inputs before codes constraints = .ok (placedCode inputs before codes constraints) := by
  induction codes generalizing before constraints with
  | nil => rfl
  | cons f codes ih =>
    rw [forall_mem_cons] at present
    have later : ∀ c ∈ constraints.filter fun c => !c.fields.all (before ++ [f.name]).contains,
        before ++ [f.name] = [] ∨ ∃ g ∈ c.fields, g ∉ before ++ [f.name] := by
      intro c mem
      exact .inr (by simpa using (mem_filter.mp mem).2)
    rw [placedCode_cons left, fieldsCode]
    simp only [partition_eq_filter_filter, present.1.presenceCode_eq, Function.comp_def,
      ih present.2 later, arm_eq]
    rfl

end Arms

/-! ## The source of a structure -/

/-- The declaration of a field. -/
def declaration (s : Store) (f : Field) : String :=
  let type := typeNameOf s f.type
  "    pub " ++ f.name ++ ": "
    ++ (if isAlways f.presence then camelCase type else "Option<" ++ camelCase type ++ ">") ++ ",\n"

/-- A field of a structure as it is parsed. -/
def codeOf (s : Store) (f : Field) : Except Fault FieldCode := do
  let presence ← expr s f.presence
  return ⟨f.name, parserName s f.type, presence⟩

/-- The source of a structure around the code for its fields. -/
def structChunks (s : Store) (name : String) (fields : List Field) (code : List String) :
    List String :=
  ["\n// Structure and parser for " ++ name ++ "\n", "\n#[derive(Clone, Debug, PartialEq, Eq",
      ")]\n", "pub struct ", camelCase name, " \x7b\n"]
    ++ fields.map (declaration s)
    ++ ["\x7d\n", "\n#[inline]",
      "\npub fn parse_" ++ snakeCase name
        ++ "<'a>(mut input: (&'a [u8], usize), mut context: &'a mut Context) -> "
        ++ parserResult (camelCase name) ++ " \x7b\n"]
    ++ code
    ++ ["    (IResult::Ok((\n", "        input,\n", "        " ++ camelCase name ++ " \x7b\n"]
    ++ fields.map (fun f => "            " ++ f.name ++ ",\n")
    ++ ["        \x7d,\n", "    )),\n", "    context)\n", "\x7d\n"]

section Structures

variable {s : Store} {name : String} {fields : List Field} {a b : Sheet} {r : Unit}

theorem put_eq_ok {chunks : List String} :
    put chunks a = (.ok r, b) ↔ { a with chunks := a.chunks ++ chunks } = b :=
  update_eq_ok

theorem requireNew_eq_ok_iff : requireNew name a = (.ok r, b) ↔ name ∉ a.chunks ∧ a = b := by
  rw [requireNew, read_bind]
  split
  · next taken =>
    rw [contains_iff_mem] at taken
    simp [fail_ne_ok, taken]
  · next new =>
    rw [contains_iff_mem] at new
    rw [pure_eq_ok]
    simp [new]

theorem codeOf_eq_ok {f : Field} {c : FieldCode} : codeOf s f = .ok c ↔
    expr s f.presence = .ok c.presence ∧ c.name = f.name ∧ c.parser = parserName s f.type := by
  rw [codeOf, exceptBind_eq_ok]
  constructor
  · rintro ⟨presence, shown, own⟩
    cases own
    exact ⟨shown, rfl, rfl⟩
  · rintro ⟨shown, name, parser⟩
    cases c
    cases name
    cases parser
    exact ⟨_, shown, rfl⟩

theorem codes_name (known : fields.mapM (codeOf s) = .ok codes) :
    codes.map (·.name) = fields.map (·.name) := by
  rw [← forall₂_eq_eq_eq, forall₂_map_left_iff, forall₂_map_right_iff]
  exact ((mapM_eq_ok_iff.mp known).flip).imp fun _ _ own => (codeOf_eq_ok.mp own).2.1

theorem declareFields_eq_ok :
    declareFields s fields a = (.ok codes, b) ↔ fields.mapM (codeOf s) = .ok codes ∧
      { a with chunks := a.chunks ++ fields.map (declaration s) } = b := by
  induction fields generalizing a codes with
  | nil =>
    rw [declareFields, pure_eq_ok]
    simp [Pure.pure, Except.pure]
  | cons f fields ih =>
    rw [mapM_cons, exceptBind_eq_ok]
    constructor
    · intro done
      obtain ⟨_, _, declared, done⟩ := bind_eq_ok.mp done
      cases put_eq_ok.mp declared
      obtain ⟨presence, _, asked, done⟩ := bind_eq_ok.mp done
      obtain ⟨shown, rfl⟩ := ofExcept_eq_ok.mp asked
      obtain ⟨rest, _, later, done⟩ := bind_eq_ok.mp done
      obtain ⟨rfl, rfl⟩ := pure_eq_ok.mp done
      obtain ⟨known, rfl⟩ := ih.mp later
      refine ⟨⟨⟨f.name, parserName s f.type, presence⟩, codeOf_eq_ok.mpr ⟨shown, rfl, rfl⟩, ?_⟩, ?_⟩
      · rw [known]
        rfl
      · rw [append_assoc]
        rfl
    · rintro ⟨⟨code, own, mapped⟩, rfl⟩
      obtain ⟨rest, known, same⟩ := exceptBind_eq_ok.mp mapped
      cases same
      obtain ⟨presence, shown, same⟩ := exceptBind_eq_ok.mp own
      cases same
      refine bind_eq_ok.mpr ⟨(), _, put_eq_ok.mpr rfl, bind_eq_ok.mpr ⟨presence, _,
        ofExcept_eq_ok.mpr ⟨shown, rfl⟩, bind_eq_ok.mpr ⟨rest, _, ih.mpr ⟨known, ?_⟩,
          pure_eq_ok.mpr ⟨rfl, rfl⟩⟩⟩⟩
      rw [append_assoc]
      rfl

/-- When a structure is written, and what its source is. -/
theorem writeStruct_eq_ok {rendered : List Rendered} :
    writeStruct s name fields rendered a = (.ok r, b) ↔ name ∉ a.chunks ∧
      ∃ constraints codes code, rendered.mapM Constraint.ofRendered = .ok constraints ∧
        fields.mapM (codeOf s) = .ok codes ∧ codes ≠ [] ∧
        fieldsCode a.inputs [] codes constraints = .ok code ∧
        b = ⟨a.chunks ++ structChunks s name fields code, []⟩ := by
  have names : ∀ {codes}, fields.mapM (codeOf s) = .ok codes →
      (codes.map fun f => "            " ++ f.name ++ ",\n")
        = fields.map fun f => "            " ++ f.name ++ ",\n" := by
    intro codes declared
    simpa [Function.comp_def] using
      congrArg (List.map fun name => "            " ++ name ++ ",\n") (codes_name declared)
  constructor
  · intro done
    obtain ⟨_, _, looked, done⟩ := bind_eq_ok.mp done
    obtain ⟨new, rfl⟩ := requireNew_eq_ok_iff.mp looked
    obtain ⟨constraints, _, asked, done⟩ := bind_eq_ok.mp done
    obtain ⟨collected, rfl⟩ := ofExcept_eq_ok.mp asked
    obtain ⟨_, _, opening, done⟩ := bind_eq_ok.mp done
    cases put_eq_ok.mp opening
    obtain ⟨codes, _, wrote, done⟩ := bind_eq_ok.mp done
    obtain ⟨declared, rfl⟩ := declareFields_eq_ok.mp wrote
    obtain ⟨_, _, head, done⟩ := bind_eq_ok.mp done
    cases put_eq_ok.mp head
    split at done
    · cases done
    · next some =>
      obtain ⟨inputs, _, known, done⟩ := bind_eq_ok.mp done
      obtain ⟨rfl, rfl⟩ := read_eq_ok.mp known
      obtain ⟨code, _, asked, done⟩ := bind_eq_ok.mp done
      obtain ⟨calls, rfl⟩ := ofExcept_eq_ok.mp asked
      refine ⟨new, constraints, codes, code, collected, declared, some, calls, ?_⟩
      cases done
      rw [names declared]
      simp only [structChunks, append_assoc]
  · rintro ⟨new, constraints, codes, code, collected, declared, some, calls, rfl⟩
    refine bind_eq_ok.mpr ⟨(), _, requireNew_eq_ok_iff.mpr ⟨new, rfl⟩, bind_eq_ok.mpr ⟨constraints, _,
      ofExcept_eq_ok.mpr ⟨collected, rfl⟩, bind_eq_ok.mpr ⟨(), _, put_eq_ok.mpr rfl, bind_eq_ok.mpr
        ⟨codes, _, declareFields_eq_ok.mpr ⟨declared, rfl⟩, bind_eq_ok.mpr ⟨(), _, put_eq_ok.mpr rfl,
          ?_⟩⟩⟩⟩⟩
    rw [if_neg some]
    refine bind_eq_ok.mpr ⟨_, _, read_eq_ok.mpr ⟨rfl, rfl⟩, bind_eq_ok.mpr ⟨code, _,
      ofExcept_eq_ok.mpr ⟨calls, rfl⟩, bind_eq_ok.mpr ⟨(), _, put_eq_ok.mpr rfl, bind_eq_ok.mpr
        ⟨(), _, put_eq_ok.mpr rfl, bind_eq_ok.mpr ⟨(), _, put_eq_ok.mpr rfl, bind_eq_ok.mpr ⟨(), _,
          put_eq_ok.mpr rfl, update_eq_ok.mpr ?_⟩⟩⟩⟩⟩⟩
    rw [names declared]
    simp only [structChunks, append_assoc]

theorem mapM_ofRendered_texts (texts : List String) :
    (texts.map Rendered.text).mapM Constraint.ofRendered = .ok (texts.map .ofText) := by
  rw [mapM_eq_ok_iff, forall₂_map_left_iff, forall₂_map_right_iff, forall₂_same]
  exact fun _ _ => rfl

/-- In the source of a structure every constraint is checked in the arm of the last field that it
refers to, and in the first arm if it refers to none. The checks of an arm keep the order of the
constraints. Each constraint is checked once if the structure has all fields that it refers to, and
else not at all. -/
theorem checks_where_due (inputs : List (String × List String)) (codes : List FieldCode)
    (texts : List String) (some : codes ≠ []) (present : ∀ f ∈ codes, f.Present) :
    let code := (codes.mapIdx fun i f => f.code inputs ((texts.filter fun text =>
      FallsDue (codes.map (·.name)) (references text) i).map (checkIn f.name))).flatten
    fieldsCode inputs [] codes (texts.map .ofText) = .ok code ∧
      (∀ s name fields chunks, fields.mapM (codeOf s) = .ok codes → name ∉ chunks →
        writeStruct s name fields (texts.map .text) ⟨chunks, inputs⟩
          = (.ok (), ⟨chunks ++ structChunks s name fields code, []⟩)) ∧
      ∀ text, ((∀ f ∈ references text, f ∈ codes.map (·.name)) →
          ∃! i, i < codes.length ∧ FallsDue (codes.map (·.name)) (references text) i) ∧
        ((∃ f ∈ references text, f ∉ codes.map (·.name)) →
          ∀ i, ¬ FallsDue (codes.map (·.name)) (references text) i) := by
  intro code
  have placed : fieldsCode inputs [] codes (texts.map .ofText) = .ok code := by
    rw [fieldsCode_eq present fun c _ => .inl rfl]
    simp only [placedCode, nil_append, length_nil, Nat.zero_add, filter_map, map_map]
    rfl
  refine ⟨placed, ?_, ?_⟩
  · intro s name fields chunks declared new
    exact writeStruct_eq_ok.mpr ⟨new, _, codes, _, mapM_ofRendered_texts texts, declared, some,
      placed, rfl⟩
  · refine fun text => ⟨fun known => ?_, ?_⟩
    · simpa only [length_map] using existsUnique_fallsDue (by simpa using some) known
    · rintro ⟨f, mem, missing⟩ i due
      exact missing (due.known f mem)

/-- A head whose length is there for one type only. -/
def headerCodes : List FieldCode :=
  [⟨"type", "parse_type", .text "True"⟩, ⟨"length", "parse_length", .text "(self(type) == 1)"⟩]

theorem checks_where_due_header :
    fieldsCode [] [] headerCodes (["(self(length) >= self(type))", "(self(sum) == 0)", "(2 > 1)",
        "(self(length) > 4)"].map .ofText) = .ok
      ["    let type = match parse_type(input, context) \x7b\n",
        "        (IResult::Ok((i, o)), c) => \x7b\n            // check constraint: (2 > 1)\n"
          ++ "            if !((2 > 1)) \x7b\n"
          ++ "                return (IResult::Err(Err::Error((input, ErrorKind::NonEmpty))), c);\n"
          ++ "            \x7d;\n            input = i;\n",
        "            context = c;\n", "            o\n", "        \x7d,\n",
        "        (IResult::Err(e), c) => return (IResult::Err(e), c),\n", "    \x7d;\n\n",
        "    let length = if type.0 == 1 \x7b Some(match parse_length(input, context) \x7b\n",
        "        (IResult::Ok((i, o)), c) => \x7b\n"
          ++ checkOf "(length >= type)" "(o.0 >= type.0)" ++ "\n"
          ++ checkOf "(length > 4)" "(o.0 > 4)" ++ "\n            input = i;\n",
        "            context = c;\n", "            o\n", "        \x7d,\n",
        "        (IResult::Err(e), c) => return (IResult::Err(e), c),\n",
        "    \x7d) \x7d else \x7b None \x7d;\n\n"] := by
  have due := (checks_where_due [] headerCodes ["(self(length) >= self(type))",
    "(self(sum) == 0)", "(2 > 1)", "(self(length) > 4)"] (by decide)
    (by
      simp only [headerCodes, forall_mem_cons]
      exact ⟨⟨_, by decide, rfl⟩, ⟨_, by decide, rfl⟩, by simp⟩)).1
  rw [due]
  decide +kernel

end Structures

end PacketDraft.Render.Rust
