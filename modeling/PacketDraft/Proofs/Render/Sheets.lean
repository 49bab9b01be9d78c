import PacketDraft.Proofs.Render.Placement

/-!
# What writing takes and leaves

For everything that is written on a sheet, when it succeeds and which names it leaves there as chunks
of their own. A plain expression becomes a number or a text; which of both it is, and whether anything
is left of the text, can be told from its outermost part.
-/

namespace PacketDraft.Render.Rust

open Protocol Text Attempt List

/-! ## What expressions come to -/

/-- Whether an expression is a number by itself. -/
def isCount (s : Store) : Expr → Bool
  | .const t _ => s.same t .number
  | _ => false

/-- Whether there is no text for the outermost method of an expression. -/
def isMute : Expr → Bool
  | .method _ name _ => (binaryOperator? name).isNone && name ≠ "pow" && name ≠ "to_number"
  | _ => false

/-- Whether nothing is left of an expression once its references are resolved: there is no text for
it, or it is the value of a field whose name does not show. -/
def isBlank : Expr → Bool
  | .method (.field .self name) "to_number" _ => resolved "" ("self(" ++ name ++ ")") = ""
  | x => isMute x

section Expressions

variable {N : String → Prop} {s : Store} {x : Expr}

/-- A text that starts with no reference does not vanish. -/
theorem resolved_ne_of_head {suffix text : String} {c : Char} (starts : text.toList.head? = some c)
    (other : c ≠ 's') : resolved suffix text ≠ "" := by
  obtain ⟨cs, letters⟩ := List.head?_eq_some_iff.mp starts
  have none : reference? (c :: cs) = none := by
    cases found : reference? (c :: cs) with
    | none => rfl
    | some p =>
      obtain ⟨shape, -⟩ := reference?_eq_some found
      exact absurd (List.cons.inj shape).1 other
  unfold resolved pieces
  rw [letters, length_cons, piecesWithin, none]
  simp

/-- What an expression becomes: a number if it is one by itself, and else a text, which is empty if
there is none for its method. -/
def Becomes (s : Store) (x : Expr) (r : Rendered) : Prop :=
  (∃ n, r = .number n ∧ isCount s x = true) ∨ ∃ text, r = .text text ∧ isCount s x = false ∧
    (text = "" ↔ isMute x = true) ∧ (resolved "" text = "" ↔ isBlank x = true)

theorem becomes_text {text : String} {c : Char} (other : isCount s x = false)
    (loud : isMute x = false) (shows : isBlank x = false) (starts : text.toList.head? = some c)
    (apart : c ≠ 's') : Becomes s x (.text text) := by
  refine .inr ⟨text, rfl, other, ?_, ?_⟩
  · rw [loud]
    refine iff_of_false ?_ (by simp)
    rintro rfl
    cases starts
  · rw [shows]
    exact iff_of_false (resolved_ne_of_head starts apart) (by simp)

theorem becomes_empty (other : isCount s x = false) (mute : isMute x = true)
    (blank : isBlank x = true) : Becomes s x (.text "") :=
  .inr ⟨"", rfl, other, by simp [mute], by simp [blank, resolved, pieces, piecesWithin]⟩

theorem isBlank_of_ne {target : Expr} {method : String} {args : List (String × Expr)}
    (other : method ≠ "to_number") :
    isBlank (.method target method args) = isMute (.method target method args) := by
  unfold isBlank
  split
  · next same =>
    cases same
    exact absurd rfl other
  · rfl

/-- The outcome of an operation with an argument. -/
theorem operation_becomes (target argument : Rendered) {method : String}
    (operates : method ≠ "to_number") (y z : Expr) (parameter : String) :
    ∃ r, operation target method [argument] = .ok r ∧
      Becomes s (.method y method [(parameter, z)]) r := by
  have blank : isBlank (.method y method [(parameter, z)])
      = isMute (.method y method [(parameter, z)]) := isBlank_of_ne operates
  cases operator : binaryOperator? method with
  | some op =>
    have loud : isMute (.method y method [(parameter, z)]) = false := by simp [isMute, operator]
    refine ⟨.text ("(" ++ target.shown ++ op ++ argument.shown ++ ")"), ?_, ?_⟩
    · simp only [operation, operator, firstArgument]
      rfl
    · refine becomes_text rfl loud (blank.trans loud) (c := '(') ?_ (by decide)
      simp
  | none =>
    by_cases pow : method = "pow"
    · have loud : isMute (.method y method [(parameter, z)]) = false := by simp [isMute, pow]
      refine ⟨.text ("(" ++ target.shown ++ ".pow(" ++ argument.shown ++ "))"), ?_, ?_⟩
      · simp only [operation, firstArgument, pow, if_true]
        rfl
      · refine becomes_text rfl loud (blank.trans loud) (c := '(') ?_ (by decide)
        simp
    · have mute : isMute (.method y method [(parameter, z)]) = true := by
        simp [isMute, operator, pow, operates]
      refine ⟨.text "", ?_, becomes_empty rfl mute (blank.trans mute)⟩
      simp only [operation, operator, if_neg pow, if_neg operates]

theorem toString_head (n : Int) : ∃ c, (toString n).toList.head? = some c ∧ c ≠ 's' := by
  cases n with
  | ofNat n =>
    have letters : (toString (Int.ofNat n)).toList = Nat.toDigits 10 n := Nat.toList_repr
    obtain ⟨c, cs, digits⟩ := exists_cons_of_ne_nil (Nat.toDigits_ne_nil (n := n) (b := 10))
    have mem : c ∈ Nat.toDigits 10 n := by simp [digits]
    have digit := Nat.isDigit_of_mem_toDigits (by decide) (by decide) mem
    refine ⟨c, by rw [letters, digits]; rfl, ?_⟩
    rintro rfl
    exact absurd digit (by decide)
  | negSucc n =>
    refine ⟨'-', ?_, by decide⟩
    show ("-" ++ (n + 1).repr).toList.head? = _
    simp

/-- Every plain expression becomes something. -/
theorem expr_becomes (plain : Plain N x) : ∃ r, expr s x = .ok r ∧ Becomes s x r := by
  induction plain with
  | @const v type counts =>
    rw [expr]
    split
    · next number =>
      have whole : ∃ n, wholeNumber v = .ok n := by
        cases v with
        | int n => exact ⟨_, rfl⟩
        | flag b => exact ⟨_, rfl⟩
        | _ => cases counts
      obtain ⟨n, whole⟩ := whole
      exact ⟨.number n, by rw [whole]; rfl, .inl ⟨n, rfl, number⟩⟩
    · next other =>
      have starts : ∃ c, v.asText.toList.head? = some c ∧ c ≠ 's' := by
        cases v with
        | int n => exact toString_head n
        | flag b => cases b <;> exact ⟨_, rfl, by decide⟩
        | _ => cases counts
      obtain ⟨c, starts, apart⟩ := starts
      exact ⟨_, rfl, becomes_text (Bool.eq_false_iff.mpr other) rfl rfl starts apart⟩
  | @ctx name context named =>
    rw [expr]
    exact ⟨_, rfl, becomes_text rfl rfl rfl (c := 'c') (by simp) (by decide)⟩
  | @value target access =>
    rcases expr_access (s := s) access with ⟨name, -, rfl, own⟩ | ⟨name, innerName, rfl, own⟩
    · refine ⟨.text ("self(" ++ name ++ ")"), ?_, .inr ⟨_, rfl, rfl, ?_, ?_⟩⟩
      · rw [expr, own]
        rfl
      · refine iff_of_false ?_ (by simp [isMute])
        intro none
        simpa using congrArg String.toList none
      · simp [isBlank]
    · refine ⟨.text "None", ?_, becomes_text rfl rfl rfl (c := 'N') (by simp) (by decide)⟩
      rw [expr, own]
      rfl
  | @extent target access =>
    have mute : isMute (.method target "size" []) = true := rfl
    obtain ⟨t, own⟩ : ∃ t, expr s target = .ok t := by
      rcases expr_access (s := s) access with ⟨name, -, -, own⟩ | ⟨name, innerName, -, own⟩
      · exact ⟨_, own⟩
      · exact ⟨_, own⟩
    refine ⟨.text "", ?_, becomes_empty rfl mute ((isBlank_of_ne (by decide)).trans mute)⟩
    rw [expr, own]
    rfl
  | @binary target other method parameter operates _ _ ih ih' =>
    obtain ⟨t, known, -⟩ := ih
    obtain ⟨a, known', -⟩ := ih'
    rw [expr, arguments, arguments, known, known']
    exact operation_becomes t a operates target other parameter

theorem all_not_iff {p : Expr → Bool} (o : Option Expr) :
    o.all (!p ·) = true ↔ ∀ x ∈ o, p x = false := by
  cases o <;> simp

/-- The size of a bit string shows unless it is blank. -/
theorem size_becomes {o : Option Expr} (plain : ∀ x ∈ o, Plain N x) : ∃ r, size s o = .ok r ∧
    ((∀ text, r = .text text → resolved "" text ≠ "") ↔ o.all (!isBlank ·) = true) := by
  cases o with
  | none => exact ⟨.absent, rfl, by simp⟩
  | some x =>
    obtain ⟨r, known, becomes⟩ := expr_becomes (s := s) (plain x rfl)
    refine ⟨r, known, ?_⟩
    rcases becomes with ⟨n, rfl, count⟩ | ⟨text, rfl, -, -, blank⟩
    · cases x with
      | const t v => simp [isBlank, isMute]
      | _ => cases count
    · simp [blank]

/-- Conditions that are no numbers become texts. -/
theorem mapM_expr_texts {xs : List Expr} (plain : ∀ x ∈ xs, Plain N x)
    (other : ∀ x ∈ xs, isCount s x = false) :
    ∃ rs, xs.mapM (expr s) = .ok rs ∧ ∀ r ∈ rs, ∃ text, r = .text text := by
  obtain ⟨rs, known⟩ := exists_mapM fun x mem =>
    (expr_becomes (s := s) (plain x mem)).imp fun _ => And.left
  refine ⟨rs, known, fun r mem => ?_⟩
  obtain ⟨x, listed, own⟩ := exists_of_mem_mapM known mem
  obtain ⟨r', shown, becomes⟩ := expr_becomes (s := s) (plain x listed)
  cases shown.symm.trans own
  rcases becomes with ⟨n, -, count⟩ | ⟨text, same, -⟩
  · rw [other x listed] at count
    cases count
  · exact ⟨text, same⟩

end Expressions

/-! ## Names on a sheet -/

/-- Whether a chunk of a source is just a name. -/
def isName (chunk : String) : Bool :=
  chunk ≠ "" && chunk.toList.all isNameChar

/-- Whether a text has a character that no name has. -/
def isMarked (text : String) : Bool :=
  text.toList.any (!isNameChar ·)

/-- The names among the chunks of a sheet. -/
def Sheet.names (a : Sheet) : List String :=
  a.chunks.filter isName

section Names

variable {name text : String} {chunks : List String} {a : Sheet}

theorem isMarked_append (more : String) (marked : isMarked text = true) :
    isMarked (text ++ more) = true := by
  rw [isMarked, String.toList_append, any_append]
  exact Bool.or_eq_true_iff.mpr (.inl marked)

theorem isName_of_isMarked (marked : isMarked text = true) : isName text = false := by
  obtain ⟨c, mem, other⟩ := any_eq_true.mp marked
  refine Bool.eq_false_iff.mpr fun named => ?_
  have all := (Bool.and_eq_true_iff.mp named).2
  rw [all_eq_true.mp all c mem] at other
  cases other

@[simp]
theorem isName_append (more : String) (marked : isMarked text = true) :
    isName (text ++ more) = false :=
  isName_of_isMarked (isMarked_append more marked)

theorem isName_intercalate (sep : String) {texts : List String}
    (marked : ∀ x ∈ texts, isMarked x = true) : isName (sep.intercalate texts) = false := by
  cases texts with
  | nil => rfl
  | cons x xs =>
    have first := marked x mem_cons_self
    cases xs with
    | nil => exact isName_of_isMarked (by rwa [String.intercalate_singleton])
    | cons y ys =>
      rw [String.intercalate_cons_cons, String.append_assoc]
      exact isName_append _ first

theorem filter_isName (nameless : ∀ c ∈ chunks, isName c = false) : chunks.filter isName = [] := by
  rw [filter_eq_nil_iff]
  intro c mem
  simp [nameless c mem]

/-- A name is left of what stands around it. -/
theorem filter_isName_around (word : String) {before behind : List String}
    (first : ∀ c ∈ before, isName c = false) (last : ∀ c ∈ behind, isName c = false) :
    (before ++ word :: behind).filter isName = [word].filter isName := by
  rw [filter_append, filter_isName first, nil_append, ← singleton_append,
    filter_append, filter_isName last, append_nil]

theorem Capitalised.isName (capitalised : Capitalised name) : isName name = true := by
  have word := capitalised.isWord
  obtain ⟨first, rest, letters, -⟩ := capitalised
  refine Bool.and_eq_true_iff.mpr ⟨?_, all_eq_true.mpr word⟩
  simp only [ne_eq, decide_not, Bool.not_eq_eq_eq_not, Bool.not_true, decide_eq_false_iff_not]
  rintro rfl
  cases letters

theorem mem_names (named : isName name = true) : name ∈ a.names ↔ name ∈ a.chunks := by
  simp [Sheet.names, named]

end Names

/-! ## Runs of writing -/

/-- Writing on a sheet succeeds exactly if a condition holds, and then these names are new on it. -/
structure Runs {α : Type} (x : Writing α) (a : Sheet) (fits : Prop) (stamps : List String) :
    Prop where
  returns : (∃ r b, x a = (.ok r, b)) ↔ fits
  names : ∀ r b, x a = (.ok r, b) → b.names = a.names ++ stamps

section Runs

variable {α β : Type} {x : Writing α} {f : α → Writing β} {a b : Sheet} {p q : Prop}
  {ms ns : List String}

theorem Runs.bind (first : Runs x a p ms)
    (second : ∀ r b, x a = (.ok r, b) → Runs (f r) b q ns) : Runs (x >>= f) a (p ∧ q) (ms ++ ns) where
  returns := by
    constructor
    · rintro ⟨r, c, done⟩
      obtain ⟨m, b, begun, rest⟩ := bind_eq_ok.mp done
      exact ⟨first.returns.mp ⟨m, b, begun⟩, (second m b begun).returns.mp ⟨r, c, rest⟩⟩
    · rintro ⟨fits, later⟩
      obtain ⟨m, b, begun⟩ := first.returns.mpr fits
      obtain ⟨r, c, rest⟩ := (second m b begun).returns.mpr later
      exact ⟨r, c, bind_eq_ok.mpr ⟨m, b, begun, rest⟩⟩
  names r c done := by
    obtain ⟨m, b, begun, rest⟩ := bind_eq_ok.mp done
    rw [(second m b begun).names r c rest, first.names m b begun, append_assoc]

theorem Runs.imp (runs : Runs x a p ms) (same : p ↔ q) (alike : ms = ns) : Runs x a q ns :=
  ⟨runs.returns.trans same, alike ▸ runs.names⟩

theorem runs_put (chunks : List String) : Runs (put chunks) a True (chunks.filter isName) where
  returns := iff_of_true ⟨(), _, put_eq_ok.mpr rfl⟩ trivial
  names r b done := by
    rw [← put_eq_ok.mp done]
    exact filter_append ..

theorem runs_put_nameless {chunks : List String} (nameless : ∀ c ∈ chunks, isName c = false) :
    Runs (put chunks) a True [] :=
  (runs_put chunks).imp .rfl (filter_isName nameless)

theorem runs_requireNew (name : String) : Runs (requireNew name) a (name ∉ a.chunks) [] where
  returns := by
    constructor
    · rintro ⟨r, b, done⟩
      exact (requireNew_eq_ok_iff.mp done).1
    · exact fun new => ⟨(), a, requireNew_eq_ok_iff.mpr ⟨new, rfl⟩⟩
  names r b done := by
    obtain ⟨-, rfl⟩ := requireNew_eq_ok_iff.mp done
    exact (append_nil _).symm

/-- What is noted for a parser function does not matter. -/
theorem Runs.noted {g : Unit → Writing β} {function : String} {fields : List String}
    (runs : Runs (g ()) { a with inputs := (function, fields) :: a.inputs } p ms) :
    Runs (noteInputs function fields >>= g) a p ms :=
  ⟨runs.returns, runs.names⟩

theorem runs_pure (r : α) : Runs (pure r) a True [] where
  returns := iff_of_true ⟨r, a, rfl⟩ trivial
  names r b done := by
    obtain ⟨-, rfl⟩ := pure_eq_ok.mp done
    exact (append_nil _).symm

theorem Runs.answer {x : Except Fault α} {r : α} (known : x = .ok r) (runs : Runs (f r) a p ms) :
    Runs (ofExcept x >>= f) a p ms := by
  subst known
  exact ⟨runs.returns, runs.names⟩

/-- Without an answer, writing does not go on. -/
theorem runs_unanswered {x : Except Fault α} (unknown : ∀ r, x ≠ .ok r) :
    Runs (ofExcept x >>= f) a False ms := by
  refine ⟨iff_of_false ?_ id, fun r b done => ?_⟩
  · rintro ⟨r, b, done⟩
    obtain ⟨m, _, asked, -⟩ := bind_eq_ok.mp done
    exact unknown m (ofExcept_eq_ok.mp asked).1
  · obtain ⟨m, _, asked, -⟩ := bind_eq_ok.mp done
    exact absurd (ofExcept_eq_ok.mp asked).1 (unknown m)

/-- Writing goes on unless something stands against it. -/
theorem Runs.unless {c : Prop} [Decidable c] {fault : Fault} {g : α → Writing β} {y : Writing β}
    (runs : Runs y a p ms) : Runs (if c then Attempt.fail fault >>= g else y) a (¬ c ∧ p) ms := by
  split
  · next holds =>
    refine ⟨iff_of_false ?_ fun both => both.1 holds, fun r b done => ?_⟩
    · rintro ⟨r, b, done⟩
      cases done
    · cases done
  · next fails => exact runs.imp (by simp [fails]) rfl

end Runs

/-! ## Types -/

section Types

variable {N : String → Prop} {s : Store} {name : String} {a : Sheet}

theorem isName_bitStringHeader (fields : List String) :
    isName (bitStringHeader name fields) = false := by
  unfold bitStringHeader
  rw [parameters_eq_listed]
  simp only [String.append_assoc]
  exact isName_append _ (by decide)

theorem names_bitStringOpening (type : String) (fields : List String) :
    (bitStringOpening name type fields).filter isName = [camelCase name].filter isName := by
  have before : ∀ c ∈ ["\n// Structure and parser for " ++ name ++ " (bitstring type)\n",
      deriveLine ++ "\n", "pub struct "], isName c = false := by
    simp +decide [String.append_assoc]
  have behind : ∀ c ∈ ["(pub " ++ type ++ ");\n", "\n#[inline]", bitStringHeader name fields],
      isName c = false := by
    simp +decide [isName_bitStringHeader, String.append_assoc]
  exact filter_isName_around (camelCase name) before behind

theorem runs_writeInteger (size : Option Int) :
    Runs (writeInteger name size) a (name ∉ a.chunks) ([camelCase name].filter isName) := by
  refine ((runs_requireNew name).bind fun _ _ _ => (runs_put _).bind fun _ _ _ =>
    runs_put_nameless ?_).imp (by simp) ?_
  · simp +decide [String.append_assoc]
  · simp [names_bitStringOpening]

theorem runs_writeBytes (size : String) : Runs (writeBytes name size) a
    (name ∉ a.chunks ∧ resolved "" size ≠ "") ([camelCase name].filter isName) := by
  unfold writeBytes
  dsimp only
  refine Runs.noted (((runs_requireNew name).bind fun _ _ _ => (runs_put _).bind fun _ _ _ =>
    ((runs_put_nameless ?_).bind fun _ _ _ => runs_put_nameless ?_).unless).imp ?_ ?_)
  · simp +decide [bitStringLoop, String.append_assoc]
  · simp +decide
  · simp
  · simp [names_bitStringOpening]

theorem runs_writeBitString (r : Rendered) : Runs (writeBitString name r) a
    (name ∉ a.chunks ∧ ∀ text, r = .text text → resolved "" text ≠ "")
    ([camelCase name].filter isName) := by
  cases r with
  | absent => exact (runs_writeInteger none).imp (by simp) rfl
  | number n => exact (runs_writeInteger (some n)).imp (by simp) rfl
  | text size => exact (runs_writeBytes size).imp (by simp) rfl

/-- An array takes a text for its length or size. -/
theorem runs_writeLoop {x : Expr} {loop : String → List String} (plain : Plain N x)
    (nameless : ∀ text, ∀ c ∈ loop text, isName c = false) :
    Runs (writeLoop s name x loop) a (isCount s x = false) [] := by
  obtain ⟨r, known, becomes⟩ := expr_becomes (s := s) plain
  refine Runs.answer known ?_
  rcases becomes with ⟨n, rfl, count⟩ | ⟨text, rfl, other, -⟩
  · exact (runs_unanswered (by simp [neededText])).imp (by simp [count]) rfl
  · refine Runs.answer rfl (Runs.noted (((runs_put_nameless ?_).bind fun _ _ _ =>
      runs_put_nameless (nameless _)).imp (by simp [other]) rfl))
    simp +decide [arrayHeader, String.append_assoc]

theorem runs_writeArray {element : TypeRef} {length size : Option Expr}
    (plain : ∀ x ∈ length, Plain N x) (plain' : ∀ x ∈ size, Plain N x) :
    Runs (writeArray s name element length size) a
      (name ∉ a.chunks ∧ ∀ x ∈ length <|> size, isCount s x = false) [] := by
  have opening : ∀ {y : Writing Unit} {p : Prop}, (∀ b, Runs y b p []) → Runs (do
      requireNew name
      put ["\n// Structure and parser for " ++ name ++ "\n", deriveLine,
        "\npub struct " ++ camelCase name ++ "(pub Vec<" ++ camelCase (typeNameOf s element)
          ++ ">);\n", "\n#[inline]"]
      y) a (name ∉ a.chunks ∧ p) [] := by
    intro y p runs
    refine ((runs_requireNew name).bind fun _ _ _ => (runs_put_nameless ?_).bind fun _ b _ =>
      runs b).imp (by simp) rfl
    simp +decide [String.append_assoc]
  have closing : ∀ {y : Writing Unit} {p : Prop} {b : Sheet}, Runs y b p [] → Runs (do
      y
      put ["\n\x7d\n"]) b p [] := by
    intro y p b runs
    exact (runs.bind fun _ _ _ => runs_put_nameless (by decide)).imp (by simp) rfl
  unfold writeArray
  dsimp only
  cases length with
  | some length =>
    refine (opening fun b => closing (runs_writeLoop (plain length rfl) ?_)).imp (by simp) rfl
    simp +decide [lengthLoop, String.append_assoc]
  | none =>
    cases size with
    | some size =>
      refine (opening fun b => closing (runs_writeLoop (plain' size rfl) ?_)).imp (by simp) rfl
      simp +decide [sizeLoop, String.append_assoc]
    | none => exact (opening fun b => runs_put_nameless (by decide)).imp (by simp) rfl

theorem runs_writeEnum (variants : List TypeRef) : Runs (writeEnum s name variants) a
    (variants.any (isMade s) = true) [] := by
  unfold writeEnum
  simp only [variantNames_eq]
  generalize names : (variants.filter (isMade s)).map (typeNameOf s) = made
  have lines : isName ("\n".intercalate (made.map variantLine)) = false := by
    refine isName_intercalate _ fun x mem => ?_
    obtain ⟨v, -, rfl⟩ := mem_map.mp mem
    simp only [variantLine, String.append_assoc]
    exact isMarked_append _ (by decide)
  have tried : ∀ v, ∀ c ∈ tryVariant (camelCase name) v, isName c = false := by
    simp +decide [tryVariant, String.append_assoc]
  have tries : ∀ c ∈ made.flatMap (tryVariant (camelCase name)), isName c = false := by
    intro c mem
    obtain ⟨v, -, mem⟩ := mem_flatMap.mp mem
    exact tried v c mem
  have several : (variants.any (isMade s) = true) ↔ ¬ made = [] := by
    rw [← names, map_eq_nil_iff, filter_eq_nil_iff, any_eq_true]
    simp
  refine ((runs_put_nameless ?_).bind fun _ _ _ => ((runs_put_nameless tries).bind fun _ _ _ =>
    runs_put_nameless ?_).unless).imp (by simp [several]) rfl
  · simp +decide [lines, String.append_assoc]
  · decide

/-- The types of context fields are primitive, so there is a line for each that needs one. -/
theorem runs_writeContext {slots : List (String × TypeRef)} (regular : s.Regular)
    (simple : ∀ p ∈ slots, p.2 ∈ primitives) : Runs (writeContext s slots) a True [] := by
  have lines : ∀ p ∈ slots, ∃ lines, slotLines s p.1 p.2 = .ok lines := by
    intro p mem
    obtain ⟨e, entry, primitive⟩ := regular.primitive_form (simple p mem)
    unfold slotLines
    rw [entry]
    cases form : e.form <;> simp_all [Form.isPrimitive]
  obtain ⟨lines, known⟩ := exists_mapM lines
  refine Runs.answer known ⟨iff_of_true ⟨(), _, update_eq_ok.mpr rfl⟩ trivial, fun r b done => ?_⟩
  rw [← update_eq_ok.mp done, append_nil, Sheet.names, filter_cons_of_neg]
  · rfl
  · rw [String.append_assoc, isName_append _ (by decide)]
    exact Bool.false_ne_true

/-! ## Structures -/

/-- What stands at the presence of a field has to be a text, and not an empty one. -/
theorem present_of_presenceCode {f : FieldCode} {around : String × String}
    (known : presenceCode f.presence = .ok around) : f.Present := by
  unfold presenceCode at known
  split at known
  · next same => exact ⟨"True", by decide, same⟩
  · next p _ same =>
    dsimp only at known
    split at known
    · cases known
    · next shows =>
      refine ⟨p, ?_, same⟩
      rintro rfl
      exact shows rfl
  · cases known

/-- The fields of a structure can be parsed if all presences can be told. -/
theorem fieldsCode_iff (inputs : List (String × List String)) {codes : List FieldCode}
    (constraints : List Constraint) :
    (∃ code, fieldsCode inputs [] codes constraints = .ok code) ↔ ∀ f ∈ codes, f.Present := by
  constructor
  · rintro ⟨code, known⟩
    generalize [] = before at known
    induction codes generalizing before constraints code with
    | nil => simp
    | cons f codes ih =>
      obtain ⟨around, own, rest⟩ := exceptBind_eq_ok.mp known
      obtain ⟨later, others, -⟩ := exceptBind_eq_ok.mp rest
      exact forall_mem_cons.mpr ⟨present_of_presenceCode own, ih _ _ _ others⟩
  · exact fun present => ⟨_, fieldsCode_eq present fun _ _ => .inl rfl⟩

theorem nameless_code (inputs : List (String × List String)) (f : FieldCode)
    (checks : List String) : ∀ c ∈ f.code inputs checks, isName c = false := by
  have arms : ∀ c ∈ armOf checks, isName c = false := by
    unfold armOf
    split
    · decide
    · simp +decide [String.append_assoc]
  unfold FieldCode.code
  simp only [forall_mem_append, forall_mem_singleton, forall_mem_cons]
  refine ⟨⟨?_, arms⟩, by decide, ?_⟩
  · simp only [String.append_assoc]
    exact isName_append _ (by decide)
  · rw [String.append_assoc]
    exact isName_append _ (by decide)

theorem nameless_placedCode (inputs : List (String × List String)) (codes : List FieldCode)
    (constraints : List Constraint) :
    ∀ c ∈ placedCode inputs [] codes constraints, isName c = false := by
  intro c mem
  obtain ⟨chunks, listed, mem⟩ := mem_flatten.mp mem
  obtain ⟨i, bound, rfl⟩ := mem_mapIdx.mp listed
  exact nameless_code _ _ _ c mem

theorem names_structChunks {fields : List Field} {code : List String}
    (nameless : ∀ c ∈ code, isName c = false) :
    (structChunks s name fields code).filter isName = [camelCase name].filter isName := by
  have before : ∀ c ∈ ["\n// Structure and parser for " ++ name ++ "\n",
      "\n#[derive(Clone, Debug, PartialEq, Eq", ")]\n", "pub struct "], isName c = false := by
    simp +decide [String.append_assoc]
  have declared : ∀ c ∈ fields.map (declaration s), isName c = false := by
    intro c mem
    obtain ⟨f, -, rfl⟩ := mem_map.mp mem
    simp only [declaration, String.append_assoc]
    exact isName_append _ (by decide)
  have head : ∀ c ∈ ["\x7d\n", "\n#[inline]", "\npub fn parse_" ++ snakeCase name
      ++ "<'a>(mut input: (&'a [u8], usize), mut context: &'a mut Context) -> "
      ++ parserResult (camelCase name) ++ " \x7b\n"], isName c = false := by
    simp +decide [String.append_assoc]
  have result : ∀ c ∈ ["    (IResult::Ok((\n", "        input,\n",
      "        " ++ camelCase name ++ " \x7b\n"], isName c = false := by
    simp +decide [String.append_assoc]
  have listed : ∀ c ∈ fields.map fun f => "            " ++ f.name ++ ",\n",
      isName c = false := by
    simp +decide [String.append_assoc]
  have foot : ∀ c ∈ ["        \x7d,\n", "    )),\n", "    context)\n", "\x7d\n"],
      isName c = false := by
    decide
  simp only [structChunks, filter_append, filter_isName declared, filter_isName head,
    filter_isName nameless, filter_isName result, filter_isName listed, filter_isName foot,
    append_nil]
  exact filter_isName_around (camelCase name) before (by decide)

theorem forall_mem_iff_of_forall₂ {α β : Type} {R : α → β → Prop} {P : α → Prop} {Q : β → Prop}
    {xs : List α} {ys : List β} (related : List.Forall₂ R xs ys)
    (same : ∀ x ∈ xs, ∀ y, R x y → (P x ↔ Q y)) : (∀ x ∈ xs, P x) ↔ ∀ y ∈ ys, Q y := by
  induction related with
  | nil => simp
  | cons own _ ih =>
    rw [forall_mem_cons] at same
    rw [forall_mem_cons, forall_mem_cons, same.1 _ own, ih same.2]

/-- The presence of a field can be told if it is neither a number nor without a text. -/
theorem present_iff {f : Field} {c : FieldCode} (plain : Plain N f.presence)
    (known : codeOf s f = .ok c) :
    c.Present ↔ isCount s f.presence = false ∧ isMute f.presence = false := by
  obtain ⟨r, shown, becomes⟩ := expr_becomes (s := s) plain
  obtain ⟨own, -⟩ := codeOf_eq_ok.mp known
  cases shown.symm.trans own
  rcases becomes with ⟨n, same, count⟩ | ⟨text, same, other, mute, -⟩
  · simp [FieldCode.Present, same, count]
  · rw [FieldCode.Present, same]
    constructor
    · rintro ⟨p, shows, own⟩
      cases own
      exact ⟨other, Bool.eq_false_iff.mpr (mt mute.mpr shows)⟩
    · exact fun fine => ⟨text, fun empty => by simp [mute.mp empty] at fine, rfl⟩

theorem runs_writeStruct {fields : List Field} {rendered : List Rendered}
    (plain : ∀ f ∈ fields, Plain N f.presence)
    (texts : ∀ r ∈ rendered, ∃ text, r = .text text) :
    Runs (writeStruct s name fields rendered) a (name ∉ a.chunks ∧ fields ≠ [] ∧
      ∀ f ∈ fields, isCount s f.presence = false ∧ isMute f.presence = false)
      ([camelCase name].filter isName) := by
  obtain ⟨codes, known⟩ : ∃ codes, fields.mapM (codeOf s) = .ok codes := by
    refine exists_mapM fun f mem => ?_
    obtain ⟨r, shown, -⟩ := expr_becomes (s := s) (plain f mem)
    exact ⟨⟨f.name, parserName s f.type, r⟩, codeOf_eq_ok.mpr ⟨shown, rfl, rfl⟩⟩
  obtain ⟨constraints, collected⟩ : ∃ constraints,
      rendered.mapM Constraint.ofRendered = .ok constraints := by
    refine exists_mapM fun r mem => ?_
    obtain ⟨text, rfl⟩ := texts r mem
    exact ⟨_, rfl⟩
  have related := mapM_eq_ok_iff.mp known
  have present := forall_mem_iff_of_forall₂ related fun f mem c own =>
    (present_iff (plain f mem) own).symm
  have several : fields ≠ [] ↔ codes ≠ [] := by
    rw [← length_pos_iff, ← length_pos_iff, related.length_eq]
  constructor
  · rw [several, present, ← fieldsCode_iff a.inputs constraints]
    constructor
    · rintro ⟨r, b, done⟩
      obtain ⟨new, _, _, code, collected', known', some, calls, -⟩ := writeStruct_eq_ok.mp done
      cases collected.symm.trans collected'
      cases known.symm.trans known'
      exact ⟨new, some, code, calls⟩
    · rintro ⟨new, some, code, calls⟩
      exact ⟨(), _, writeStruct_eq_ok.mpr
        ⟨new, constraints, codes, code, collected, known, some, calls, rfl⟩⟩
  · intro r b done
    obtain ⟨-, constraints, codes, code, -, -, -, calls, rfl⟩ := writeStruct_eq_ok.mp done
    have present := (fieldsCode_iff _ _).mp ⟨code, calls⟩
    have placed : fieldsCode a.inputs [] codes constraints
        = .ok (placedCode a.inputs [] codes constraints) :=
      fieldsCode_eq present fun _ _ => .inl rfl
    cases calls.symm.trans placed
    exact (filter_append ..).trans
      (congrArg _ (names_structChunks (nameless_placedCode _ _ _)))

end Types

end PacketDraft.Render.Rust
