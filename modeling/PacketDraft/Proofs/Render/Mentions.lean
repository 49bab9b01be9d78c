import Mathlib.Data.List.Basic
import Mathlib.Data.List.TakeWhile
import PacketDraft.Protocol.Name

/-!
# Parser functions in a source

A source is read character by character. Where the name of a parser function stands before an opening
parenthesis or bracket, the function is defined if the word before is `fn`, and is called otherwise.
`Tells` says which mentions of parser functions a piece of text makes, whatever comes after it, and
follows the way in which texts are put together.
-/

namespace PacketDraft.Render.Rust

open List

open Protocol (isNameChar)

/-- A call or a definition of a parser function, with the number of its arguments or parameters
besides input and context. -/
inductive Mention where
  | call (function : String) (arguments : Nat)
  | definition (function : String) (parameters : Nat)
  deriving DecidableEq, Repr

/-- Whether a function is defined. -/
def Mention.defines (function : String) : Mention → Bool
  | .call _ _ => false
  | .definition f _ => f = function

/-- The arguments behind input and context. They end with the first closing parenthesis, and a comma
stands between neighbours. -/
def argumentCount (cs : List Char) : Nat :=
  (cs.takeWhile (· != ')')).count ',' - 1

/-- The parameters behind input and context. They end with the arrow, and each has a colon. -/
def parameterCount (cs : List Char) : Nat :=
  (cs.takeWhile (· != '-')).count ':' - 2

/-- A place in a source: the last word before, and the part of a word that stands right before. -/
structure Place where
  previous : List Char
  word : List Char

namespace Place

/-- The place behind one more character. -/
def advance (p : Place) (c : Char) : Place :=
  if isNameChar c then { p with word := p.word ++ [c] }
  else ⟨if p.word = [] then p.previous else p.word, []⟩

/-- The place behind a text. -/
def behind (p : Place) (cs : List Char) : Place :=
  cs.foldl advance p

/-- The mention that the next character makes out of the word before it, given what follows. -/
def mention? (p : Place) (c : Char) (cs : List Char) : Option Mention :=
  if "parse_".toList.isPrefixOf p.word = true ∧ (c = '(' ∨ c = '<') then
    some (if p.previous = "fn".toList then
        .definition (String.ofList p.word) (parameterCount cs)
      else .call (String.ofList p.word) (argumentCount cs))
  else none

end Place

/-- The mentions of parser functions from a place on. -/
def mentionsFrom : Place → List Char → List Mention
  | _, [] => []
  | p, c :: cs => (p.mention? c cs).toList ++ mentionsFrom (p.advance c) cs

/-- The parser functions that a source mentions, in order. -/
def mentions (source : String) : List Mention :=
  mentionsFrom ⟨[], []⟩ source.toList

/-- Every parser function that is called is defined once, with as many parameters as it is given
arguments. -/
def CallsFit (source : String) : Prop :=
  ∀ function arguments, .call function arguments ∈ mentions source →
    (mentions source).filter (·.defines function) = [.definition function arguments]

/-! ## Modes -/

/-- What is known of the word right before a place: there is none, or it has no low line, or nothing.
The name of a parser function has a low line. -/
inductive Mode where
  | clear
  | word
  | low
  deriving DecidableEq

namespace Mode

/-- The mode behind one more character, unless it may make a mention. A closing parenthesis leads to a
mode that can be chosen. -/
def step (closing m : Mode) (c : Char) : Option Mode :=
  if isNameChar c then some (if c = '_' ∨ m = .low then .low else .word)
  else if c = '(' ∨ c = '<' then if m = .low then none else some .clear
  else some (if c = ')' then closing else .clear)

/-- The mode behind a text, unless it may make a mention. -/
def follow (closing m : Mode) (cs : List Char) : Option Mode :=
  cs.foldlM (step closing) m

/-- The characters of a fixed text are at hand. To compute them from the bytes of the text takes long. -/
theorem follow_ofList {closing m k : Mode} {cs : List Char} (followed : follow closing m cs = some k) :
    follow closing m (String.ofList cs).toList = some k := by
  rwa [String.toList_ofList]

end Mode

/-- What a mode says about a place. -/
def Place.In : Mode → Place → Prop
  | .clear, p => p.word = []
  | .word, p => '_' ∉ p.word
  | .low, _ => True

namespace Place

variable {closing m k : Mode} {p : Place} {c : Char}

theorem In.word (clear : p.In .clear) : p.In .word := by
  show '_' ∉ p.word
  rw [show p.word = [] from clear]
  exact not_mem_nil

theorem In.of_clear (clear : p.In .clear) (m : Mode) : p.In m := by
  cases m with
  | clear => exact clear
  | word => exact clear.word
  | low => trivial

theorem advance_name (name : isNameChar c = true) :
    p.advance c = { p with word := p.word ++ [c] } := by
  rw [advance, if_pos name]

theorem advance_other (other : isNameChar c = false) : (p.advance c).In .clear := by
  show (p.advance c).word = []
  rw [advance, if_neg (by simp [other])]

/-- A word without a low line is not the name of a parser function. -/
theorem mention?_of_word {cs : List Char} (known : p.In .word) : p.mention? c cs = none := by
  refine if_neg fun ⟨parser, _⟩ => known ?_
  have starts := isPrefixOf_iff_prefix.mp parser
  exact starts.subset (by decide)

/-- A character that may make no mention makes none, and leads from mode to mode. -/
theorem step_sound (known : p.In m) (stepped : Mode.step closing m c = some k) (cs : List Char) :
    p.mention? c cs = none ∧ (p.advance c).In k := by
  unfold Mode.step at stepped
  split at stepped
  · next name =>
    cases stepped
    constructor
    · refine if_neg fun ⟨_, opening⟩ => ?_
      rcases opening with rfl | rfl <;> exact absurd name (by decide)
    · rw [advance_name name]
      split
      · trivial
      · next plain =>
        rw [not_or] at plain
        have before : '_' ∉ p.word := by
          cases m with
          | clear => exact In.word known
          | word => exact known
          | low => exact absurd rfl plain.2
        show '_' ∉ p.word ++ [c]
        simp [before, Ne.symm plain.1]
  · next other =>
    have clear := advance_other (p := p) (Bool.eq_false_iff.mpr other)
    split at stepped
    · split at stepped
      · cases stepped
      · next plain =>
        cases stepped
        refine ⟨mention?_of_word ?_, clear⟩
        cases m with
        | clear => exact In.word known
        | word => exact known
        | low => exact absurd rfl plain
    · next quiet =>
      cases stepped
      exact ⟨if_neg fun ⟨_, opening⟩ => quiet opening, clear.of_clear _⟩

end Place

/-! ## What texts tell -/

/-- From a place with one property, a text makes these mentions and leads to a place with another
property, whatever follows it. -/
def Tells (P : Place → Prop) (text : String) (ms : List Mention) (Q : Place → Prop) : Prop :=
  ∀ p, P p → Q (p.behind text.toList) ∧ ∀ rest,
    mentionsFrom p (text.toList ++ rest) = ms ++ mentionsFrom (p.behind text.toList) rest

section Tells

variable {P Q R : Place → Prop} {m k : Mode} {text more : String} {ms ns : List Mention}

theorem Tells.append (first : Tells P text ms Q) (second : Tells Q more ns R) :
    Tells P (text ++ more) (ms ++ ns) R := by
  intro p holds
  obtain ⟨middle, start⟩ := first p holds
  obtain ⟨last, rest⟩ := second _ middle
  rw [String.toList_append, Place.behind, foldl_append]
  refine ⟨last, fun tail => ?_⟩
  rw [append_assoc, start, rest, append_assoc]
  rfl

theorem Tells.imp {P' Q' : Place → Prop} (tells : Tells P text ms Q) (before : ∀ p, P' p → P p)
    (after : ∀ p, Q p → Q' p) : Tells P' text ms Q' := by
  intro p holds
  obtain ⟨last, same⟩ := tells p (before p holds)
  exact ⟨after _ last, same⟩

/-- A text makes no mention. -/
abbrev Quiet (P : Place → Prop) (text : String) (Q : Place → Prop) : Prop :=
  Tells P text [] Q

theorem Tells.then (first : Quiet P text Q) (second : Tells Q more ns R) :
    Tells P (text ++ more) ns R :=
  first.append second

theorem Tells.cons {m : Mention} (first : Tells P text [m] Q) (second : Tells Q more ns R) :
    Tells P (text ++ more) (m :: ns) R :=
  first.append second

theorem Tells.quiet (first : Tells P text ms Q) (rest : Quiet Q more R) :
    Tells P (text ++ more) ms R := by
  have both := first.append rest
  rwa [append_nil] at both

theorem quiet_empty : Quiet P "" P :=
  fun _ holds => ⟨holds, fun _ => rfl⟩

theorem quiet_of_follow (closing : Mode) (followed : Mode.follow closing m text.toList = some k) :
    Quiet (Place.In m) text (Place.In k) := by
  unfold Quiet Tells
  generalize text.toList = cs at followed
  induction cs generalizing m with
  | nil =>
    cases followed
    exact fun p known => ⟨known, fun _ => rfl⟩
  | cons c cs ih =>
    rw [Mode.follow, foldlM_cons] at followed
    obtain ⟨next, stepped, rest⟩ := Option.bind_eq_some_iff.mp followed
    intro p known
    obtain ⟨none, known'⟩ := Place.step_sound known stepped []
    obtain ⟨last, same⟩ := ih rest _ known'
    refine ⟨last, fun tail => ?_⟩
    rw [cons_append, mentionsFrom, (Place.step_sound known stepped _).1, same]
    rfl

theorem quiet_until (k : Mode) (followed : Mode.follow .clear m cs = some k) :
    Quiet (Place.In m) (String.ofList cs) (Place.In k) :=
  quiet_of_follow .clear (Mode.follow_ofList followed)

theorem quiet_text (followed : Mode.follow .clear m cs = some .clear) :
    Quiet (Place.In m) (String.ofList cs) (Place.In .clear) :=
  quiet_until .clear followed

theorem tells_text_append (followed : Mode.follow .clear m cs = some .clear)
    (rest : Tells (Place.In .clear) more ns R) :
    Tells (Place.In m) (String.ofList cs ++ more) ns R :=
  (quiet_text followed).then rest

/-- Fixed text, something else that makes no mention, and fixed text again. -/
theorem Tells.fill {hole : String} (first : Quiet P text (Place.In m))
    (filled : Quiet (Place.In m) hole (Place.In k))
    (followed : Mode.follow .clear k cs = some .clear) :
    Quiet P (text ++ hole ++ String.ofList cs) (Place.In .clear) :=
  (first.then filled).then (quiet_text followed)

theorem quiet_fill {hole : String} (leads : Mode.follow .clear m cs = some .clear)
    (filled : Quiet (Place.In .clear) hole (Place.In k))
    (followed : Mode.follow .clear k ds = some .clear) :
    Quiet (Place.In m) (String.ofList cs ++ hole ++ String.ofList ds) (Place.In .clear) :=
  (quiet_text leads).fill filled followed

/-- A text without opening parentheses and brackets. -/
theorem quiet_of_forall (closed : ∀ c ∈ text.toList, c ≠ '(' ∧ c ≠ '<') :
    Quiet P text (Place.In .low) := by
  have follows : ∀ {cs : List Char}, (∀ c ∈ cs, c ≠ '(' ∧ c ≠ '<') → ∀ m : Mode,
      ∃ k, Mode.follow .clear m cs = some k := by
    intro cs
    induction cs with
    | nil => exact fun _ m => ⟨m, rfl⟩
    | cons c cs ih =>
      intro closed m
      rw [forall_mem_cons] at closed
      have stepped : ∃ n, Mode.step .clear m c = some n := by
        unfold Mode.step
        split
        · exact ⟨_, rfl⟩
        · rw [if_neg (by simp [closed.1])]
          exact ⟨_, rfl⟩
      obtain ⟨n, stepped⟩ := stepped
      obtain ⟨k, rest⟩ := ih closed.2 n
      refine ⟨k, ?_⟩
      rw [Mode.follow, foldlM_cons, stepped]
      exact rest
  obtain ⟨k, followed⟩ := follows closed .low
  exact (quiet_of_follow .clear followed).imp (fun _ _ => trivial) fun _ _ => trivial

/-- A word without low lines. -/
theorem quiet_of_letters (letters : ∀ c ∈ text.toList, isNameChar c = true ∧ c ≠ '_') :
    Quiet (Place.In .word) text (Place.In .word) := by
  refine quiet_of_follow .clear ?_
  generalize text.toList = cs at letters
  induction cs with
  | nil => rfl
  | cons c cs ih =>
    rw [forall_mem_cons] at letters
    rw [Mode.follow, foldlM_cons, Mode.step, if_pos letters.1.1, if_neg (by simp [letters.1.2])]
    exact ih letters.2

end Tells

/-! ## Chunks -/

section Chunks

variable {P Q R : Place → Prop} {chunk : String} {chunks : List String} {ms ns : List Mention}

theorem quiet_chunks (each : ∀ chunk ∈ chunks, Quiet (Place.In .clear) chunk (Place.In .clear)) :
    Quiet (Place.In .clear) (String.join chunks) (Place.In .clear) := by
  induction chunks with
  | nil => exact quiet_empty
  | cons chunk chunks ih =>
    rw [forall_mem_cons] at each
    rw [String.join_cons]
    exact each.1.then (ih each.2)

/-- The mentions of chunks one after the other. -/
theorem tells_flatMap {α : Type} {xs : List α} {f : α → List String} {g : α → Mention}
    (each : ∀ x ∈ xs, Tells (Place.In .clear) (String.join (f x)) [g x] (Place.In .clear)) :
    Tells (Place.In .clear) (String.join (xs.flatMap f)) (xs.map g) (Place.In .clear) := by
  induction xs with
  | nil => exact quiet_empty
  | cons x xs ih =>
    rw [forall_mem_cons] at each
    rw [flatMap_cons, String.join_append, map_cons]
    exact each.1.cons (ih each.2)

end Chunks

/-! ## Mentions -/

/-- Right behind a word, with nothing begun. -/
def Place.After (word : String) (p : Place) : Prop :=
  p = ⟨word.toList, []⟩

/-- Behind a word, with the name of a parser function begun. -/
def Place.Naming (word : String) (p : Place) : Prop :=
  p = ⟨word.toList, "parse_".toList⟩

section Mention

variable {Q : Place → Prop} {name tail text word : String} {c : Char} {cs rest : List Char}

/-- A fixed text that leads behind a word. -/
theorem quiet_after (leads : ∀ before, Place.behind ⟨before, []⟩ cs = ⟨word.toList, []⟩)
    (followed : Mode.follow .clear .clear cs = some .clear) :
    Quiet (Place.In .clear) (String.ofList cs) (Place.After word) := by
  rintro ⟨before, _⟩ ⟨⟩
  refine ⟨?_, (quiet_text followed ⟨before, []⟩ rfl).2⟩
  rw [String.toList_ofList]
  exact leads before

/-- A fixed text that leads into the name of a parser function. -/
theorem quiet_naming
    (leads : ∀ before, Place.behind ⟨before, []⟩ cs = ⟨word.toList, "parse_".toList⟩)
    (followed : Mode.follow .clear .clear cs = some .low) :
    Quiet (Place.In .clear) (String.ofList cs) (Place.Naming word) := by
  rintro ⟨before, _⟩ ⟨⟩
  refine ⟨?_, (quiet_until .low followed ⟨before, []⟩ rfl).2⟩
  rw [String.toList_ofList]
  exact leads before

theorem behind_of_letters (letters : ∀ c ∈ cs, isNameChar c = true) (p : Place) :
    p.behind cs = { p with word := p.word ++ cs } := by
  induction cs generalizing p with
  | nil => simp [Place.behind]
  | cons c cs ih =>
    rw [forall_mem_cons] at letters
    rw [Place.behind, foldl_cons, Place.advance_name letters.1]
    refine (ih letters.2 _).trans ?_
    simp

theorem mentionsFrom_of_letters (letters : ∀ c ∈ cs, isNameChar c = true) (p : Place) :
    mentionsFrom p (cs ++ rest) = mentionsFrom (p.behind cs) rest := by
  induction cs generalizing p with
  | nil => rfl
  | cons c cs ih =>
    rw [forall_mem_cons] at letters
    have none : p.mention? c (cs ++ rest) = none := by
      refine if_neg fun ⟨_, opening⟩ => ?_
      rcases opening with rfl | rfl <;> exact absurd letters.1 (by decide)
    rw [cons_append, mentionsFrom, none]
    exact ih letters.2 _

theorem quiet_parse (word : String) : Quiet (Place.After word) "parse_" (Place.Naming word) := by
  have letters : ∀ c ∈ "parse_".toList, isNameChar c = true := by
    simp only [String.reduceToList, mem_cons, not_mem_nil, or_false, forall_eq_or_imp,
      forall_eq]
    decide
  rintro p rfl
  exact ⟨behind_of_letters letters _, fun _ => mentionsFrom_of_letters letters _⟩

theorem advance_behind_word {w f : List Char} (other : isNameChar c = false) (some : f ≠ []) :
    Place.advance ⟨w, f⟩ c = ⟨f, []⟩ ∧ Place.advance ⟨f, []⟩ c = ⟨f, []⟩ := by
  have stops : ¬ isNameChar c = true := by simp [other]
  constructor
  · rw [Place.advance, if_neg stops, if_neg some]
  · rw [Place.advance, if_neg stops, if_pos rfl]

/-- The name of a parser function before an opening is mentioned. What follows is read as if nothing
stood before it. -/
theorem tells_mention {m : Mention} (letters : ∀ c ∈ name.toList, isNameChar c = true)
    (opens : tail.toList = c :: cs) (other : isNameChar c = false)
    (quiet : Quiet (Place.In .clear) tail Q)
    (told : ∀ rest, Place.mention? ⟨word.toList, ("parse_" ++ name).toList⟩ c (cs ++ rest)
      = some m) : Tells (Place.Naming word) (name ++ tail) [m] Q := by
  rintro p rfl
  have named : Place.behind ⟨word.toList, "parse_".toList⟩ name.toList
      = ⟨word.toList, ("parse_" ++ name).toList⟩ := by
    rw [behind_of_letters letters, String.toList_append]
  have some : ("parse_" ++ name).toList ≠ [] := by simp
  have whole : ∀ rest, mentionsFrom ⟨word.toList, "parse_".toList⟩ ((name ++ tail).toList ++ rest)
      = mentionsFrom ⟨word.toList, ("parse_" ++ name).toList⟩ (c :: (cs ++ rest)) := by
    intro rest
    rw [String.toList_append, opens, append_assoc, mentionsFrom_of_letters letters, named]
    rfl
  have last : Place.behind ⟨word.toList, "parse_".toList⟩ (name ++ tail).toList
      = Place.behind ⟨word.toList, ("parse_" ++ name).toList⟩ (c :: cs) := by
    rw [String.toList_append, opens, ← named]
    exact foldl_append
  simp only [whole, last]
  generalize ("parse_" ++ name).toList = f at told some
  -- The opening leads to one place, whether or not the name stands before it.
  obtain ⟨here, there⟩ := advance_behind_word (w := word.toList) other some
  obtain ⟨end_, silent⟩ := quiet ⟨f, []⟩ rfl
  simp only [opens, Place.behind, foldl_cons, here, there, cons_append, mentionsFrom,
    Place.mention?_of_word (show Place.In .word ⟨f, []⟩ from not_mem_nil)] at end_ silent ⊢
  refine ⟨end_, fun rest => ?_⟩
  rw [told rest]
  exact congrArg (m :: ·) (silent rest)

theorem isPrefixOf_parserName (name : String) :
    "parse_".toList.isPrefixOf ("parse_" ++ name).toList = true := by
  refine isPrefixOf_iff_prefix.mpr ?_
  rw [String.toList_append]
  exact prefix_append ..

/-- A call of a parser function. -/
theorem tells_call {n : Nat} (letters : ∀ c ∈ name.toList, isNameChar c = true)
    (opens : tail.toList.head? = some '(') (quiet : Quiet (Place.In .clear) tail Q)
    (counted : ∀ rest, argumentCount (tail.toList ++ rest) = n) (other : word ≠ "fn") :
    Tells (Place.Naming word) (name ++ tail) [.call ("parse_" ++ name) n] Q := by
  obtain ⟨cs, shape⟩ := List.head?_eq_some_iff.mp opens
  refine tells_mention letters shape (by decide) quiet fun rest => ?_
  rw [Place.mention?, if_pos ⟨isPrefixOf_parserName name, .inl rfl⟩,
    if_neg (fun same => other (String.toList_injective same)), String.ofList_toList,
    ← counted rest, shape]
  rfl

/-- The definition of a parser function. -/
theorem tells_definition {n : Nat} (letters : ∀ c ∈ name.toList, isNameChar c = true)
    (opens : tail.toList.head? = some '<') (quiet : Quiet (Place.In .clear) tail Q)
    (counted : ∀ rest, parameterCount (tail.toList ++ rest) = n) :
    Tells (Place.Naming "fn") (name ++ tail) [.definition ("parse_" ++ name) n] Q := by
  obtain ⟨cs, shape⟩ := List.head?_eq_some_iff.mp opens
  refine tells_mention letters shape (by decide) quiet fun rest => ?_
  rw [Place.mention?, if_pos ⟨isPrefixOf_parserName name, .inr rfl⟩, if_pos rfl,
    String.ofList_toList, ← counted rest, shape]
  rfl

end Mention

/-! ## Counting -/

section Counting

variable {cs ds rest : List Char}

/-- What is counted up to a mark. -/
theorem count_takeWhile_append {mark c : Char} (none : mark ∉ cs) (ends : mark ∈ ds) :
    ((cs ++ (ds ++ rest)).takeWhile (· != mark)).count c
      = cs.count c + (ds.takeWhile (· != mark)).count c := by
  have before : ∀ d ∈ cs, (d != mark) = true := by
    intro d mem
    simp only [bne_iff_ne, ne_eq]
    rintro rfl
    exact none mem
  have stops : (ds ++ rest).takeWhile (· != mark) = ds.takeWhile (· != mark) := by
    rw [takeWhile_append, if_neg]
    intro long
    have front : ds.takeWhile (· != mark) <+: ds := takeWhile_prefix _
    have all := front.eq_of_length long
    have passed := mem_takeWhile_imp (all ▸ ends)
    simp at passed
  rw [takeWhile_append_of_pos before, stops, count_append]

/-- A list of arguments ends with its closing parenthesis. -/
theorem argumentCount_append (none : ')' ∉ cs) (closes : ')' ∈ ds) :
    argumentCount (cs ++ (ds ++ rest))
      = cs.count ',' + (ds.takeWhile (· != ')')).count ',' - 1 := by
  rw [argumentCount, count_takeWhile_append none closes]

theorem argumentCount_of_mem (closes : ')' ∈ ds) :
    argumentCount (ds ++ rest) = (ds.takeWhile (· != ')')).count ',' - 1 := by
  refine (argumentCount_append not_mem_nil closes).trans ?_
  rw [count_nil, Nat.zero_add]

/-- A list of parameters ends with the arrow. -/
theorem parameterCount_append (none : '-' ∉ cs) (closes : '-' ∈ ds) :
    parameterCount (cs ++ (ds ++ rest))
      = cs.count ':' + (ds.takeWhile (· != '-')).count ':' - 2 := by
  rw [parameterCount, count_takeWhile_append none closes]

theorem parameterCount_of_mem (closes : '-' ∈ ds) :
    parameterCount (ds ++ rest) = (ds.takeWhile (· != '-')).count ':' - 2 := by
  refine (parameterCount_append not_mem_nil closes).trans ?_
  rw [count_nil, Nat.zero_add]

end Counting

end PacketDraft.Render.Rust
