import Mathlib
import PacketDraft.Proofs.Render.Sketch
import PacketDraft.Proofs.Text.Blank
import PacketDraft.Render.Plain

/-!
# Plain expressions can be read back

The text of an expression without branches and function calls tells which expression it is. It starts
with a word, and steps follow, each after a dot: the name of a field, or of a method with arguments in
parentheses. A name ends at the next mark, so the steps can be read one after the other, and within
the parentheses each argument up to a comma or the closing parenthesis that follows it.
-/

namespace PacketDraft.Render.Plain

open Protocol List
open Grammar.Parser (append_stop_inj bne_of_not_mem)
open Rust (mem_of_isMemberName)

variable {s : Store} {context : TypeRef} {e e' t : Expr} {name : String} {args : List (String × Expr)}
  {r r' w : List Char}

/-! ## Words and marks -/

/-- The characters that end a word. -/
def isMark (c : Char) : Bool :=
  c == '.' || c == ',' || c == '(' || c == ')'

/-- Up to the next mark, two texts that are equal have the same beginning. -/
theorem word_inj {u v : List Char} (word : ∀ c ∈ u, isMark c = false)
    (word' : ∀ c ∈ v, isMark c = false) (stop : ∀ c ∈ r.head?, isMark c = true)
    (stop' : ∀ c ∈ r'.head?, isMark c = true) (same : u ++ r = v ++ r') : u = v ∧ r = r' :=
  append_stop_inj (p := (!isMark ·)) (by simpa using word) (by simpa using stop)
    (by simpa using word') (by simpa using stop') same

theorem isMark_of_isNameChar {c : Char} (own : isNameChar c = true) : isMark c = false := by
  cases mark : isMark c with
  | false => rfl
  | true =>
    simp only [isMark, Bool.or_eq_true, beq_iff_eq] at mark
    rcases mark with ((rfl | rfl) | rfl) | rfl <;> revert own <;> decide

theorem isMark_of_isMemberName (named : isMemberName name = true) :
    ∀ c ∈ name.toList, isMark c = false := by
  intro c mem
  rcases mem_of_isMemberName named mem with own | rfl
  · exact isMark_of_isNameChar own
  · rfl

/-- A name ends at the next mark. -/
theorem name_inj {name' : String} (named : isMemberName name = true)
    (named' : isMemberName name' = true) (stop : ∀ c ∈ r.head?, isMark c = true)
    (stop' : ∀ c ∈ r'.head?, isMark c = true) (same : name.toList ++ r = name'.toList ++ r') :
    name = name' ∧ r = r' := by
  have parts := word_inj (isMark_of_isMemberName named) (isMark_of_isMemberName named')
    stop stop' same
  exact ⟨String.toList_inj.mp parts.1, parts.2⟩

/-! ## Expressions without branches and calls -/

/-- A name of an argument ends at the equals sign, and does not look like the end of the arguments. -/
def IsArgumentName (name : String) : Prop :=
  '=' ∉ name.toList ∧ name.toList.head? ≠ some ')'

/-- All names of members can be names of arguments. -/
theorem isArgumentName_of_isMemberName (named : isMemberName name = true) : IsArgumentName name := by
  have plain : ∀ c ∈ name.toList, c ≠ '=' ∧ c ≠ ')' := by
    intro c mem
    rcases mem_of_isMemberName named mem with own | rfl
    · constructor <;> rintro rfl <;> revert own <;> decide
    · decide
  exact ⟨fun mem => (plain _ mem).1 rfl, fun head => (plain _ (mem_of_mem_head? head)).2 rfl⟩

/-- The expressions that others start from: the object itself, numbers, truth values and fields of a
context. -/
inductive IsHead (context : TypeRef) : Expr → Prop
  | self : IsHead context .self
  | number (n : Int) : IsHead context (.const .number (.int n))
  | flag (b : Bool) : IsHead context (.const .boolean (.flag b))
  | ctx {name : String} (named : isMemberName name = true) : IsHead context (.ctx name context)

/-- Expressions made of these by fields and methods. -/
inductive Simple (context : TypeRef) : Expr → Prop
  | head {e : Expr} (head : IsHead context e) : Simple context e
  | field {target : Expr} {name : String} (of : Simple context target)
    (named : isMemberName name = true) : Simple context (.field target name)
  | method {target : Expr} {name : String} {args : List (String × Expr)} (of : Simple context target)
    (named : isMemberName name = true) (names : ∀ a ∈ args, IsArgumentName a.1)
    (each : ∀ a ∈ args, Simple context a.2) : Simple context (.method target name args)

/-- The characters of an expression. -/
def spelled (s : Store) (e : Expr) : List Char :=
  match expr s e with
  | .ok text => text.toList
  | .error _ => []

/-- The characters of an argument. -/
def spelledArgument (s : Store) (a : String × Expr) : List Char :=
  a.1.toList ++ '=' :: spelled s a.2

/-- Arguments, and the parenthesis behind them. -/
def enclosed (s : Store) (args : List (String × Expr)) : List Char :=
  [','].intercalate (args.map (spelledArgument s)) ++ [')']

/-- The arguments behind the first one, and the parenthesis. -/
def further (s : Store) (args : List (String × Expr)) : List Char :=
  args.flatMap (fun a => ',' :: spelledArgument s a) ++ [')']

theorem enclosed_cons (a : String × Expr) (args : List (String × Expr)) :
    enclosed s (a :: args) = spelledArgument s a ++ further s args := by
  rw [enclosed, map_cons, Text.intercalate_cons, flatMap_map, append_assoc]
  rfl

theorem arguments_of_each (each : ∀ a ∈ args, ∃ text, expr s a.2 = .ok text) :
    ∃ texts, arguments s args = .ok texts ∧
      texts.map String.toList = args.map (spelledArgument s) := by
  induction args with
  | nil => exact ⟨[], rfl, rfl⟩
  | cons a args ih =>
    rw [forall_mem_cons] at each
    obtain ⟨⟨text, own⟩, rest⟩ := each
    obtain ⟨texts, others, same⟩ := ih rest
    refine ⟨(a.1 ++ "=" ++ text) :: texts, ?_, ?_⟩
    · rw [arguments, own, others]
      rfl
    · simp [same, spelledArgument, spelled, own]

/-- All these expressions have a text. -/
theorem expr_of_simple (simple : Simple context e) : ∃ text, expr s e = .ok text := by
  induction simple with
  | head head => cases head <;> exact ⟨_, rfl⟩
  | field of named ih =>
    obtain ⟨text, own⟩ := ih
    rw [expr, own]
    exact ⟨_, rfl⟩
  | method of named names each ih ihArgs =>
    obtain ⟨text, own⟩ := ih
    obtain ⟨texts, others, -⟩ := arguments_of_each ihArgs
    rw [expr, own, others]
    exact ⟨_, rfl⟩

theorem spelled_field (of : Simple context t) (name : String) :
    spelled s (.field t name) = spelled s t ++ '.' :: name.toList := by
  obtain ⟨text, own⟩ := expr_of_simple (s := s) of
  simp [spelled, expr, own, bind, Except.bind, pure, Except.pure]

theorem spelled_method (of : Simple context t) (name : String)
    (each : ∀ a ∈ args, Simple context a.2) :
    spelled s (.method t name args)
      = spelled s t ++ '.' :: (name.toList ++ '(' :: enclosed s args) := by
  obtain ⟨text, own⟩ := expr_of_simple (s := s) of
  obtain ⟨texts, others, same⟩ := arguments_of_each (s := s) fun a mem => expr_of_simple (each a mem)
  simp [spelled, expr, own, others, bind, Except.bind, pure, Except.pure, enclosed,
    String.toList_intercalate, same]

/-! ## What follows an expression -/

/-- A text that goes on with a step, or with what can follow a whole expression. -/
def GoesOn (r : List Char) : Prop :=
  ∀ c ∈ r.head?, c = '.' ∨ c = ',' ∨ c = ')'

/-- A text that an expression cannot reach into. -/
def Closes (r : List Char) : Prop :=
  ∀ c ∈ r.head?, c = ',' ∨ c = ')'

theorem Closes.goesOn (closes : Closes r) : GoesOn r :=
  fun c mem => .inr (closes c mem)

theorem closes_nil : Closes [] := by
  simp [Closes]

theorem closes_further (args : List (String × Expr)) : Closes (further s args ++ r) := by
  cases args <;> simp [Closes, further]

theorem GoesOn.isMark (goesOn : GoesOn r) : ∀ c ∈ r.head?, isMark c = true := by
  intro c mem
  rcases goesOn c mem with rfl | rfl | rfl <;> rfl

/-- Steps that lead from one expression to another, and their text. -/
inductive Leads (s : Store) (context : TypeRef) : Expr → List Char → Expr → Prop
  | done (e : Expr) : Leads s context e [] e
  | field {e e' : Expr} {name : String} {w : List Char} (named : isMemberName name = true)
    (rest : Leads s context (.field e name) w e') : Leads s context e ('.' :: (name.toList ++ w)) e'
  | method {e e' : Expr} {name : String} {args : List (String × Expr)} {w : List Char}
    (named : isMemberName name = true) (names : ∀ a ∈ args, IsArgumentName a.1)
    (each : ∀ a ∈ args, Simple context a.2) (rest : Leads s context (.method e name args) w e') :
    Leads s context e ('.' :: (name.toList ++ '(' :: (enclosed s args ++ w))) e'

/-- A step is added to others that end where it starts. -/
theorem Leads.trans {e₁ e₂ e₃ : Expr} {w' : List Char} (first : Leads s context e₁ w e₂)
    (second : Leads s context e₂ w' e₃) : Leads s context e₁ (w ++ w') e₃ := by
  induction first with
  | done e => exact second
  | field named rest ih => simpa using Leads.field named (ih second)
  | method named names each rest ih => simpa using Leads.method named names each (ih second)

theorem Leads.goesOn (leads : Leads s context e w e') (closes : Closes r) : GoesOn (w ++ r) := by
  cases leads with
  | done => exact closes.goesOn
  | field named rest => simp [GoesOn]
  | method named names each rest => simp [GoesOn]

theorem Leads.eq_of_closes (leads : Leads s context e w e') (closes : Closes (w ++ r)) :
    e = e' ∧ w = [] := by
  cases leads with
  | done => exact ⟨rfl, rfl⟩
  | field named rest => simp [Closes] at closes
  | method named names each rest => simp [Closes] at closes

/-! ## The first word -/

/-- Every expression comes from a first one by steps. -/
theorem exists_head (simple : Simple context e) :
    ∃ h w, IsHead context h ∧ Leads s context h w e ∧ spelled s e = spelled s h ++ w := by
  induction simple with
  | head head => exact ⟨_, [], head, .done _, (append_nil _).symm⟩
  | field of named ih =>
    obtain ⟨h, w, head, leads, same⟩ := ih
    refine ⟨h, _, head, leads.trans (.field named (.done _)), ?_⟩
    rw [spelled_field of, same, append_nil, append_assoc]
  | method of named names each ih =>
    obtain ⟨h, w, head, leads, same⟩ := ih
    refine ⟨h, _, head, leads.trans (.method named names each (.done _)), ?_⟩
    rw [spelled_method of _ each, same, append_nil, append_assoc]

/-- The first word of an expression. -/
def headWord : Expr → List Char
  | .const _ v => v.asText.toList
  | .self => ['S', 'e', 'l', 'f']
  | _ => ['C', 'o', 'n', 't', 'e', 'x', 't']

/-- What the first expression has behind its word. -/
def headRest : Expr → List Char
  | .ctx name _ => '.' :: name.toList
  | _ => []

theorem spelled_head (head : IsHead context e) : spelled s e = headWord e ++ headRest e := by
  cases head with
  | ctx named => simp [spelled, expr, headWord, headRest]
  | _ => simp [spelled, expr, headWord, headRest]

theorem mem_toString {n : Int} {c : Char} (mem : c ∈ (toString n).toList) :
    c = '-' ∨ c.isDigit = true := by
  have digit {k : Nat} (mem : c ∈ k.repr.toList) : c.isDigit = true := by
    rw [Nat.toList_repr] at mem
    exact Nat.isDigit_of_mem_toDigits (by decide) (by decide) mem
  cases n with
  | ofNat k => exact .inr (digit mem)
  | negSucc k =>
    rw [show toString (Int.negSucc k) = "-" ++ (k + 1).repr from rfl, String.toList_append] at mem
    exact (mem_append.mp mem).imp mem_singleton.mp digit

theorem isMark_headWord (head : IsHead context e) : ∀ c ∈ headWord e, isMark c = false := by
  cases head with
  | number n =>
    intro c mem
    rcases mem_toString mem with rfl | digit
    · rfl
    · apply isMark_of_isNameChar
      simp only [Char.isDigit, Bool.and_eq_true, decide_eq_true_eq] at digit
      simp [isNameChar, show '0' ≤ c ∧ c ≤ '9' from digit]
  | flag b => cases b <;> simp [headWord, Literal.asText, Literal.shown, isMark]
  | self => simp [headWord, isMark]
  | ctx named => simp [headWord, isMark]

theorem headWord_ne_number {n : Int} {first : Char} {cs : List Char} (letter : first ≠ '-')
    (letter' : first.isDigit = false) : first :: cs ≠ headWord (.const .number (.int n)) := by
  intro same
  have mem : first ∈ (toString n).toList := by
    show first ∈ headWord (.const .number (.int n))
    rw [← same]
    exact mem_cons_self
  rcases mem_toString mem with sign | digit
  · exact letter sign
  · rw [letter'] at digit
    cases digit

/-- The word tells what the first expression is, up to the field of the context. -/
theorem headWord_inj (head : IsHead context e) (head' : IsHead context e')
    (same : headWord e = headWord e') :
    e = e' ∨ ∃ name name', isMemberName name = true ∧ isMemberName name' = true ∧
      e = .ctx name context ∧ e' = .ctx name' context := by
  cases head with
  | number n =>
    cases head' with
    | number n' => exact .inl (by rw [Int.repr_injective (String.toList_inj.mp same)])
    | flag b => cases b <;> exact absurd same.symm (headWord_ne_number (by decide) rfl)
    | _ => exact absurd same.symm (headWord_ne_number (by decide) rfl)
  | flag b =>
    cases head' with
    | number n => cases b <;> exact absurd same (headWord_ne_number (by decide) rfl)
    | flag b' => cases b <;> cases b' <;> first | exact .inl rfl | cases same
    | _ => cases b <;> cases same
  | self =>
    cases head' with
    | self => exact .inl rfl
    | number n => exact absurd same (headWord_ne_number (by decide) rfl)
    | flag b => cases b <;> cases same
    | ctx named => cases same
  | ctx named =>
    cases head' with
    | self => cases same
    | number n => exact absurd same (headWord_ne_number (by decide) rfl)
    | flag b => cases b <;> cases same
    | ctx named' => exact .inr ⟨_, _, named, named', rfl, rfl⟩

/-- The first expression can be read off a text. -/
theorem head_inj {h h' : Expr} (head : IsHead context h) (head' : IsHead context h')
    (goesOn : GoesOn r) (goesOn' : GoesOn r') (same : spelled s h ++ r = spelled s h' ++ r') :
    h = h' ∧ r = r' := by
  have dotted : ∀ {h : Expr} {r : List Char}, IsHead context h → GoesOn r →
      ∀ c ∈ (headRest h ++ r).head?, isMark c = true := by
    intro h r head goesOn
    cases head with
    | ctx named => simp [headRest, isMark]
    | _ => exact goesOn.isMark
  rw [spelled_head head, spelled_head head', append_assoc, append_assoc] at same
  obtain ⟨words, rests⟩ := word_inj (isMark_headWord head) (isMark_headWord head')
    (dotted head goesOn) (dotted head' goesOn') same
  rcases headWord_inj head head' words with rfl | ⟨name, name', named, named', rfl, rfl⟩
  · exact ⟨rfl, append_cancel_left rests⟩
  · obtain ⟨rfl, last⟩ :=
      name_inj named named' goesOn.isMark goesOn'.isMark (List.cons.inj rests).2
    exact ⟨rfl, last⟩

/-! ## Reading step by step -/

/-- An expression can be read off a text. -/
def Readable (s : Store) (context : TypeRef) (e : Expr) : Prop :=
  ∀ r e' r', Simple context e' → GoesOn r → Closes r' → spelled s e ++ r = spelled s e' ++ r' →
    ∃ w, Leads s context e w e' ∧ r = w ++ r'

theorem readable_head (head : IsHead context e) : Readable s context e := by
  intro r e' r' simple goesOn closes same
  obtain ⟨h, w, head', leads, spelling⟩ := exists_head simple
  rw [spelling, append_assoc] at same
  obtain ⟨rfl, rest⟩ := head_inj head head' goesOn (leads.goesOn closes) same
  exact ⟨w, leads, rest⟩

/-- An argument ends where a comma or a parenthesis follows. -/
theorem Readable.argument {a b : String × Expr} (readable : Readable s context a.2)
    (simple : Simple context b.2) (name : IsArgumentName a.1) (name' : IsArgumentName b.1)
    (closes : Closes r) (closes' : Closes r')
    (same : spelledArgument s a ++ r = spelledArgument s b ++ r') : a = b ∧ r = r' := by
  simp only [spelledArgument, append_assoc, cons_append] at same
  obtain ⟨names, values⟩ := append_stop_inj (bne_of_not_mem name.1) (by simp)
    (bne_of_not_mem name'.1) (by simp) same
  obtain ⟨w, leads, rest⟩ := readable r b.2 r' simple closes.goesOn closes' (List.cons.inj values).2
  obtain ⟨value, rfl⟩ := leads.eq_of_closes (rest ▸ closes)
  exact ⟨Prod.ext (String.toList_inj.mp names) value, rest⟩

theorem further_inj {args args' : List (String × Expr)}
    (readable : ∀ a ∈ args, Readable s context a.2) (simple : ∀ a ∈ args', Simple context a.2)
    (names : ∀ a ∈ args, IsArgumentName a.1) (names' : ∀ a ∈ args', IsArgumentName a.1)
    (same : further s args ++ r = further s args' ++ r') : args = args' ∧ r = r' := by
  induction args generalizing args' with
  | nil =>
    cases args' with
    | nil => simpa [further] using same
    | cons b args' => simp [further] at same
  | cons a args ih =>
    cases args' with
    | nil => simp [further] at same
    | cons b args' =>
      rw [forall_mem_cons] at readable simple names names'
      have inner : spelledArgument s a ++ (further s args ++ r)
          = spelledArgument s b ++ (further s args' ++ r') := by
        simpa [further] using same
      obtain ⟨rfl, rest⟩ := readable.1.argument simple.1 names.1 names'.1 (closes_further args)
        (closes_further args') inner
      obtain ⟨rfl, rest'⟩ := ih readable.2 simple.2 names.2 names'.2 rest
      exact ⟨rfl, rest'⟩

/-- Arguments in parentheses can be read off a text if each of them can. -/
theorem enclosed_inj {args args' : List (String × Expr)}
    (readable : ∀ a ∈ args, Readable s context a.2) (simple : ∀ a ∈ args', Simple context a.2)
    (names : ∀ a ∈ args, IsArgumentName a.1) (names' : ∀ a ∈ args', IsArgumentName a.1)
    (same : enclosed s args ++ r = enclosed s args' ++ r') : args = args' ∧ r = r' := by
  have closing : ∀ {a : String × Expr} {cs : List Char}, IsArgumentName a.1 →
      (spelledArgument s a ++ cs).head? ≠ some ')' := by
    intro a cs named
    rw [spelledArgument]
    cases chars : a.1.toList with
    | nil => simp
    | cons c rest => simpa [IsArgumentName, chars] using named.2
  cases args with
  | nil =>
    cases args' with
    | nil => exact ⟨rfl, append_cancel_left same⟩
    | cons b args' =>
      rw [enclosed_cons, append_assoc] at same
      exact absurd (congrArg List.head? same).symm (closing (names' b mem_cons_self))
  | cons a args =>
    cases args' with
    | nil =>
      rw [enclosed_cons, append_assoc] at same
      exact absurd (congrArg List.head? same) (closing (names a mem_cons_self))
    | cons b args' =>
      have inner : further s (a :: args) ++ r = further s (b :: args') ++ r' := by
        rw [enclosed_cons, enclosed_cons] at same
        simpa [further] using same
      exact further_inj readable simple names names' inner

/-- Where a name follows a dot, the steps start with that name, as a field or as a method. -/
theorem Leads.first_step (leads : Leads s context e w e') (closes : Closes r')
    (named : isMemberName name = true) (stop : ∀ c ∈ r.head?, isMark c = true)
    (same : '.' :: (name.toList ++ r) = w ++ r') :
    (∃ w', Leads s context (.field e name) w' e' ∧ r = w' ++ r') ∨
    ∃ args w', (∀ a ∈ args, IsArgumentName a.1) ∧ (∀ a ∈ args, Simple context a.2) ∧
      Leads s context (.method e name args) w' e' ∧ r = '(' :: (enclosed s args ++ (w' ++ r')) := by
  cases leads with
  | done =>
    rw [nil_append] at same
    simp [Closes, ← same] at closes
  | field named' steps =>
    simp only [cons_append, append_assoc, List.cons.injEq, true_and] at same
    obtain ⟨rfl, rest⟩ := name_inj named named' stop (steps.goesOn closes).isMark same
    exact .inl ⟨_, steps, rest⟩
  | method named' names each steps =>
    simp only [cons_append, append_assoc, List.cons.injEq, true_and] at same
    obtain ⟨rfl, rest⟩ := name_inj named named' stop (by simp [isMark]) same
    exact .inr ⟨_, _, names, each, steps, rest⟩

/-- A step can be read off a text if what comes before it can. -/
theorem readable_of_simple (simple : Simple context e) : Readable s context e := by
  induction simple with
  | head head => exact readable_head head
  | field of named ih =>
    intro r e' r' simple goesOn closes same
    rw [spelled_field of, append_assoc, cons_append] at same
    obtain ⟨w, leads, rest⟩ := ih _ e' r' simple (by simp [GoesOn]) closes same
    rcases leads.first_step closes named goesOn.isMark rest with
      field | ⟨args, w', -, -, -, opens⟩
    · exact field
    · simp [GoesOn, opens] at goesOn
  | method of named names each ih ihArgs =>
    intro r e' r' simple goesOn closes same
    rw [spelled_method of _ each, append_assoc, cons_append, append_assoc,
      cons_append] at same
    obtain ⟨w, leads, rest⟩ := ih _ e' r' simple (by simp [GoesOn]) closes same
    rcases leads.first_step closes named (by simp [isMark]) rest with
      ⟨w', steps, opens⟩ | ⟨args', w', names', each', steps, inner⟩
    · have goesOn' := steps.goesOn closes
      simp [GoesOn, ← opens] at goesOn'
    · obtain ⟨rfl, last⟩ := enclosed_inj ihArgs each' names names' (List.cons.inj inner).2
      exact ⟨w', steps, last⟩

/-- Expressions of one context that have the same text are the same. -/
theorem expr_injective (s : Store) (context : TypeRef) (e e' : Expr) (simple : Simple context e)
    (simple' : Simple context e') :
    (∃ text, expr s e = .ok text) ∧ (expr s e = expr s e' → e = e') := by
  refine ⟨expr_of_simple simple, fun same => ?_⟩
  have spelling : spelled s e ++ [] = spelled s e' ++ [] := by
    rw [spelled, spelled, same]
  obtain ⟨w, leads, rest⟩ := readable_of_simple simple [] e' [] simple' closes_nil.goesOn closes_nil
    spelling
  exact (leads.eq_of_closes (rest ▸ closes_nil)).1

/-- The parenthesis alone tells whether a field is taken of the argument or of the result. -/
theorem expr_injective_closing :
    expr .initial (.field (.method .self "offset" [("by", .self)]) "size")
      ≠ expr .initial (.method .self "offset" [("by", .field .self "size")]) := by
  intro same
  have words : isMemberName "offset" = true ∧ isMemberName "size" = true := by
    decide
  have argument : IsArgumentName "by" := isArgumentName_of_isMemberName (by decide)
  have result : Simple .context (.field (.method .self "offset" [("by", .self)]) "size") :=
    .field (.method (.head .self) words.1 (by simpa using argument) (by simpa using .head .self))
      words.2
  have inner : Simple .context (.method .self "offset" [("by", .field .self "size")]) :=
    .method (.head .self) words.1 (by simpa using argument)
      (by simpa using .field (.head .self) words.2)
  cases (expr_injective .initial .context _ _ result inner).2 same

end PacketDraft.Render.Plain
