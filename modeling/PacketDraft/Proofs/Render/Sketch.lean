import PacketDraft.Description.Build
import PacketDraft.Proofs.Description.Lexeme
import PacketDraft.Proofs.Protocol.Typing
import PacketDraft.Render.Rust.Expr

/-!
# What a rendered condition still says

An expression that is built from a formula stands for a formula about field names. Rendering it leaves
a sketch of that formula: numbers, fields and eleven operations are written out, and the sizes of
fields, the fields of fields and the other operations are not. The main result: two rendered
expressions are the same text if and only if they have the same sketch, so nothing is lost of formulas
that are written out everywhere.
-/

namespace PacketDraft.Render.Rust

open Attempt (bind_eq_ok pure_eq_ok)
open Description Protocol List
open Grammar.Parser (forall_head_cons append_stop_inj bne_of_not_mem)

variable {f : Formula} {rest rest' : List Char}

/-! ## Expressions that are built -/

/-- Expressions that are built from a formula, whatever the tables and the store. -/
def IsBuilt (e : Expr) : Prop :=
  ∃ build struct g w w', buildExpr build struct g w = (.ok e, w')

/-- The formula about names of fields that an expression stands for. -/
inductive StandsFor : Expr → Formula → Prop
  | number (t : TypeRef) (n : Nat) : StandsFor (.const t (.int n)) (.number n)
  | field (x : String) : StandsFor (.method (.field .self x) "to_number" []) (.field x)
  | sizeOf (x : String) : StandsFor (.method (.field .self x) "size" []) (.sizeOf x)
  | member (x y : String) :
      StandsFor (.method (.field (.field .self x) y) "to_number" []) (.member x y)
  | binary {l r : Expr} {f g : Formula} (op : Operator) (left : StandsFor l f)
      (right : StandsFor r g) : StandsFor (.method l op.method [("other", r)]) (.binary op f g)

theorem IsBuilt.standsFor {e : Expr} (built : IsBuilt e) : ∃ f, StandsFor e f := by
  obtain ⟨build, struct, g, w, w', built⟩ := built
  induction g generalizing e w w' with
  | number n =>
    obtain ⟨t, _, -, rest⟩ := bind_eq_ok.mp built
    obtain ⟨rfl, -⟩ := pure_eq_ok.mp rest
    exact ⟨_, .number t n⟩
  | field label | sizeOf label =>
    obtain ⟨access, _, named, rest⟩ := bind_eq_ok.mp built
    obtain ⟨rfl, -⟩ := pure_eq_ok.mp rest
    obtain ⟨x, _, -, rest⟩ := bind_eq_ok.mp named
    obtain ⟨rfl, -⟩ := pure_eq_ok.mp rest
    exact ⟨_, by constructor⟩
  | member label inner =>
    obtain ⟨x, _, -, rest⟩ := bind_eq_ok.mp built
    obtain ⟨_, _, -, rest⟩ := bind_eq_ok.mp rest
    obtain ⟨y, _, -, rest⟩ := bind_eq_ok.mp rest
    obtain ⟨rfl, -⟩ := pure_eq_ok.mp rest
    exact ⟨_, .member x y⟩
  | binary op left right ihLeft ihRight =>
    obtain ⟨l, _, first, rest⟩ := bind_eq_ok.mp built
    obtain ⟨r, _, second, rest⟩ := bind_eq_ok.mp rest
    obtain ⟨rfl, -⟩ := pure_eq_ok.mp rest
    obtain ⟨f, stands⟩ := ihLeft _ _ first
    obtain ⟨g, stands'⟩ := ihRight _ _ second
    exact ⟨_, .binary op stands stands'⟩

/-! ## Sketches -/

/-- The operations that are written out. -/
inductive Sign where
  | multiply | divide | minus | plus | ge | gt | eq | ne | and | or | pow
  deriving DecidableEq, Repr

/-- How an operation is written out, if it is. -/
def sign? : Operator → Option Sign
  | .multiply => some .multiply
  | .divide => some .divide
  | .minus => some .minus
  | .plus => some .plus
  | .ge => some .ge
  | .gt => some .gt
  | .eq => some .eq
  | .ne => some .ne
  | .and => some .and
  | .or => some .or
  | .pow => some .pow
  | .lt | .le | .modulo | .not => none

namespace Sign

/-- What stands between the operands. -/
def between : Sign → String
  | multiply => "*" | divide => "/" | minus => "-" | plus => " + " | ge => " >= " | gt => " > "
  | eq => " == " | ne => " != " | and => " && " | or => " || " | pow => ".pow("

/-- What stands behind the second operand. -/
def behind : Sign → String
  | pow => "))"
  | _ => ")"

/-- The operation whose text stands at the start. -/
def read? : List Char → Option Sign
  | '*' :: _ => some multiply
  | '/' :: _ => some divide
  | '-' :: _ => some minus
  | '.' :: _ => some pow
  | ' ' :: '+' :: _ => some plus
  | ' ' :: '&' :: _ => some and
  | ' ' :: '|' :: _ => some or
  | ' ' :: '=' :: _ => some eq
  | ' ' :: '!' :: _ => some ne
  | ' ' :: '>' :: '=' :: _ => some ge
  | ' ' :: '>' :: _ => some gt
  | _ => none

theorem read?_between (g : Sign) (rest : List Char) : read? (g.between.toList ++ rest) = some g := by
  cases g <;> rfl

end Sign

/-- The operation that is written out. -/
def Sign.operator : Sign → Operator
  | multiply => .multiply | divide => .divide | minus => .minus | plus => .plus | ge => .ge | gt => .gt
  | eq => .eq | ne => .ne | and => .and | or => .or | pow => .pow

theorem eq_operator {op : Operator} {g : Sign} (known : sign? op = some g) : op = g.operator := by
  cases op <;> cases known <;> rfl

/-- What is left of a formula. -/
inductive Sketch where
  /-- An empty text. -/
  | nothing
  /-- A field without its name. -/
  | unnamed
  | number (n : Nat)
  | field (x : String)
  | binary (g : Sign) (left right : Sketch)
  deriving DecidableEq, Repr

/-- What rendering leaves of a formula. -/
def sketch : Formula → Sketch
  | .number n => .number n
  | .field x => .field x
  | .sizeOf _ => .nothing
  | .member _ _ => .unnamed
  | .binary op l r =>
    match sign? op with
    | some g => .binary g (sketch l) (sketch r)
    | none => .nothing

namespace Sketch

/-- The text of a sketch. -/
def text : Sketch → List Char
  | nothing => []
  | unnamed => ['N', 'o', 'n', 'e']
  | number n => Nat.toDigits 10 n
  | field x => ['s', 'e', 'l', 'f', '('] ++ (x.toList ++ [')'])
  | binary g l r => '(' :: (l.text ++ (g.between.toList ++ (r.text ++ g.behind.toList)))

/-- No closing parenthesis stands in a name. -/
def Named : Sketch → Prop
  | field x => ')' ∉ x.toList
  | binary _ l r => l.Named ∧ r.Named
  | _ => True

end Sketch

/-! ## Rendering -/

theorem operation_written {op : Operator} {g : Sign} (known : sign? op = some g) (t a : Rendered) :
    operation t op.method [a]
      = .ok (.text ("(" ++ t.shown ++ g.between ++ a.shown ++ g.behind)) := by
  cases op <;> cases known <;> rfl

theorem operation_lost {op : Operator} (lost : sign? op = none) (t a : Rendered) :
    operation t op.method [a] = .ok (.text "") := by
  cases op <;> cases lost <;> rfl

theorem shown_text (text : String) : (Rendered.text text).shown = text := rfl

theorem toList_toString (n : Nat) : (toString (n : Int)).toList = Nat.toDigits 10 n :=
  Nat.toList_repr

/-- Rendering succeeds and leaves the sketch. -/
theorem expr_eq_sketch (s : Store) {e : Expr} (stands : StandsFor e f) :
    ∃ r, expr s e = .ok r ∧ r.shown.toList = (sketch f).text := by
  induction stands with
  | number t n =>
    by_cases own : s.same t .number = true
    · refine ⟨.number n, ?_, toList_toString n⟩
      rw [expr, if_pos own]
      rfl
    · refine ⟨.text (Literal.int n).asText, ?_, toList_toString n⟩
      rw [expr, if_neg own]
  | field x =>
    refine ⟨.text ("self(" ++ x ++ ")"), rfl, ?_⟩
    simp [shown_text, sketch, Sketch.text]
  | sizeOf x => exact ⟨.text "", rfl, rfl⟩
  | member x y => exact ⟨.text "None", rfl, rfl⟩
  | @binary l r f g op _ _ ihLeft ihRight =>
    obtain ⟨t, left, shown⟩ := ihLeft
    obtain ⟨a, right, shown'⟩ := ihRight
    have whole : expr s (.method l op.method [("other", r)]) = operation t op.method [a] := by
      rw [expr, arguments, arguments, left, right]
      rfl
    rw [whole]
    cases known : sign? op with
    | some g =>
      refine ⟨_, operation_written known t a, ?_⟩
      simp [shown_text, sketch, known, Sketch.text, shown, shown']
    | none =>
      refine ⟨_, operation_lost known t a, ?_⟩
      simp [shown_text, sketch, known, Sketch.text]

/-! ## Texts of sketches -/

namespace Sketch

/-- The kinds of characters that sketches start with. -/
def charKind (c : Char) : Nat :=
  if isDigit c then 1 else if c = 'N' then 2 else if c = 's' then 3 else if c = '(' then 4 else 0

/-- What a text starts with. -/
def startKind (cs : List Char) : Nat :=
  (cs.head?.map charKind).getD 0

/-- The kind of character that a sketch starts with. -/
def kind : Sketch → Nat
  | nothing => 0
  | number _ => 1
  | unnamed => 2
  | field _ => 3
  | binary _ _ _ => 4

theorem startKind_text (k : Sketch) (stop : startKind rest = 0) :
    startKind (k.text ++ rest) = k.kind := by
  cases k with
  | nothing => exact stop
  | unnamed => rfl
  | number n =>
    obtain ⟨c, cs, digits⟩ := exists_cons_of_ne_nil (Nat.toDigits_ne_nil (n := n) (b := 10))
    have digit : isDigit c = true := isDigit_of_mem_toDigits (n := n) (by simp [digits])
    simp [text, digits, startKind, charKind, digit, kind]
  | field x => rfl
  | binary g l r => rfl

theorem isDigit_of_stop (stop : startKind rest = 0) : ∀ c ∈ rest.head?, isDigit c = false := by
  intro c head
  cases digit : isDigit c with
  | false => rfl
  | true => simp [startKind, Option.mem_def.mp head, charKind, digit] at stop

theorem startKind_between (g : Sign) (rest : List Char) : startKind (g.between.toList ++ rest) = 0 := by
  cases g <;> rfl

theorem startKind_behind (g : Sign) (rest : List Char) : startKind (g.behind.toList ++ rest) = 0 := by
  cases g <;> rfl

theorem kind_eq {k k' : Sketch} (stop : startKind rest = 0) (stop' : startKind rest' = 0)
    (same : k.text ++ rest = k'.text ++ rest') : k.kind = k'.kind := by
  rw [← startKind_text k stop, ← startKind_text k' stop', same]

theorem toDigits_append_inj {n n' : Nat} (stop : startKind rest = 0) (stop' : startKind rest' = 0)
    (same : Nat.toDigits 10 n ++ rest = Nat.toDigits 10 n' ++ rest') : n = n' := by
  have digits := append_stop_inj (fun _ mem => isDigit_of_mem_toDigits mem) (isDigit_of_stop stop)
    (fun _ mem => isDigit_of_mem_toDigits mem) (isDigit_of_stop stop') same
  rw [← digitsValue_toDigits n, digits.1, digitsValue_toDigits]

theorem name_append_inj {x x' : String} {rest rest' : List Char} (named : ')' ∉ x.toList)
    (named' : ')' ∉ x'.toList) (same : x.toList ++ ')' :: rest = x'.toList ++ ')' :: rest') :
    x = x' := by
  have names := append_stop_inj (bne_of_not_mem named) (forall_head_cons (by decide))
    (bne_of_not_mem named') (forall_head_cons (by decide)) same
  exact String.toList_inj.mp names.1

/-- A sketch can be read off the start of a text, and what follows it is then known. -/
theorem text_append_inj {k k' : Sketch} (named : k.Named) (named' : k'.Named)
    (stop : startKind rest = 0) (stop' : startKind rest' = 0)
    (same : k.text ++ rest = k'.text ++ rest') : k = k' ∧ rest = rest' := by
  have kinds := kind_eq stop stop' same
  -- Both start with a character of the same kind, so both are built in the same way.
  induction k generalizing k' rest rest' with
  | nothing =>
    cases k' with
    | nothing => exact ⟨rfl, same⟩
    | _ => simp [kind] at kinds
  | unnamed =>
    cases k' with
    | unnamed => exact ⟨rfl, append_cancel_left same⟩
    | _ => simp [kind] at kinds
  | number n =>
    cases k' with
    | number n' =>
      obtain rfl := toDigits_append_inj stop stop' same
      exact ⟨rfl, append_cancel_left same⟩
    | _ => simp [kind] at kinds
  | field x =>
    cases k' with
    | field x' =>
      have inner : x.toList ++ ')' :: rest = x'.toList ++ ')' :: rest' := by
        simpa [text] using same
      obtain rfl := name_append_inj named named' inner
      exact ⟨rfl, append_cancel_left same⟩
    | _ => simp [kind] at kinds
  | binary g l r ihLeft ihRight =>
    cases k' with
    | binary g' l' r' =>
      have inner : l.text ++ (g.between.toList ++ (r.text ++ (g.behind.toList ++ rest)))
          = l'.text ++ (g'.between.toList ++ (r'.text ++ (g'.behind.toList ++ rest'))) := by
        simpa [text] using same
      have stopped := startKind_between g (r.text ++ (g.behind.toList ++ rest))
      have stopped' := startKind_between g' (r'.text ++ (g'.behind.toList ++ rest'))
      obtain ⟨rfl, signs⟩ :=
        ihLeft named.1 named'.1 stopped stopped' inner (kind_eq stopped stopped' inner)
      have operators : Sign.read? (g.between.toList ++ (r.text ++ (g.behind.toList ++ rest))) = _ :=
        congrArg Sign.read? signs
      rw [Sign.read?_between, Sign.read?_between] at operators
      cases operators
      have last := append_cancel_left signs
      have closed := startKind_behind g rest
      have closed' := startKind_behind g rest'
      obtain ⟨rfl, ends⟩ :=
        ihRight named.2 named'.2 closed closed' last (kind_eq closed closed' last)
      exact ⟨rfl, append_cancel_left ends⟩
    | _ => simp [kind] at kinds

theorem text_inj {k k' : Sketch} (named : k.Named) (named' : k'.Named) :
    k.text = k'.text ↔ k = k' := by
  constructor
  · intro same
    have longer : k.text ++ [] = k'.text ++ [] := by rw [same]
    exact (text_append_inj named named' rfl rfl longer).1
  · intro same
    rw [same]

end Sketch

/-! ## Names of fields -/

/-- The fields of structures have valid names. -/
def FieldsNamed (s : Store) : Prop :=
  ∀ ms ∈ s.groups, ∀ field ∈ ms.fields, isMemberName field.name = true

theorem mem_dropFinalNewline {c : Char} {cs : List Char} (mem : c ∈ cs) :
    c = '\n' ∨ c ∈ dropFinalNewline cs := by
  unfold dropFinalNewline
  split
  · next last =>
    rw [← dropLast_append_getLast? _ (Option.mem_def.mpr last), mem_append,
      mem_singleton] at mem
    exact mem.symm
  · exact .inr mem

/-- The characters of a name: it may end in a newline. -/
theorem mem_of_isMemberName {x : String} {c : Char} (named : isMemberName x = true)
    (mem : c ∈ x.toList) : isNameChar c = true ∨ c = '\n' := by
  unfold isMemberName isNameFrom at named
  split at named
  · cases named
  · next first cs letters =>
    simp only [Bool.and_eq_true, decide_eq_true_eq, all_eq_true] at named
    rw [letters] at mem
    rcases mem_cons.mp mem with rfl | inside
    · simp [isNameChar, named.1.1]
    · exact (mem_dropFinalNewline inside).symm.imp_left (named.2 c)

theorem not_mem_of_isMemberName {x : String} (named : isMemberName x = true) : ')' ∉ x.toList := by
  intro mem
  rcases mem_of_isMemberName named mem with own | own <;> exact absurd own (by decide)

variable {s : Store} {c t : TypeRef}

/-- A field that is read from a structure has a valid name. -/
theorem isMemberName_of_typed (named : FieldsNamed s) {target : Expr} {x : String}
    (typed : s.resultType c (.field target x) = .ok t) : isMemberName x = true := by
  obtain ⟨u, -, struct, found⟩ := Store.resultType_field_eq_ok.mp typed
  obtain ⟨e, entry, form⟩ := Store.isStruct_eq_true.mp struct
  obtain ⟨e', entry', own | other⟩ := Store.fieldType_eq_ok.mp found
  · obtain ⟨-, known⟩ := own
    obtain ⟨field, first, -⟩ := Option.map_eq_some_iff.mp known
    have name : field.name = x := by simpa using List.find?_some first
    have mem := mem_of_find?_eq_some first
    unfold Store.members at mem
    cases group : s.groups[e'.group]? with
    | none => simp [group] at mem
    | some ms =>
      rw [group] at mem
      exact name ▸ named ms (mem_of_getElem? group) field mem
  · cases entry.symm.trans entry'
    rw [form] at other
    cases other.1

theorem named_of_typed (named : FieldsNamed s) {e : Expr} (stands : StandsFor e f)
    (typed : s.resultType c e = .ok t) : (sketch f).Named := by
  induction stands generalizing t with
  | number | sizeOf | member => trivial
  | field x =>
    obtain ⟨_, -, u, target, -⟩ := Store.resultType_method_eq_ok.mp typed
    exact not_mem_of_isMemberName (isMemberName_of_typed named target)
  | binary op _ _ ihLeft ihRight =>
    obtain ⟨types, args, u, target, -⟩ := Store.resultType_method_eq_ok.mp typed
    obtain ⟨v, second, -⟩ := Store.argumentTypes_cons_eq_ok.mp args
    unfold sketch
    split
    · exact ⟨ihLeft target, ihRight second⟩
    · trivial

/-! ## Formulas that are written out -/

/-- Whether all of a formula is written out. -/
def isLegible : Formula → Bool
  | .number _ | .field _ => true
  | .sizeOf _ | .member _ _ => false
  | .binary op l r => (sign? op).isSome && isLegible l && isLegible r

/-- The fields that a formula is about. -/
def fieldsOf : Formula → List String
  | .number _ => []
  | .field x | .sizeOf x => [x]
  | .member x y => [x, y]
  | .binary _ l r => fieldsOf l ++ fieldsOf r

/-- The numbers in a formula. -/
def numbersOf : Formula → List Nat
  | .number n => [n]
  | .binary _ l r => numbersOf l ++ numbersOf r
  | _ => []

/-- The formula of a sketch that nothing is missing from. -/
def Sketch.whole? : Sketch → Option Formula
  | nothing | unnamed => none
  | number n => some (.number n)
  | field x => some (.field x)
  | binary g l r => do
    let left ← l.whole?
    let right ← r.whole?
    return .binary g.operator left right

theorem whole?_sketch (f : Formula) :
    (sketch f).whole? = if isLegible f then some f else none := by
  induction f with
  | number | field | sizeOf | member => rfl
  | binary op l r ihLeft ihRight =>
    cases known : sign? op with
    | none => simp [sketch, known, Sketch.whole?, isLegible]
    | some g =>
      obtain rfl := eq_operator known
      simp only [sketch, known, Sketch.whole?, ihLeft, ihRight, isLegible]
      cases isLegible l <;> cases isLegible r <;> simp

/-- The sketch of a formula that is written out is the sketch of no other formula. -/
theorem sketch_inj {f' : Formula} (legible : isLegible f = true) : sketch f = sketch f' ↔ f = f' := by
  constructor
  · intro same
    have whole := whole?_sketch f'
    rw [← same, whole?_sketch f, if_pos legible] at whole
    split at whole
    · exact Option.some_inj.mp whole
    · cases whole
  · intro same
    rw [same]

/-- All other formulas share their sketch. -/
theorem exists_alike (lost : isLegible f = false) : ∃ g, g ≠ f ∧ sketch g = sketch f := by
  induction f with
  | number | field => cases lost
  | sizeOf x => exact ⟨.binary .lt (.number 0) (.number 0), nofun, rfl⟩
  | member x y =>
    by_cases same : x = ""
    · exact ⟨.member "other" y, by simp [same], rfl⟩
    · exact ⟨.member "" y, by simpa using Ne.symm same, rfl⟩
  | binary op l r ihLeft ihRight =>
    cases known : sign? op with
    | none => exact ⟨.sizeOf "", nofun, by simp [sketch, known]⟩
    | some g =>
      cases left : isLegible l with
      | false =>
        obtain ⟨l', other, same⟩ := ihLeft left
        exact ⟨.binary op l' r, by simp [other], by simp [sketch, known, same]⟩
      | true =>
        cases right : isLegible r with
        | false =>
          obtain ⟨r', other, same⟩ := ihRight right
          exact ⟨.binary op l r', by simp [other], by simp [sketch, known, same]⟩
        | true => simp [isLegible, known, left, right] at lost

theorem within_left {part : List Char} {l : Sketch} (g : Sign) (r : Sketch)
    (within : part <:+: l.text) : part <:+: (Sketch.binary g l r).text :=
  within.trans ⟨['('], g.between.toList ++ (r.text ++ g.behind.toList), by simp [Sketch.text]⟩

theorem within_right {part : List Char} {r : Sketch} (g : Sign) (l : Sketch)
    (within : part <:+: r.text) : part <:+: (Sketch.binary g l r).text :=
  within.trans ⟨'(' :: (l.text ++ g.between.toList), g.behind.toList, by simp [Sketch.text]⟩

/-- A formula that is written out mentions all of its fields and numbers. -/
theorem mentions_of_isLegible (legible : isLegible f = true) :
    (∀ x ∈ fieldsOf f, ("self(" ++ x ++ ")").toList <:+: (sketch f).text) ∧
      ∀ n ∈ numbersOf f, Nat.toDigits 10 n <:+: (sketch f).text := by
  induction f with
  | number n => simp [fieldsOf, numbersOf, sketch, Sketch.text]
  | field x => simp [fieldsOf, numbersOf, sketch, Sketch.text]
  | sizeOf | member => cases legible
  | binary op l r ihLeft ihRight =>
    simp only [isLegible, Bool.and_eq_true] at legible
    obtain ⟨⟨written, left⟩, right⟩ := legible
    obtain ⟨g, known⟩ := Option.isSome_iff_exists.mp written
    have whole : sketch (.binary op l r) = .binary g (sketch l) (sketch r) := by
      simp only [sketch, known]
    rw [whole]
    constructor
    · intro x mem
      rcases mem_append.mp mem with first | second
      · exact within_left g _ ((ihLeft left).1 x first)
      · exact within_right g _ ((ihRight right).1 x second)
    · intro n mem
      rcases mem_append.mp mem with first | second
      · exact within_left g _ ((ihLeft left).2 n first)
      · exact within_right g _ ((ihRight right).2 n second)

/-! ## The main result -/

/-- What the rendering of an expression says, if it is built from a formula and has a type. Two such
expressions are rendered alike if and only if their formulas have the same sketch. A formula that is
written out can be told from every other one, and all its fields and numbers are mentioned; a formula
with an upper bound, a remainder, a negation, a size or a field of a field cannot be told from some
other one. -/
theorem rendering_alike_iff {c' t' : TypeRef} {e e' : Expr} (named : FieldsNamed s)
    (built : IsBuilt e) (built' : IsBuilt e') (typed : s.resultType c e = .ok t)
    (typed' : s.resultType c' e' = .ok t') :
    (∃ f, StandsFor e f) ∧ (∃ f', StandsFor e' f') ∧
    ∀ f f', StandsFor e f → StandsFor e' f' →
      ∃ r r', expr s e = .ok r ∧ expr s e' = .ok r' ∧
        (r.shown = r'.shown ↔ sketch f = sketch f') ∧
        (isLegible f = true →
          (r.shown = r'.shown ↔ f = f') ∧
          (∀ x ∈ fieldsOf f, ("self(" ++ x ++ ")").toList <:+: r.shown.toList) ∧
          ∀ n ∈ numbersOf f, Nat.toDigits 10 n <:+: r.shown.toList) ∧
        (isLegible f = false → ∃ g, g ≠ f ∧ sketch g = sketch f) := by
  refine ⟨built.standsFor, built'.standsFor, ?_⟩
  intro f f' stands stands'
  obtain ⟨r, rendered, text⟩ := expr_eq_sketch s stands
  obtain ⟨r', rendered', text'⟩ := expr_eq_sketch s stands'
  have alike : r.shown = r'.shown ↔ sketch f = sketch f' := by
    rw [← String.toList_inj, text, text']
    exact Sketch.text_inj (named_of_typed named stands typed) (named_of_typed named stands' typed')
  refine ⟨r, r', rendered, rendered', alike, ?_, exists_alike⟩
  intro legible
  rw [text]
  exact ⟨alike.trans (sketch_inj legible), mentions_of_isLegible legible⟩

/-- A store in which the structure `Packet` has the field `code`. -/
def packets : Store :=
  let fill : Change TypeRef := do
    let code ← makeBitString (some "Code") (some (constantSize (.int 8)))
    makeStruct (some "Packet") [⟨"code", code, .const .boolean (.flag true)⟩] [] []
  (fill Store.initial).2

/-- The structure `Packet`. -/
def packet : TypeRef :=
  .id 7

/-- A condition on `code`. -/
def onCode (op : Operator) (n : Nat) : Expr :=
  .method (.method (.field .self "code") "to_number" []) op.method
    [("other", .const .number (.int n))]

theorem fieldsNamed_packets : FieldsNamed packets := by
  unfold FieldsNamed
  decide

theorem isBuilt_onCode (op : Operator) (n : Nat) : IsBuilt (onCode op n) :=
  ⟨fun _ => pure .number, "Packet", .binary op (.field "code") (.number n),
    { tables := { structs := [("Packet", {})] } }, _, rfl⟩

/-- `code > 5` and `code >= 5` differ when they are rendered. -/
theorem rendering_alike_bounds :
    FieldsNamed packets ∧ IsBuilt (onCode .gt 5) ∧ IsBuilt (onCode .ge 5) ∧
      packets.resultType packet (onCode .gt 5) = .ok .boolean ∧
      packets.resultType packet (onCode .ge 5) = .ok .boolean ∧
      ∃ r r', expr packets (onCode .gt 5) = .ok r ∧ expr packets (onCode .ge 5) = .ok r' ∧
        r.shown ≠ r'.shown ∧ "self(code)".toList <:+: r.shown.toList := by
  have typed : packets.resultType packet (onCode .gt 5) = .ok .boolean := rfl
  have typed' : packets.resultType packet (onCode .ge 5) = .ok .boolean := rfl
  have stands (op : Operator) : StandsFor (onCode op 5) (.binary op (.field "code") (.number 5)) :=
    .binary op (.field "code") (.number .number 5)
  obtain ⟨-, -, told⟩ := rendering_alike_iff fieldsNamed_packets (isBuilt_onCode .gt 5)
    (isBuilt_onCode .ge 5) typed typed'
  obtain ⟨r, r', rendered, rendered', -, legible, -⟩ := told _ _ (stands .gt) (stands .ge)
  obtain ⟨apart, fields, -⟩ := legible rfl
  refine ⟨fieldsNamed_packets, isBuilt_onCode .gt 5, isBuilt_onCode .ge 5, typed, typed', r, r',
    rendered, rendered', ?_, fields "code" (by simp [fieldsOf])⟩
  rw [Ne, apart]
  decide

/-- `code < 5` and `code <= 5` are both rendered as an empty text. -/
theorem bounds_from_above_rendered_alike :
    Formula.formula.parse "code < 5".toList = .ok (.binary .lt (.field "code") (.number 5)) ∧
      Formula.formula.parse "code <= 5".toList = .ok (.binary .le (.field "code") (.number 5)) ∧
      IsBuilt (onCode .lt 5) ∧ IsBuilt (onCode .le 5) ∧ onCode .lt 5 ≠ onCode .le 5 ∧
      packets.resultType packet (onCode .lt 5) = .ok .boolean ∧
      packets.resultType packet (onCode .le 5) = .ok .boolean ∧
      expr packets (onCode .lt 5) = .ok (.text "") ∧ expr packets (onCode .le 5) = .ok (.text "") := by
  refine ⟨by cbv, by cbv, isBuilt_onCode .lt 5, isBuilt_onCode .le 5, ?_, rfl, rfl, rfl, rfl⟩
  simp [onCode, Operator.method]

end PacketDraft.Render.Rust
