import PacketDraft.Proofs.Formula.Writing

/-!
# Reading back written formulas

The grammar of formulas reads operands of six heights, each from operands of the height below and
operators of one rank. A spelling of a formula is read back to the formula at its own height if
nothing follows that a lower height would still take. The main statement is `formula_written`:
reading what was written gives the formula and leaves nothing.
-/

namespace PacketDraft.Description.Formula

open Grammar Grammar.Parser Text List

variable {rest s text ds : List Char} {f : Formula} {c : Char} {height : Nat} {name : String}
  {value : Parser Formula} {next : Parser (String × Formula)}

/-! ## Heights -/

/-- An operator of the rank just above a height, with its right operand. -/
def tailAt : Nat → Parser Formula → Parser (String × Formula)
  | 0 => powTail
  | 1 => productTail
  | 2 => sumTail
  | 3 => orderTail
  | 4 => logicTail
  | 5 => equalityTail
  | _ => fun _ => never

/-- An operand of a height. -/
def readAt (value : Parser Formula) : Nat → Parser Formula
  | 0 => value
  | height + 1 => ranked (readAt value height) (tailAt height)

theorem equalityOf_eq (value : Parser Formula) : equalityOf value = readAt value wholeHeight := rfl

/-- The characters that the operators of `tailAt` start with. -/
def opens : Nat → List Char
  | 0 => ['^']
  | 1 => ['*', '/', '%']
  | 2 => ['+', '-']
  | 3 => ['<', '>']
  | 4 => ['&', '|', '!']
  | 5 => ['=', '!']
  | _ => []

section Operators

variable {symbol meant : String} {op : Operator} {operand : Parser Formula}

theorem operation_unfit (h : lit symbol (s.dropWhile isBlank) = .unfit) :
    operation symbol meant operand s = .unfit := by
  unfold operation
  rw [bind_done (blanks_eq s), bind_unfit h]

theorem operation_unfit_of_first {d : Char} (start : symbol.toList = d :: ds)
    (differs : ∀ c ∈ (s.dropWhile isBlank).head?, c ≠ d) :
    operation symbol meant operand s = .unfit := by
  apply operation_unfit
  cases text : s.dropWhile isBlank with
  | nil => exact lit_unfit_nil start
  | cons c cs => exact lit_unfit_of_head start (differs c (by simp [text]))

/-- An operator that starts with another character is passed over. -/
theorem orElse_of_head {d : Char} (visible : isBlank c = false) (start : symbol.toList = d :: ds)
    (differs : c ≠ d) : (operation symbol meant operand <|> next) (c :: s) = next (c :: s) := by
  apply orElse_unfit
  apply operation_unfit
  rw [dropWhile_cons_of_neg (by simp [visible])]
  exact lit_unfit_of_head start differs

/-- An operator of two characters is passed over where only the first of them stands. -/
theorem orElse_of_second {e : Char} (visible : isBlank c = false)
    (start : symbol.toList = c :: e :: ds) (differs : ∀ d ∈ s.head?, d ≠ e) :
    (operation symbol meant operand <|> next) (c :: s) = next (c :: s) := by
  apply orElse_unfit
  apply operation_unfit
  rw [dropWhile_cons_of_neg (by simp [visible])]
  exact lit_unfit_of_second start differs

theorem operation_done (visible : ∀ c ∈ (symbol.toList ++ s).head?, isBlank c = false)
    (read : operand (s.dropWhile isBlank) = .done f rest) :
    operation symbol meant operand (symbol.toList ++ s) = .done (meant, f) rest := by
  unfold operation
  rw [bind_done (blanks_of_head visible), bind_done (lit_append symbol s),
    bind_done (blanks_eq s), bind_done read]
  rfl

theorem powTail_done (read : operand (s.dropWhile isBlank) = .done f rest) :
    powTail operand ('^' :: s) = .done ("^", f) rest := by
  have caret : lit "^" ('^' :: s) = .done "^" s := lit_of_eq rfl
  unfold powTail
  rw [bind_done caret, bind_done (blanks_eq s), bind_done read]
  rfl

/-- No operator fits where another character than its first one stands after the blanks. -/
theorem tailAt_unfit (h : ∀ c ∈ (s.dropWhile isBlank).head?, c ∉ opens height) :
    tailAt height operand s = .unfit := by
  have other : ∀ {d : Char}, d ∈ opens height → ∀ c ∈ (s.dropWhile isBlank).head?, c ≠ d := by
    intro d mem c head equal
    exact h c head (equal ▸ mem)
  have unfit : ∀ {symbol meant : String} {d : Char} {ds : List Char},
      symbol.toList = d :: ds → d ∈ opens height → operation symbol meant operand s = .unfit :=
    fun start mem => operation_unfit_of_first start (other mem)
  match height with
  | 0 =>
    apply bind_unfit
    cases s with
    | nil => exact lit_unfit_nil rfl
    | cons c cs =>
      refine lit_unfit_of_head rfl (fun caret => ?_)
      subst caret
      exact other (by decide) '^' rfl rfl
  | 1 =>
    refine orElse_both_unfit (unfit rfl (by decide)) ?_
    exact orElse_both_unfit (unfit rfl (by decide)) (unfit rfl (by decide))
  | 2 => exact orElse_both_unfit (unfit rfl (by decide)) (unfit rfl (by decide))
  | 3 =>
    refine orElse_both_unfit (unfit rfl (by decide)) ?_
    refine orElse_both_unfit (unfit rfl (by decide)) ?_
    exact orElse_both_unfit (unfit rfl (by decide)) (unfit rfl (by decide))
  | 4 =>
    refine orElse_both_unfit (unfit rfl (by decide)) ?_
    exact orElse_both_unfit (unfit rfl (by decide)) (unfit rfl (by decide))
  | 5 => exact orElse_both_unfit (unfit rfl (by decide)) (unfit rfl (by decide))
  | _ + 6 => rfl

/-- Characters that an operand can start with. -/
def startsOperand (c : Char) : Bool :=
  isLabelChar c || c == '('

theorem isBlank_of_startsOperand (h : startsOperand c = true) : isBlank c = false := by
  simp only [startsOperand, Bool.or_eq_true, beq_iff_eq] at h
  rcases h with label | rfl
  · exact isBlank_of_isLabelChar label
  · decide

theorem ne_equal_of_startsOperand (h : startsOperand c = true) : c ≠ '=' := by
  rintro rfl
  exact absurd h (by decide)

/-- The operator before an operand and its blanks is the one that is read: no operator that is looked
for earlier fits, because none of them continues with a blank or the first character of an operand. -/
theorem tailAt_symbol (notNe : op ≠ .ne) (notEqual : ∀ c ∈ s.head?, c ≠ '=')
    (read : operand (s.dropWhile isBlank) = .done f rest) :
    tailAt op.height operand (op.symbol.toList ++ s) = .done (op.symbol, f) rest := by
  have symbolVisible : ∀ d ∈ (op.symbol.toList ++ s).head?, isBlank d = false := by
    cases op <;> (intro d head; cases head; decide)
  have done : operation op.symbol op.symbol operand (op.symbol.toList ++ s)
      = .done (op.symbol, f) rest := operation_done symbolVisible read
  -- `<` and `>` are looked for after `<=` and `>=`; the others differ in the first character.
  cases op with
  | pow => exact powTail_done read
  | multiply => exact orElse_done done
  | divide =>
    refine (orElse_of_head (by decide) rfl (by decide)).trans ?_
    exact orElse_done done
  | modulo =>
    refine (orElse_of_head (by decide) rfl (by decide)).trans ?_
    exact (orElse_of_head (by decide) rfl (by decide)).trans done
  | plus => exact orElse_done done
  | minus => exact (orElse_of_head (by decide) rfl (by decide)).trans done
  | le => exact orElse_done done
  | lt =>
    refine (orElse_of_second (by decide) rfl notEqual).trans ?_
    exact orElse_done done
  | ge =>
    refine (orElse_of_head (by decide) rfl (by decide)).trans ?_
    refine (orElse_of_head (by decide) rfl (by decide)).trans ?_
    exact orElse_done done
  | gt =>
    refine (orElse_of_head (by decide) rfl (by decide)).trans ?_
    refine (orElse_of_head (by decide) rfl (by decide)).trans ?_
    exact (orElse_of_second (by decide) rfl notEqual).trans done
  | and => exact orElse_done done
  | or =>
    refine (orElse_of_head (by decide) rfl (by decide)).trans ?_
    exact orElse_done done
  | not =>
    refine (orElse_of_head (by decide) rfl (by decide)).trans ?_
    exact (orElse_of_head (by decide) rfl (by decide)).trans done
  | eq => exact orElse_done done
  | ne => exact absurd rfl notNe

end Operators

/-! ## What may follow an operand -/

/-- The texts that do not go on with a name or a call. -/
structure Closed (rest : List Char) : Prop where
  label : ∀ c ∈ rest.head?, isLabelChar c = false
  paren : ∀ c ∈ rest.head?, c ≠ '('
  member : ∀ {inner : List Char}, rest = '.' :: inner → ∀ c ∈ inner.head?, isLabelChar c = false

/-- The texts that do not go on with an operand of a height. -/
structure Ends (height : Nat) (rest : List Char) : Prop extends Closed rest where
  stops : ∀ low < height, ∀ operand : Parser Formula, tailAt low operand rest = .unfit

theorem Ends.mono {low high : Nat} (ends : Ends high rest) (le : low ≤ high) : Ends low rest :=
  ⟨ends.toClosed, fun k lt operand => ends.stops k (Nat.lt_of_lt_of_le lt le) operand⟩

theorem Closed.nil : Closed [] :=
  ⟨by simp, by simp, by simp⟩

theorem Closed.cons {c : Char} {rest : List Char} (label : isLabelChar c = false)
    (paren : c ≠ '(') (member : c ≠ '.') : Closed (c :: rest) := by
  refine ⟨forall_head_cons label, forall_head_cons paren, ?_⟩
  intro inner equal
  exact absurd (List.cons.inj equal).1 member

theorem ends_nil (height : Nat) : Ends height [] :=
  ⟨Closed.nil, fun _ _ _ => tailAt_unfit (by simp)⟩

theorem ends_paren (height : Nat) (rest : List Char) : Ends height (')' :: rest) := by
  refine ⟨Closed.cons (by decide) (by decide) (by decide), fun low _ operand => ?_⟩
  apply tailAt_unfit
  intro c head
  cases head
  match low with
  | 0 | 1 | 2 | 3 | 4 | 5 => decide
  | _ + 6 => exact not_mem_nil

/-- An operator ends every operand that it can stand behind. -/
theorem ends_symbol {op : Operator} (notNe : op ≠ .ne) (rest : List Char) :
    Ends op.height (op.symbol.toList ++ rest) := by
  have closed : Closed (op.symbol.toList ++ rest) := by
    cases op <;> exact Closed.cons (by decide) (by decide) (by decide)
  refine ⟨closed, fun low lt operand => ?_⟩
  apply tailAt_unfit
  intro c head
  cases op with
  | ne => exact absurd rfl notNe
  | _ =>
    cases head
    revert low
    decide

/-! ## Single operands -/

theorem sizeCall_unfit {name : String} {rest : List Char} (label : isLabel name)
    (stop : ∀ c ∈ rest.head?, isLabelChar c = false) (paren : ∀ c ∈ rest.head?, c ≠ '(') :
    sizeCall (name.toList ++ rest) = .unfit := by
  apply bind_unfit
  apply lit_unfit
  intro inner equal
  have letters : "size".toList.all isLabelChar = true := by decide
  -- The word before the parenthesis is the whole name, so the parenthesis would follow the name.
  have after : rest = '(' :: inner := by
    rw [← dropWhile_append_stop (fun _ mem => isLabelChar_of_mem label mem) stop, equal]
    exact dropWhile_append_stop (all_eq_true.mp letters) (forall_head_cons (by decide))
  exact paren '(' (by rw [after]; rfl) rfl

theorem memberAccess_unfit (label : isLabel name) (closed : Closed rest) :
    memberAccess (name.toList ++ rest) = .unfit := by
  unfold memberAccess
  rw [bind_done (shortLabel_append label closed.label)]
  by_cases dot : ∃ inner, rest = '.' :: inner
  · obtain ⟨inner, rfl⟩ := dot
    have point : lit "." ('.' :: inner) = .done "." inner := lit_of_eq rfl
    rw [bind_done point, bind_unfit (shortLabel_unfit (closed.member rfl))]
  · apply bind_unfit
    apply lit_unfit
    intro inner equal
    exact dot ⟨inner, equal⟩

/-- A text that starts with neither a digit nor a parenthesis is a call or a name. -/
theorem valueWithin_name (depth : Nat) {c : Char} {s : List Char} (digit : isDigit c = false)
    (paren : c ≠ '(') : valueWithin (depth + 1) (c :: s)
      = (sizeCall <|> memberAccess <|> Formula.field <$> shortLabel) (c :: s) := by
  have noDigit : ∀ d ∈ (c :: s).head?, isDigit d = false :=
    forall_head_cons digit
  refine (orElse_unfit (map_unfit (number_unfit noDigit))).trans ?_
  exact orElse_unfit (bind_unfit (lit_unfit_of_head rfl paren))

theorem valueWithin_label (depth : Nat) (label : isLabel name)
    (noDigit : startsWithDigit name = false) : valueWithin (depth + 1) (name.toList ++ s)
      = (sizeCall <|> memberAccess <|> Formula.field <$> shortLabel) (name.toList ++ s) := by
  cases letters : name.toList with
  | nil => exact absurd letters (isLabel_ne_nil label)
  | cons c cs =>
    have first : isLabelChar c = true := isLabelChar_of_mem label (by simp [letters])
    refine valueWithin_name depth ?_ ?_
    · simpa [startsWithDigit, letters] using noDigit
    · rintro rfl
      exact absurd first (by decide)

theorem valueWithin_digits (depth : Nat) (nonempty : ds ≠ []) (digits : ∀ c ∈ ds, isDigit c = true)
    (closed : Closed rest) :
    valueWithin (depth + 1) (ds ++ rest) = .done (.number (digitsValue ds)) rest := by
  have stop : ∀ c ∈ rest.head?, isDigit c = false := by
    intro c head
    cases digit : isDigit c with
    | false => rfl
    | true => exact absurd (isLabelChar_of_isDigit digit) (by simp [closed.label c head])
  exact orElse_done (map_done (number_of_digits nonempty digits stop))

theorem valueWithin_number (depth n : Nat) (closed : Closed rest) :
    valueWithin (depth + 1) (Nat.toDigits 10 n ++ rest) = .done (.number n) rest := by
  rw [valueWithin_digits depth Nat.toDigits_ne_nil (fun _ mem => isDigit_of_mem_toDigits mem) closed,
    digitsValue_toDigits]

theorem valueWithin_field (depth : Nat) (label : isLabel name)
    (noDigit : startsWithDigit name = false) (closed : Closed rest) :
    valueWithin (depth + 1) (name.toList ++ rest) = .done (.field name) rest := by
  rw [valueWithin_label depth label noDigit,
    orElse_unfit (sizeCall_unfit label closed.label closed.paren),
    orElse_unfit (memberAccess_unfit label closed)]
  exact map_done (shortLabel_append label closed.label)

theorem valueWithin_sizeOf (depth : Nat) (rest : List Char) (label : isLabel name) :
    valueWithin (depth + 1) ("size(".toList ++ name.toList ++ [')'] ++ rest)
      = .done (.sizeOf name) rest := by
  have stop : ∀ c ∈ (')' :: rest).head?, isLabelChar c = false :=
    forall_head_cons (by decide)
  have close : lit ")" (')' :: rest) = .done ")" rest := lit_of_eq rfl
  have call : sizeCall ("size(".toList ++ (name.toList ++ ')' :: rest))
      = .done (.sizeOf name) rest := by
    unfold sizeCall
    rw [bind_done (lit_append _ _), bind_done (shortLabel_append label stop), bind_done close]
    rfl
  rw [append_assoc, append_assoc, singleton_append]
  exact (valueWithin_name depth (by decide) (by decide)).trans (orElse_done call)

theorem valueWithin_member (depth : Nat) {inner : String} (label : isLabel name)
    (noDigit : startsWithDigit name = false) (innerLabel : isLabel inner) (closed : Closed rest) :
    valueWithin (depth + 1) (name.toList ++ '.' :: inner.toList ++ rest)
      = .done (.member name inner) rest := by
  have stop : ∀ c ∈ ('.' :: (inner.toList ++ rest)).head?, isLabelChar c = false :=
    forall_head_cons (by decide)
  have noCall : sizeCall (name.toList ++ '.' :: (inner.toList ++ rest)) = .unfit :=
    sizeCall_unfit label stop (forall_head_cons (by decide))
  have point : lit "." ('.' :: (inner.toList ++ rest)) = .done "." (inner.toList ++ rest) :=
    lit_of_eq rfl
  have access : memberAccess (name.toList ++ '.' :: (inner.toList ++ rest))
      = .done (.member name inner) rest := by
    unfold memberAccess
    rw [bind_done (shortLabel_append label stop), bind_done point,
      bind_done (shortLabel_append innerLabel closed.label)]
    rfl
  rw [append_assoc, cons_append, valueWithin_label depth label noDigit,
    orElse_unfit noCall]
  exact orElse_done access

/-- Parentheses are taken off with the blanks within them, one level at a time. -/
theorem valueWithin_group {depth : Nat} {f : Formula} {c : Char} {text rest : List Char}
    (gap gap' : List Char) (blank : ∀ d ∈ gap, isBlank d = true) (blank' : ∀ d ∈ gap', isBlank d = true)
    (start : startsOperand c = true)
    (read : readAt (valueWithin depth) wholeHeight (c :: text ++ (gap' ++ ')' :: rest))
      = .done f (gap' ++ ')' :: rest)) :
    valueWithin (depth + 1) ('(' :: (gap ++ (c :: text ++ (gap' ++ [')']))) ++ rest)
      = .done f rest := by
  have noDigit : ∀ d ∈ ('(' :: (gap ++ (c :: text ++ (gap' ++ ')' :: rest)))).head?,
      isDigit d = false := forall_head_cons (by decide)
  have opening : lit "(" ('(' :: (gap ++ (c :: text ++ (gap' ++ ')' :: rest))))
      = .done "(" (gap ++ (c :: text ++ (gap' ++ ')' :: rest))) :=
    lit_of_eq rfl
  have closing : lit ")" (')' :: rest) = .done ")" rest := lit_of_eq rfl
  have visible : ∀ d ∈ (c :: text ++ (gap' ++ ')' :: rest)).head?, isBlank d = false :=
    forall_head_cons (isBlank_of_startsOperand start)
  have skipped : blanks (gap ++ (c :: text ++ (gap' ++ ')' :: rest)))
      = .done () (c :: text ++ (gap' ++ ')' :: rest)) := by
    rw [blanks_eq, dropWhile_append_stop blank visible]
  have skipped' : blanks (gap' ++ ')' :: rest) = .done () (')' :: rest) := by
    rw [blanks_eq, dropWhile_append_stop blank' (forall_head_cons (by decide))]
  have grouped : group (equalityOf (valueWithin depth))
      ('(' :: (gap ++ (c :: text ++ (gap' ++ ')' :: rest)))) = .done f rest := by
    unfold group
    rw [equalityOf_eq, bind_done opening, bind_done skipped, bind_done read, bind_done skipped',
      bind_done closing]
    rfl
  simp only [cons_append, append_assoc] at grouped noDigit ⊢
  exact (orElse_unfit (map_unfit (number_unfit noDigit))).trans (orElse_done grouped)

/-! ## Spellings -/

theorem starts_of_label {name : String} (label : isLabel name) (more : List Char) :
    ∃ c cs, name.toList ++ more = c :: cs ∧ startsOperand c = true := by
  cases letters : name.toList with
  | nil => exact absurd letters (isLabel_ne_nil label)
  | cons c cs =>
    have first : isLabelChar c = true := isLabelChar_of_mem label (by simp [letters])
    exact ⟨c, cs ++ more, rfl, by simp [startsOperand, first]⟩

theorem Spelling.starts (spelling : Spelling height f text) :
    ∃ c cs, text = c :: cs ∧ startsOperand c = true := by
  induction spelling with
  | number n =>
    cases digits : Nat.toDigits 10 n with
    | nil => exact absurd digits Nat.toDigits_ne_nil
    | cons c cs =>
      have digit : isDigit c = true := isDigit_of_mem_toDigits (n := n) (by simp [digits])
      exact ⟨c, cs, rfl, by simp [startsOperand, isLabelChar_of_isDigit digit]⟩
  | field label _ => simpa using starts_of_label label []
  | sizeOf _ => exact ⟨'s', _, rfl, by decide⟩
  | member label _ _ => exact starts_of_label label _
  | group _ _ => exact ⟨'(', _, rfl, by decide⟩
  | lift _ ih => exact ih
  | binary _ _ _ ih _ =>
    obtain ⟨c, cs, rfl, start⟩ := ih
    exact ⟨c, _, rfl, start⟩

/-- How a text is read at a height: at the lowest as a single operand, above as a first operand and
the operations on it, whatever operation of the same rank follows. -/
def Reads (value : Parser Formula) (f : Formula) (text : List Char) : Nat → Prop
  | 0 => ∀ rest : List Char, Ends 0 rest → value (text ++ rest) = .done f rest
  | height + 1 => ∀ rest : List Char, Ends height rest →
      ∃ first middle pairs, readAt value height (text ++ rest) = .done first middle ∧
        Steps (tailAt height (readAt value height)) middle pairs rest ∧
        first.chained pairs = .ok f

theorem Reads.readAt_eq (reads : Reads value f text height) (ends : Ends height rest) :
    readAt value height (text ++ rest) = .done f rest := by
  cases height with
  | zero => exact reads rest ends
  | succ height =>
    obtain ⟨first, middle, pairs, head, steps, whole⟩ :=
      reads rest (ends.mono (Nat.le_succ height))
    have stop := ends.stops height (Nat.lt_succ_self height) (readAt value height)
    show ranked (readAt value height) (tailAt height) (text ++ rest) = .done f rest
    unfold ranked
    rw [bind_done head, bind_done (many_of_steps steps stop), whole]
    rfl

theorem Reads.lift (reads : Reads value f text height) : Reads value f text (height + 1) := by
  intro rest ends
  exact ⟨f, rest, [], reads.readAt_eq ends, .refl rest, rfl⟩

theorem ofSymbol?_symbol (op : Operator) : Operator.ofSymbol? op.symbol = some op := by
  cases op <;> rfl

theorem chained_snoc {first : Formula} {pairs : List (String × Formula)}
    (chain : first.chained pairs = .ok f) (op : Operator) (g : Formula) :
    first.chained (pairs ++ [(op.symbol, g)]) = .ok (.binary op f g) := by
  have chain : pairs.foldlM (operate .binary) first = .ok f := chain
  have last : operate .binary f (op.symbol, g) = .ok (.binary op f g) := by
    rw [operate, ofSymbol?_symbol]
  show (pairs ++ [(op.symbol, g)]).foldlM (operate .binary) first = _
  rw [foldlM_append, chain]
  exact congrArg (· >>= pure) last

/-- An operation goes on with the chain of its left operand. -/
theorem Reads.binary {op : Operator} {g : Formula} {left right : List Char} (notNe : op ≠ .ne)
    (readLeft : Reads value f left (op.height + 1)) (readRight : Reads value g right op.height)
    (start : ∃ c cs, right = c :: cs ∧ startsOperand c = true) :
    Reads value (.binary op f g) (left ++ (op.symbol.toList ++ right)) (op.height + 1) := by
  intro rest ends
  obtain ⟨c, cs, rfl, starts⟩ := start
  have tail : tailAt op.height (readAt value op.height) (op.symbol.toList ++ (c :: cs ++ rest))
      = .done (op.symbol, g) rest := by
    refine tailAt_symbol notNe (forall_head_cons (ne_equal_of_startsOperand starts)) ?_
    rw [cons_append, dropWhile_cons_of_neg (by simp [isBlank_of_startsOperand starts])]
    exact readRight.readAt_eq ends
  have shorter : rest.length < (op.symbol.toList ++ (c :: cs ++ rest)).length := by
    simp only [length_append, length_cons]
    omega
  obtain ⟨first, middle, pairs, head, steps, whole⟩ :=
    readLeft _ (ends_symbol notNe (c :: cs ++ rest))
  refine ⟨first, middle, pairs ++ [(op.symbol, g)], ?_, steps.snoc tail shorter,
    chained_snoc whole op g⟩
  rw [append_assoc, append_assoc]
  exact head

/-- Every spelling is read back, with as many levels of parentheses as it has characters. -/
theorem Spelling.reads (spelling : Spelling height f text) (depth : Nat)
    (enough : text.length ≤ depth + 1) : Reads (valueWithin (depth + 1)) f text height := by
  induction spelling generalizing depth with
  | number n => exact fun rest ends => valueWithin_number depth n ends.toClosed
  | field label noDigit =>
    exact fun rest ends => valueWithin_field depth label noDigit ends.toClosed
  | sizeOf label => exact fun rest _ => valueWithin_sizeOf depth rest label
  | member label noDigit innerLabel =>
    exact fun rest ends => valueWithin_member depth label noDigit innerLabel ends.toClosed
  | group inner ih =>
    intro rest _
    obtain ⟨c, cs, rfl, start⟩ := inner.starts
    simp only [length_cons, length_append, length_nil] at enough
    obtain ⟨less, rfl⟩ : ∃ less, depth = less + 1 := ⟨depth - 1, by omega⟩
    have read := ih less (by simp only [length_cons]; omega)
    exact valueWithin_group [] [] (by simp) (by simp) start
      (read.readAt_eq (ends_paren wholeHeight rest))
  | lift _ ih => exact (ih depth enough).lift
  | binary notNe _ right ihLeft ihRight =>
    simp only [length_append] at enough
    exact (ihLeft depth (by omega)).binary notNe (ihRight depth (by omega)) right.starts

/-! ## Formulas within a text -/

/-- A formula is read up to a text that does not go on with an operand. -/
theorem formula_append (f : Formula) (extra : List Side → Nat) (writable : f.isWritable)
    (ends : Ends wholeHeight rest) :
    formula (f.written extra wholeHeight ++ rest) = .done f rest := by
  have spelling := f.spelling_written writable extra (Nat.le_refl wholeHeight)
  have enough : (f.written extra wholeHeight).length
      ≤ (f.written extra wholeHeight ++ rest).length + 1 := by
    rw [length_append]
    omega
  exact (spelling.reads _ enough).readAt_eq ends

/-- No operand starts with another character than those. -/
theorem readAt_unfit (other : startsOperand c = false) (depth height : Nat) :
    readAt (valueWithin depth) height (c :: s) = .unfit := by
  simp only [startsOperand, Bool.or_eq_false_iff, beq_eq_false_iff_ne] at other
  obtain ⟨noLabel, noParen⟩ := other
  have noDigit : isDigit c = false := by
    cases digit : isDigit c with
    | false => rfl
    | true => exact absurd (isLabelChar_of_isDigit digit) (by simp [noLabel])
  have label : shortLabel (c :: s) = .unfit := shortLabel_unfit (forall_head_cons noLabel)
  have noCall : sizeCall (c :: s) = .unfit := by
    refine bind_unfit (lit_unfit_of_head rfl ?_)
    rintro rfl
    exact absurd noLabel (by decide)
  have noMember : memberAccess (c :: s) = .unfit := bind_unfit label
  induction height with
  | zero =>
    cases depth with
    | zero => rfl
    | succ depth =>
      rw [readAt, valueWithin_name _ noDigit noParen, orElse_unfit noCall, orElse_unfit noMember]
      exact map_unfit label
  | succ height ih => exact bind_unfit ih

theorem formula_unfit (other : startsOperand c = false) : formula (c :: s) = .unfit :=
  readAt_unfit other _ wholeHeight

theorem not_mem_opens (other : c ∉ ['^', '*', '/', '%', '+', '-', '<', '>', '&', '|', '!', '='])
    (height : Nat) : c ∉ opens height := by
  match height with
  | 0 | 1 | 2 | 3 | 4 | 5 =>
    simp only [mem_cons, not_mem_nil, or_false, not_or] at other
    simp only [opens, mem_cons, not_mem_nil, or_false, not_or]
    simp only [other, not_false_eq_true, and_self]
  | _ + 6 => exact not_mem_nil

/-- A text ends every operand that it does not prolong if no operator stands after its blanks. -/
theorem ends_of_first (closed : Closed rest) (other : ∀ c ∈ (rest.dropWhile isBlank).head?,
      c ∉ ['^', '*', '/', '%', '+', '-', '<', '>', '&', '|', '!', '=']) : Ends height rest :=
  ⟨closed, fun low _ _ => tailAt_unfit fun c head => not_mem_opens (other c head) low⟩

/-- Nothing in a spelling is a blank. -/
theorem Spelling.visible (spelling : Spelling height f text) : ∀ c ∈ text, isBlank c = false := by
  have letters : ∀ {name : String}, isLabel name → ∀ c ∈ name.toList, isBlank c = false :=
    fun label c mem => isBlank_of_isLabelChar (isLabelChar_of_mem label mem)
  induction spelling with
  | number n =>
    intro c mem
    exact isBlank_of_isLabelChar (isLabelChar_of_isDigit (isDigit_of_mem_toDigits mem))
  | field label _ => exact letters label
  | sizeOf label =>
    intro c mem
    rw [mem_append, mem_append] at mem
    rcases mem with (call | name) | close
    · have none : "size(".toList.all (fun c => !isBlank c) = true := by decide
      simpa using all_eq_true.mp none c call
    · exact letters label c name
    · rw [mem_singleton.mp close]
      decide
  | member label _ inner =>
    intro c mem
    rw [mem_append, mem_cons] at mem
    rcases mem with name | rfl | name
    · exact letters label c name
    · decide
    · exact letters inner c name
  | group _ ih =>
    intro c mem
    rw [mem_cons, mem_append] at mem
    rcases mem with rfl | inside | close
    · decide
    · exact ih c inside
    · rw [mem_singleton.mp close]
      decide
  | lift _ ih => exact ih
  | @binary op _ _ _ _ _ _ _ ihLeft ihRight =>
    intro c mem
    rw [mem_append, mem_append] at mem
    rcases mem with left | symbol | right
    · exact ihLeft c left
    · have none : op.symbol.toList.all (fun c => !isBlank c) = true := by cases op <;> decide
      simpa using all_eq_true.mp none c symbol
    · exact ihRight c right

/-- Reading what is written for a formula gives the formula back and leaves nothing, however many
redundant parentheses there are. -/
theorem formula_written (f : Formula) (extra : List Side → Nat) (writable : f.isWritable) :
    formula (f.written extra wholeHeight) = .done f [] := by
  have spelling := f.spelling_written writable extra (Nat.le_refl wholeHeight)
  have reads := spelling.reads (f.written extra wholeHeight).length (Nat.le_succ _)
  have whole := reads.readAt_eq (ends_nil wholeHeight)
  rwa [append_nil] at whole

/-- Ranks and redundant parentheses together: the right operand of the outer `-` needs a pair, and
another pair stands around the name in it. -/
theorem formula_written_nested :
    let f : Formula := .binary .eq
      (.binary .minus (.binary .minus (.number 12) (.sizeOf "ab"))
        (.binary .minus (.field "size") (.member "cd" "0e")))
      (.binary .lt (.number 0) (.binary .pow (.binary .pow (.number 2) (.number 3)) (.field "x")))
    let extra : List Side → Nat := fun part => if part = [.left, .right, .left] then 1 else 0
    f.isWritable ∧ f.written extra wholeHeight = "12-size(ab)-((size)-cd.0e)==0<2^3^x".toList ∧
      formula "12-size(ab)-((size)-cd.0e)==0<2^3^x".toList = .done f [] := by
  intro f extra
  have text : f.written extra wholeHeight = "12-size(ab)-((size)-cd.0e)==0<2^3^x".toList := by
    decide
  exact ⟨by decide, text, text ▸ formula_written f extra (by decide)⟩

end PacketDraft.Description.Formula
