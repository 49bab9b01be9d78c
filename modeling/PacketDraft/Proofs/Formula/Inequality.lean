import PacketDraft.Description.Build
import PacketDraft.Proofs.Attempt
import PacketDraft.Proofs.Formula.RoundTrip
import PacketDraft.Proofs.Grammar.Results

/-!
# Inequalities

What was read as an operand of some height is read as the same operand again in front of any other
text that ends it (`readAt_again`). So two texts that are conditions each can be joined by an operator
that binds weaker than anything in them, with blanks on both sides. The main result says what `!=`
between them is read as, and what is built from it.
-/

namespace PacketDraft.Description.Formula

open Grammar Grammar.Parser Protocol Text List

/-! ## Operators between blanks -/

/-- Nothing but blanks. -/
def IsGap (gap : List Char) : Prop :=
  ∀ c ∈ gap, isBlank c = true

/-- The symbols that are read as operations of the rank just above a height. -/
def Sign (height : Nat) (symbol : String) (op : Operator) : Prop :=
  op.height = height ∧ (op ≠ .ne ∧ symbol = op.symbol ∨ op = .eq ∧ symbol = "!=")

section Operators

variable {symbol meant : String} {op : Operator} {operand : Parser Formula} {height : Nat}
  {gap s r rest : List Char} {f : Formula}

theorem dropWhile_gap (blank : IsGap gap) (s : List Char) :
    (gap ++ s).dropWhile isBlank = s.dropWhile isBlank :=
  dropWhile_append_of_pos blank

theorem operation_gap (blank : IsGap gap) (s : List Char) :
    operation symbol meant operand (gap ++ s) = operation symbol meant operand s := by
  unfold operation
  rw [bind_done (blanks_eq _), bind_done (blanks_eq _), dropWhile_gap blank]

theorem orElse_congr {α : Type} {p q : Parser α} {s t : List Char} (first : p s = p t)
    (second : q s = q t) : (p <|> q) s = (p <|> q) t := by
  show orTry p (fun _ => q) s = orTry p (fun _ => q) t
  simp only [orTry, first, second]

/-- Blanks before an operator are skipped, unless it is `^`. -/
theorem tailAt_gap (blank : IsGap gap) (close : height = 0 → gap = []) (s : List Char) :
    tailAt height operand (gap ++ s) = tailAt height operand s := by
  match height with
  | 0 => rw [close rfl, nil_append]
  | 1 =>
    refine orElse_congr (operation_gap blank s) ?_
    exact orElse_congr (operation_gap blank s) (operation_gap blank s)
  | 2 => exact orElse_congr (operation_gap blank s) (operation_gap blank s)
  | 3 =>
    refine orElse_congr (operation_gap blank s) (orElse_congr (operation_gap blank s) ?_)
    exact orElse_congr (operation_gap blank s) (operation_gap blank s)
  | 4 =>
    refine orElse_congr (operation_gap blank s) ?_
    exact orElse_congr (operation_gap blank s) (operation_gap blank s)
  | 5 => exact orElse_congr (operation_gap blank s) (operation_gap blank s)
  | _ + 6 => rfl

theorem tailAt_sign (sign : Sign height symbol op) (blank : IsGap gap)
    (close : height = 0 → gap = []) (notEqual : ∀ c ∈ s.head?, c ≠ '=')
    (read : operand (s.dropWhile isBlank) = .done f rest) :
    tailAt height operand (gap ++ (symbol.toList ++ s)) = .done (op.symbol, f) rest := by
  rw [tailAt_gap blank close]
  obtain ⟨rfl, ⟨notNe, rfl⟩ | ⟨rfl, rfl⟩⟩ := sign
  · exact tailAt_symbol notNe notEqual read
  · refine (orElse_of_head (by decide) rfl (by decide)).trans ?_
    exact operation_done (forall_head_cons (by decide)) read

theorem operation_eq_done {name : String}
    (done : operation symbol meant operand s = .done (name, f) r) :
    name = meant ∧ ∃ gap gap' u, IsGap gap ∧ IsGap gap' ∧
      s = gap ++ (symbol.toList ++ (gap' ++ u)) ∧ operand u = .done f r := by
  obtain ⟨_, t, skipped, more⟩ := bind_eq_done done
  obtain ⟨gap, blank, rfl⟩ := blanks_eq_done skipped
  obtain ⟨_, u, found, behind⟩ := bind_eq_done more
  obtain rfl := lit_eq_done found
  obtain ⟨_, v, skipped', last⟩ := bind_eq_done behind
  obtain ⟨gap', blank', rfl⟩ := blanks_eq_done skipped'
  obtain ⟨g, w, read, result⟩ := bind_eq_done last
  cases result
  exact ⟨rfl, gap, gap', v, blank, blank', rfl, read⟩

/-- An operator that is read stands between blanks. -/
theorem tailAt_eq_done (done : tailAt height operand s = .done (meant, f) r) :
    ∃ op symbol gap gap' u, meant = op.symbol ∧ Sign height symbol op ∧ IsGap gap ∧
      (height = 0 → gap = []) ∧ IsGap gap' ∧ s = gap ++ (symbol.toList ++ (gap' ++ u)) ∧
      operand u = .done f r := by
  have one : ∀ (symbol : String) (op : Operator), height ≠ 0 → Sign height symbol op →
      operation symbol op.symbol operand s = .done (meant, f) r →
      ∃ op symbol gap gap' u, meant = op.symbol ∧ Sign height symbol op ∧ IsGap gap ∧
        (height = 0 → gap = []) ∧ IsGap gap' ∧ s = gap ++ (symbol.toList ++ (gap' ++ u)) ∧
        operand u = .done f r := by
    intro symbol op above sign done
    obtain ⟨rfl, gap, gap', u, blank, blank', text, read⟩ := operation_eq_done done
    exact ⟨op, symbol, gap, gap', u, rfl, sign, blank, fun low => absurd low above, blank', text,
      read⟩
  have own : ∀ op' : Operator, op'.height = height → op' ≠ .ne → Sign height op'.symbol op' :=
    fun _ rank notNe => ⟨rank, .inl ⟨notNe, rfl⟩⟩
  match height, done, one, own with
  | 0, done, one, own =>
    obtain ⟨_, t, found, behind⟩ := bind_eq_done done
    obtain rfl := lit_eq_done found
    obtain ⟨_, u, skipped, last⟩ := bind_eq_done behind
    obtain ⟨gap', blank', rfl⟩ := blanks_eq_done skipped
    obtain ⟨g, w, read, result⟩ := bind_eq_done last
    cases result
    exact ⟨.pow, "^", [], gap', u, rfl, own .pow rfl (by decide), by simp [IsGap], fun _ => rfl,
      blank', rfl, read⟩
  | 1, done, one, own =>
    rcases orElse_eq_done done with done | ⟨-, done⟩
    · exact one _ _ (by decide) (own .multiply rfl (by decide)) done
    rcases orElse_eq_done done with done | ⟨-, done⟩
    · exact one _ _ (by decide) (own .divide rfl (by decide)) done
    · exact one _ _ (by decide) (own .modulo rfl (by decide)) done
  | 2, done, one, own =>
    rcases orElse_eq_done done with done | ⟨-, done⟩
    · exact one _ _ (by decide) (own .plus rfl (by decide)) done
    · exact one _ _ (by decide) (own .minus rfl (by decide)) done
  | 3, done, one, own =>
    rcases orElse_eq_done done with done | ⟨-, done⟩
    · exact one _ _ (by decide) (own .le rfl (by decide)) done
    rcases orElse_eq_done done with done | ⟨-, done⟩
    · exact one _ _ (by decide) (own .lt rfl (by decide)) done
    rcases orElse_eq_done done with done | ⟨-, done⟩
    · exact one _ _ (by decide) (own .ge rfl (by decide)) done
    · exact one _ _ (by decide) (own .gt rfl (by decide)) done
  | 4, done, one, own =>
    rcases orElse_eq_done done with done | ⟨-, done⟩
    · exact one _ _ (by decide) (own .and rfl (by decide)) done
    rcases orElse_eq_done done with done | ⟨-, done⟩
    · exact one _ _ (by decide) (own .or rfl (by decide)) done
    · exact one _ _ (by decide) (own .not rfl (by decide)) done
  | 5, done, one, own =>
    rcases orElse_eq_done done with done | ⟨-, done⟩
    · exact one _ _ (by decide) (own .eq rfl (by decide)) done
    · exact one _ _ (by decide) ⟨rfl, .inr ⟨rfl, rfl⟩⟩ done
  | _ + 6, done, _, _ => cases done

end Operators

/-! ## What ends an operand -/

/-- The texts that do not go on with an operand of a height. Unlike `Ends`, this asks only about
operands that formulas have: behind the `!` of `!=` no such operand starts. -/
structure Halts (height : Nat) (rest : List Char) : Prop extends Closed rest where
  stops : ∀ low < height, ∀ depth, tailAt low (readAt (valueWithin depth) low) rest = .unfit

section Halts

variable {height : Nat} {symbol : String} {op : Operator} {gap rest : List Char}

theorem Ends.halts (ends : Ends height rest) : Halts height rest :=
  ⟨ends.toClosed, fun low lt _ => ends.stops low lt _⟩

theorem Halts.mono {low : Nat} (halts : Halts height rest) (le : low ≤ height) : Halts low rest :=
  ⟨halts.toClosed, fun k lt => halts.stops k (Nat.lt_of_lt_of_le lt le)⟩

theorem closed_blank {c : Char} {s : List Char} (blank : isBlank c = true) : Closed (c :: s) := by
  refine Closed.cons ?_ ?_ ?_
  · cases label : isLabelChar c with
    | false => rfl
    | true => exact absurd blank (by simp [isBlank_of_isLabelChar label])
  · rintro rfl
    exact absurd blank (by decide)
  · rintro rfl
    exact absurd blank (by decide)

theorem closed_gap {s : List Char} (blank : IsGap gap) (closed : Closed s) : Closed (gap ++ s) := by
  cases gap with
  | nil => exact closed
  | cons c gap => exact closed_blank (blank c mem_cons_self)

theorem halts_gap {s : List Char} (blank : IsGap gap) (halts : Halts height s) :
    Halts height (gap ++ s) := by
  refine ⟨closed_gap blank halts.toClosed, fun low lt depth => ?_⟩
  by_cases tight : low = 0 → gap = []
  · rw [tailAt_gap blank tight]
    exact halts.stops low lt depth
  · -- Blanks do not stand before `^`.
    simp only [Classical.not_imp] at tight
    obtain ⟨rfl, some_⟩ := tight
    cases gap with
    | nil => exact absurd rfl some_
    | cons c gap =>
      refine bind_unfit (lit_unfit_of_head rfl ?_)
      rintro rfl
      exact absurd (blank _ mem_cons_self) (by decide)

/-- Where `!=` stands, an operand ends that is not an equality: `!` alone would be followed by an
operand. -/
theorem halts_unequal (s : List Char) : Halts 5 ("!=".toList ++ s) := by
  refine ⟨Closed.cons (by decide) (by decide) (by decide), fun low lt depth => ?_⟩
  by_cases logic : low = 4
  · subst logic
    have bare : operation "!" "!" (readAt (valueWithin depth) 4) ("!=".toList ++ s) = .unfit := by
      have mark : lit "!" ('!' :: '=' :: s) = .done "!" ('=' :: s) := lit_of_eq rfl
      show operation "!" "!" (readAt (valueWithin depth) 4) ('!' :: '=' :: s) = .unfit
      unfold operation
      rw [bind_done (blanks_of_head (forall_head_cons (by decide))), bind_done mark,
        bind_done (blanks_of_head (forall_head_cons (by decide)))]
      exact bind_unfit (readAt_unfit (by decide) depth 4)
    refine (orElse_of_head (by decide) rfl (by decide)).trans ?_
    exact (orElse_of_head (by decide) rfl (by decide)).trans bare
  · apply tailAt_unfit
    intro c head
    cases head
    have below : low < 4 := by omega
    revert low
    decide

theorem halts_sign {s : List Char} (sign : Sign height symbol op) (blank : IsGap gap) :
    Halts height (gap ++ (symbol.toList ++ s)) := by
  apply halts_gap blank
  obtain ⟨rfl, ⟨notNe, rfl⟩ | ⟨rfl, rfl⟩⟩ := sign
  · exact (ends_symbol notNe s).halts
  · exact halts_unequal s

end Halts

/-! ## Reading again -/

/-- A text is read as an operand in front of whatever ends it, with at least so many levels of
parentheses. -/
structure Rereads (depth height : Nat) (f : Formula) (text : List Char) : Prop where
  starts : ∃ c cs, text = c :: cs ∧ startsOperand c = true
  again : ∀ more, depth ≤ more → ∀ rest, Halts height rest →
    readAt (valueWithin more) height (text ++ rest) = .done f rest

section Rereads

variable {depth height : Nat} {f : Formula} {s r : List Char}

theorem shortLabel_eq_done {name : String} (done : shortLabel s = .done name r) :
    isLabel name ∧ s = name.toList ++ r := by
  obtain ⟨cs, read, rfl⟩ := map_eq_done done
  obtain ⟨nonempty, letters, text⟩ := run1_eq_done read
  simp only [isLabel, String.toList_ofList]
  refine ⟨?_, text⟩
  simp [nonempty, all_eq_true.mpr letters]

/-- A name that was not read as a number does not start with a digit. -/
theorem noDigit_of_unfit {name : String} {more : List Char}
    (unfit : (Formula.number <$> Description.number) (name.toList ++ more) = .unfit) :
    startsWithDigit name = false := by
  cases letters : name.toList with
  | nil => simp [startsWithDigit, letters]
  | cons c cs =>
    cases digit : isDigit c with
    | false => simp [startsWithDigit, letters, digit]
    | true =>
      rw [letters, cons_append] at unfit
      have taken : run1 isDigit (c :: (cs ++ more))
          = .done (c :: (cs ++ more).takeWhile isDigit) ((c :: (cs ++ more)).dropWhile isDigit) := by
        unfold run1
        rw [takeWhile_cons_of_pos digit]
      have read : Description.number (c :: (cs ++ more)) = .done _ _ := bind_done taken
      rw [map_done read] at unfit
      cases unfit

/-- Single operands. In parentheses any formula stands, which is read again with one level less. -/
theorem valueWithin_again
    (inner : ∀ {s r : List Char} {f : Formula}, readAt (valueWithin depth) wholeHeight s = .done f r →
      ∃ text, s = text ++ r ∧ Rereads depth wholeHeight f text)
    (read : valueWithin (depth + 1) s = .done f r) :
    ∃ text, s = text ++ r ∧ Rereads (depth + 1) 0 f text := by
  -- With another number of levels the same alternative is taken.
  have deeper : ∀ {text : List Char}, (∃ c cs, text = c :: cs ∧ startsOperand c = true) →
      (∀ more, depth ≤ more → ∀ rest, Closed rest →
        valueWithin (more + 1) (text ++ rest) = .done f rest) →
      Rereads (depth + 1) 0 f text := by
    intro text starts again
    refine ⟨starts, fun more le rest halts => ?_⟩
    obtain ⟨less, rfl⟩ : ∃ less, more = less + 1 := ⟨more - 1, by omega⟩
    exact again less (Nat.le_of_succ_le_succ le) rest halts.toClosed
  rcases orElse_eq_done read with number | ⟨noNumber, read⟩
  · obtain ⟨n, done, rfl⟩ := map_eq_done number
    obtain ⟨ds, t, digits, last⟩ := bind_eq_done done
    cases last
    obtain ⟨nonempty, all, rfl⟩ := run1_eq_done digits
    refine ⟨ds, rfl, deeper ?_ fun more _ rest closed => valueWithin_digits more nonempty all closed⟩
    obtain ⟨c, cs, rfl⟩ := exists_cons_of_ne_nil nonempty
    exact ⟨c, cs, rfl, by simp [startsOperand, isLabelChar_of_isDigit (all c mem_cons_self)]⟩
  rcases orElse_eq_done read with group | ⟨-, read⟩
  · obtain ⟨_, t, opening, more⟩ := bind_eq_done group
    obtain rfl := lit_eq_done opening
    obtain ⟨_, u, skipped, behind⟩ := bind_eq_done more
    obtain ⟨gap, blank, rfl⟩ := blanks_eq_done skipped
    obtain ⟨g, v, read', close⟩ := bind_eq_done behind
    obtain ⟨text, rfl, rereads⟩ := inner read'
    obtain ⟨_, w, skipped', last⟩ := bind_eq_done close
    obtain ⟨gap', blank', rfl⟩ := blanks_eq_done skipped'
    obtain ⟨_, x, closing, result⟩ := bind_eq_done last
    obtain rfl := lit_eq_done closing
    cases result
    obtain ⟨c, cs, rfl, starts⟩ := rereads.starts
    refine ⟨'(' :: (gap ++ (c :: cs ++ (gap' ++ [')']))), by simp, deeper ⟨'(', _, rfl, by decide⟩ ?_⟩
    intro more le rest _
    exact valueWithin_group gap gap' blank blank' starts
      (rereads.again more le _ (halts_gap blank' (ends_paren wholeHeight rest).halts))
  rcases orElse_eq_done read with call | ⟨-, read⟩
  · obtain ⟨_, t, word, more⟩ := bind_eq_done call
    obtain rfl := lit_eq_done word
    obtain ⟨name, u, named, last⟩ := bind_eq_done more
    obtain ⟨label, rfl⟩ := shortLabel_eq_done named
    obtain ⟨_, v, close, result⟩ := bind_eq_done last
    obtain rfl := lit_eq_done close
    cases result
    refine ⟨"size(".toList ++ name.toList ++ [')'], by simp, deeper ⟨'s', _, rfl, by decide⟩ ?_⟩
    intro more _ rest _
    exact valueWithin_sizeOf more rest label
  rcases orElse_eq_done read with access | ⟨-, read⟩
  · obtain ⟨name, t, named, more⟩ := bind_eq_done access
    obtain ⟨label, rfl⟩ := shortLabel_eq_done named
    obtain ⟨_, u, dot, behind⟩ := bind_eq_done more
    obtain rfl := lit_eq_done dot
    obtain ⟨inner, v, named', result⟩ := bind_eq_done behind
    obtain ⟨label', rfl⟩ := shortLabel_eq_done named'
    cases result
    have noDigit := noDigit_of_unfit noNumber
    refine ⟨name.toList ++ '.' :: inner.toList, by simp, deeper (starts_of_label label _) ?_⟩
    intro more _ rest closed
    exact valueWithin_member more label noDigit label' closed
  · obtain ⟨name, named, rfl⟩ := map_eq_done read
    obtain ⟨label, rfl⟩ := shortLabel_eq_done named
    have noDigit := noDigit_of_unfit noNumber
    refine ⟨name.toList, rfl, deeper ?_ fun more _ rest closed => ?_⟩
    · simpa using starts_of_label label []
    · exact valueWithin_field more label noDigit closed

/-- An operand behind an operator, with blanks between them. -/
theorem tailAt_operand {symbol : String} {op : Operator} {operand : Parser Formula}
    {gap gap' rest : List Char} {c : Char} (sign : Sign height symbol op) (blank : IsGap gap)
    (tight : height = 0 → gap = []) (blank' : IsGap gap') (starts : startsOperand c = true)
    (read : operand (c :: s) = .done f rest) :
    tailAt height operand (gap ++ (symbol.toList ++ (gap' ++ c :: s)))
      = .done (op.symbol, f) rest := by
  refine tailAt_sign sign blank tight ?_ ?_
  · cases gap' with
    | nil => exact forall_head_cons (ne_equal_of_startsOperand starts)
    | cons d gap' =>
      refine forall_head_cons ?_
      rintro rfl
      exact absurd (blank' _ mem_cons_self) (by decide)
  · rw [dropWhile_append_stop blank' (forall_head_cons (isBlank_of_startsOperand starts)), read]

/-- An operand with the operations on it. What was read so far is read again in front of whatever ends
an operand of the height below, since the operators that follow do. -/
theorem ranked_again
    (operand : ∀ {s r : List Char} {f : Formula}, readAt (valueWithin depth) height s = .done f r →
      ∃ text, s = text ++ r ∧ Rereads depth height f text)
    (read : readAt (valueWithin depth) (height + 1) s = .done f r) :
    ∃ text, s = text ++ r ∧ Rereads depth (height + 1) f text := by
  obtain ⟨first, t, start, more⟩ := bind_eq_done read
  obtain ⟨pairs, u, repeated, result⟩ := bind_eq_done more
  obtain ⟨whole, rfl⟩ := ofExcept_eq_done result
  obtain ⟨text, rfl, rereads⟩ := operand start
  have invariant : ∃ behind, t = behind ++ u ∧ ∀ more, depth ≤ more → ∀ rest, Halts height rest →
      ∃ middle, readAt (valueWithin more) height (text ++ (behind ++ rest)) = .done first middle ∧
        Steps (tailAt height (readAt (valueWithin more) height)) middle pairs rest := by
    refine many_invariant (M := fun pairs u => ∃ behind, t = behind ++ u ∧ ∀ more, depth ≤ more →
      ∀ rest, Halts height rest →
        ∃ middle, readAt (valueWithin more) height (text ++ (behind ++ rest)) = .done first middle ∧
          Steps (tailAt height (readAt (valueWithin more) height)) middle pairs rest) ?_ ?_ repeated
    · refine ⟨[], rfl, fun more le rest halts => ⟨rest, ?_, .refl rest⟩⟩
      exact rereads.again more le rest halts
    · rintro pairs u ⟨meant, g⟩ v ⟨behind, rfl, before⟩ one
      obtain ⟨op, symbol, gap, gap', w, rfl, sign, blank, tight, blank', rfl, right⟩ :=
        tailAt_eq_done one
      obtain ⟨text', rfl, rereads'⟩ := operand right
      obtain ⟨c, cs, rfl, starts⟩ := rereads'.starts
      refine ⟨behind ++ (gap ++ (symbol.toList ++ (gap' ++ c :: cs))), by simp, ?_⟩
      intro more le rest halts
      have tail : tailAt height (readAt (valueWithin more) height)
          (gap ++ (symbol.toList ++ (gap' ++ (c :: cs ++ rest)))) = .done (op.symbol, g) rest :=
        tailAt_operand sign blank tight blank' starts (rereads'.again more le rest halts)
      obtain ⟨middle, head, steps⟩ := before more le _ (halts_sign sign blank)
      refine ⟨middle, ?_, steps.snoc tail ?_⟩
      · simpa using head
      · simp only [length_append, length_cons]
        omega
  obtain ⟨behind, rfl, again⟩ := invariant
  refine ⟨text ++ behind, by simp, ?_, fun more le rest halts => ?_⟩
  · obtain ⟨c, cs, rfl, starts⟩ := rereads.starts
    exact ⟨c, cs ++ behind, rfl, starts⟩
  · obtain ⟨middle, head, steps⟩ := again more le rest (halts.mono (Nat.le_succ height))
    have stop := halts.stops height (Nat.lt_succ_self height) more
    show ranked (readAt (valueWithin more) height) (tailAt height) (text ++ behind ++ rest) = _
    unfold ranked
    rw [append_assoc, bind_done head, bind_done (many_of_steps steps stop), whole]
    rfl

/-- What was read as an operand is read as the same operand again in front of any text that ends it. -/
theorem readAt_again (read : readAt (valueWithin depth) height s = .done f r) :
    ∃ text, s = text ++ r ∧ Rereads depth height f text := by
  induction depth generalizing height s f r with
  | zero =>
    induction height generalizing s f r with
    | zero => cases read
    | succ height ih => exact ranked_again ih read
  | succ depth inner =>
    induction height generalizing s f r with
    | zero => exact valueWithin_again inner read
    | succ height ih => exact ranked_again ih read

end Rereads

/-! ## Equalities and inequalities -/

theorem logicOf_eq (value : Parser Formula) : logicOf value = readAt value 5 := rfl

/-- A condition is read as a whole with the operators that bind stronger than equality. -/
theorem rereads_of_parse {a : List Char} {l : Formula}
    (read : (unbounded logicOf).parse a = .ok l) : Rereads (a.length + 1) 5 l a := by
  have done := parse_eq_ok read
  rw [unbounded, logicOf_eq] at done
  obtain ⟨text, whole, again⟩ := readAt_again done
  rw [append_nil] at whole
  exact whole ▸ again

/-- Two conditions joined by a symbol that is read as equality. -/
theorem formula_joined {a b gap gap' : List Char} {l r : Formula} {symbol : String}
    (left : (unbounded logicOf).parse a = .ok l) (right : (unbounded logicOf).parse b = .ok r)
    (blank : IsGap gap) (blank' : IsGap gap') (sign : Sign 5 symbol .eq) :
    formula.parse (a ++ gap ++ symbol.toList ++ gap' ++ b) = .ok (.binary .eq l r) := by
  have again := rereads_of_parse left
  have again' := rereads_of_parse right
  obtain ⟨c, cs, rfl, starts⟩ := again'.starts
  simp only [append_assoc]
  apply parse_done
  rw [formula, unbounded, equalityOf_eq]
  generalize depth : (a ++ (gap ++ (symbol.toList ++ (gap' ++ c :: cs)))).length + 1 = levels
  have long : a.length + 1 ≤ levels := by simp [← depth]
  have long' : (c :: cs).length + 1 ≤ levels := by simp [← depth]; omega
  have first : readAt (valueWithin levels) 5 (a ++ (gap ++ (symbol.toList ++ (gap' ++ c :: cs))))
      = .done l (gap ++ (symbol.toList ++ (gap' ++ c :: cs))) :=
    again.again levels long _ (halts_sign sign blank)
  have second : readAt (valueWithin levels) 5 (c :: cs) = .done r [] := by
    simpa using again'.again levels long' [] (ends_nil 5).halts
  have tail : tailAt 5 (readAt (valueWithin levels) 5) (gap ++ (symbol.toList ++ (gap' ++ c :: cs)))
      = .done ("==", r) [] := tailAt_operand sign blank (by simp) blank' starts second
  have stop : tailAt 5 (readAt (valueWithin levels) 5) [] = .unfit :=
    (ends_nil 6).stops 5 (by decide) _
  have steps : Steps (tailAt 5 (readAt (valueWithin levels) 5))
      (gap ++ (symbol.toList ++ (gap' ++ c :: cs))) [("==", r)] [] := by
    refine .cons tail ?_ (.refl [])
    simp only [length_nil, length_append, length_cons]
    omega
  show ranked (readAt (valueWithin levels) 5) (tailAt 5) _ = _
  unfold ranked
  rw [bind_done first, bind_done (many_of_steps steps stop)]
  rfl

/-- Inequality is read as equality: between two conditions, with any blanks around it, `!=` gives the
same formula as `==`, and what is built from it asks whether the two sides are equal. -/
theorem unequal_read_as_equal (a b gap gap' : List Char) (l r : Formula)
    (left : (unbounded logicOf).parse a = .ok l) (right : (unbounded logicOf).parse b = .ok r)
    (blank : ∀ c ∈ gap, isBlank c = true) (blank' : ∀ c ∈ gap', isBlank c = true) :
    formula.parse (a ++ gap ++ "!=".toList ++ gap' ++ b) = .ok (.binary .eq l r) ∧
      formula.parse (a ++ gap ++ "==".toList ++ gap' ++ b) = .ok (.binary .eq l r) ∧
      ∀ build struct w e w', buildExpr build struct (.binary .eq l r) w = (.ok e, w') →
        ∃ x y, e = .method x "eq" [("other", y)] := by
  refine ⟨formula_joined left right blank blank' ⟨rfl, .inr ⟨rfl, rfl⟩⟩,
    formula_joined left right blank blank' ⟨rfl, .inl ⟨by decide, rfl⟩⟩, ?_⟩
  intro build struct w e w' built
  obtain ⟨x, w₁, -, rest⟩ := Attempt.bind_eq_ok.mp built
  obtain ⟨y, w₂, -, rest⟩ := Attempt.bind_eq_ok.mp rest
  obtain ⟨rfl, -⟩ := Attempt.pure_eq_ok.mp rest
  exact ⟨x, y, rfl⟩

/-- Conditions with operators of several ranks, parentheses and blanks within them. -/
theorem unequal_read_as_equal_nested :
    let l : Formula := .binary .and (.binary .lt (.field "a") (.number 7)) (.sizeOf "b")
    let r : Formula := .binary .not (.member "c" "d") (.binary .eq (.field "e") (.number 0))
    (unbounded logicOf).parse "a < 07 && size(b)".toList = .ok l ∧
      (unbounded logicOf).parse "c.d!( e != 0 )".toList = .ok r ∧
      formula.parse "a < 07 && size(b) !=  c.d!( e != 0 )".toList = .ok (.binary .eq l r) := by
  intro l r
  have left : (unbounded logicOf).parse "a < 07 && size(b)".toList = .ok l := by cbv
  have right : (unbounded logicOf).parse "c.d!( e != 0 )".toList = .ok r := by cbv
  have blank : IsGap " ".toList := by
    simp [IsGap]
    decide
  have blank' : IsGap "  ".toList := by
    simp [IsGap]
    decide
  exact ⟨left, right, (unequal_read_as_equal _ _ _ _ l r left right blank blank').1⟩

/-- `a != b` is read as `a == b`. -/
theorem formula_unequal :
    (unbounded logicOf).parse "a".toList = .ok (.field "a") ∧
      (unbounded logicOf).parse "b".toList = .ok (.field "b") ∧
      formula.parse "a != b".toList ≠ .ok (.binary .ne (.field "a") (.field "b")) ∧
      formula.parse "a != b".toList = formula.parse "a == b".toList := by
  have unequal : formula.parse "a != b".toList = .ok (.binary .eq (.field "a") (.field "b")) := by
    cbv
  refine ⟨by cbv, by cbv, ?_, ?_⟩
  · rw [unequal]
    decide
  · rw [unequal]
    cbv

end PacketDraft.Description.Formula
