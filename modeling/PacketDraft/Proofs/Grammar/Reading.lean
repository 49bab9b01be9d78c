import Mathlib.Data.List.Basic
import PacketDraft.Grammar.Reply

/-!
# What parsers read

One equation for each way of combining parsers, at a place where the outcome of the parts is known.
Greedy repetition is described by `Steps`, the successes one after the other; `many` reads exactly
the steps that end where its parser no longer fits.
-/

namespace PacketDraft.Grammar.Parser

open List

open Text (isBlank)

variable {α β : Type}
variable {s cs r rest t : List Char} {text : String} {p : Char → Bool}

theorem bind_done {p : Parser α} {f : α → Parser β} {a : α} (h : p s = .done a r) :
    (p >>= f) s = f a r := by
  show andThen p f s = f a r
  simp only [andThen, h]

theorem bind_unfit {p : Parser α} {f : α → Parser β} (h : p s = .unfit) : (p >>= f) s = .unfit := by
  show andThen p f s = .unfit
  simp only [andThen, h]

theorem map_done {p : Parser α} {f : α → β} {a : α} (h : p s = .done a r) :
    (f <$> p) s = .done (f a) r := by
  show andThen p (fun a => succeed (f a)) s = .done (f a) r
  simp only [andThen, h, succeed]

theorem map_unfit {p : Parser α} {f : α → β} (h : p s = .unfit) : (f <$> p) s = .unfit := by
  show andThen p (fun a => succeed (f a)) s = .unfit
  simp only [andThen, h]

theorem orElse_done {p q : Parser α} {a : α} (h : p s = .done a r) : (p <|> q) s = .done a r := by
  show orTry p (fun _ => q) s = .done a r
  simp only [orTry, h]

theorem orElse_unfit {p q : Parser α} (h : p s = .unfit) : (p <|> q) s = q s := by
  show orTry p (fun _ => q) s = q s
  simp only [orTry, h]

theorem orElse_both_unfit {p q : Parser α} (hp : p s = .unfit) (hq : q s = .unfit) :
    (p <|> q) s = .unfit := by
  rw [orElse_unfit hp, hq]

theorem maybe_done {p : Parser α} {a : α} (h : p s = .done a r) : maybe p s = .done (some a) r :=
  orElse_done (map_done h)

theorem maybe_unfit {p : Parser α} (h : p s = .unfit) : maybe p s = .done none s :=
  orElse_unfit (map_unfit h)

/-- What a parser has read is the part of the text before the rest that it leaves. -/
theorem matched_append {p : Parser α} {a : α} (h : p (s ++ r) = .done a r) :
    matched p (s ++ r) = .done s r := by
  have size : (s ++ r).length - r.length = s.length := by
    rw [length_append, Nat.add_sub_cancel]
  simp only [matched, h]
  rw [size, take_left]

theorem matched_unfit {p : Parser α} (h : p s = .unfit) : matched p s = .unfit := by
  simp only [matched, h]

theorem parse_done {p : Parser α} {a : α} (h : p s = .done a []) : p.parse s = .ok a := by
  simp only [parse, h]

/-! ## Characters -/

theorem lit_of_eq (h : s = text.toList ++ rest) : lit text s = .done text rest := by
  have found : text.toList.isPrefixOf? s = some rest :=
    List.isPrefixOf?_eq_some_iff_append_eq.mpr h.symm
  simp only [lit, found]

theorem lit_append (text : String) (rest : List Char) :
    lit text (text.toList ++ rest) = .done text rest :=
  lit_of_eq rfl

theorem lit_unfit (h : ∀ rest, s ≠ text.toList ++ rest) : lit text s = .unfit := by
  unfold lit
  cases found : text.toList.isPrefixOf? s with
  | none => rfl
  | some rest => exact absurd (List.isPrefixOf?_eq_some_iff_append_eq.mp found).symm (h rest)

theorem lit_unfit_of_head {c d : Char} (start : text.toList = d :: cs) (differs : c ≠ d) :
    lit text (c :: s) = .unfit := by
  apply lit_unfit
  intro rest h
  rw [start] at h
  exact differs (List.cons.inj h).1

theorem lit_unfit_nil {d : Char} (start : text.toList = d :: cs) : lit text [] = .unfit := by
  apply lit_unfit
  intro rest h
  rw [start] at h
  exact absurd h (by simp)

theorem lit_unfit_of_first {d : Char} {ds : List Char} (start : text.toList = d :: ds)
    (differs : ∀ c ∈ s.head?, c ≠ d) : lit text s = .unfit := by
  cases s with
  | nil => exact lit_unfit_nil start
  | cons c s => exact lit_unfit_of_head start (differs c rfl)

theorem lit_unfit_of_second {c d : Char} (start : text.toList = c :: d :: cs)
    (differs : ∀ e ∈ s.head?, e ≠ d) : lit text (c :: s) = .unfit := by
  apply lit_unfit
  intro rest h
  rw [start] at h
  rw [(List.cons.inj h).2] at differs
  exact differs d rfl rfl

theorem blanks_eq (s : List Char) : blanks s = .done () (s.dropWhile isBlank) := rfl

theorem blanks_of_head (h : ∀ c ∈ s.head?, isBlank c = false) : blanks s = .done () s := by
  rw [blanks_eq]
  cases s with
  | nil => rfl
  | cons c s => rw [dropWhile_cons_of_neg (by simp [h c rfl])]

theorem blanks_space (h : ∀ c ∈ s.head?, isBlank c = false) : blanks (' ' :: s) = .done () s := by
  have rest := blanks_of_head h
  rw [blanks_eq] at rest ⊢
  rw [dropWhile_cons_of_pos (by decide)]
  exact rest

theorem forall_head_cons {P : Char → Prop} {c : Char} (h : P c) : ∀ d ∈ (c :: s).head?, P d := by
  intro d head
  cases head
  exact h

/-- A run of characters of a class ends where a character outside the class, or nothing, follows. -/
theorem takeWhile_append_stop (all : ∀ c ∈ cs, p c = true) (stop : ∀ c ∈ rest.head?, p c = false) :
    (cs ++ rest).takeWhile p = cs := by
  have none : rest.takeWhile p = [] := by
    cases rest with
    | nil => rfl
    | cons c rest => exact takeWhile_cons_of_neg (by simp [stop c rfl])
  rw [takeWhile_append_of_pos all, none, append_nil]

theorem dropWhile_append_stop (all : ∀ c ∈ cs, p c = true) (stop : ∀ c ∈ rest.head?, p c = false) :
    (cs ++ rest).dropWhile p = rest := by
  rw [dropWhile_append_of_pos all]
  cases rest with
  | nil => rfl
  | cons c rest => exact dropWhile_cons_of_neg (by simp [stop c rfl])

/-- Up to the first character of another class, two texts that are equal have the same beginning. -/
theorem append_stop_inj {cs' rest' : List Char} (all : ∀ c ∈ cs, p c = true)
    (stop : ∀ c ∈ rest.head?, p c = false) (all' : ∀ c ∈ cs', p c = true)
    (stop' : ∀ c ∈ rest'.head?, p c = false) (same : cs ++ rest = cs' ++ rest') :
    cs = cs' ∧ rest = rest' := by
  constructor
  · rw [← takeWhile_append_stop all stop, same, takeWhile_append_stop all' stop']
  · rw [← dropWhile_append_stop all stop, same, dropWhile_append_stop all' stop']

theorem bne_of_not_mem {x : Char} (none : x ∉ cs) : ∀ c ∈ cs, (c != x) = true := by
  intro c mem
  rw [bne_iff_ne]
  rintro rfl
  exact none mem

theorem blanks_append {gap : List Char} (gaps : ∀ c ∈ gap, isBlank c = true)
    (h : ∀ c ∈ s.head?, isBlank c = false) : blanks (gap ++ s) = .done () s := by
  rw [blanks_eq, dropWhile_append_stop gaps h]

theorem token_of_head (h : ∀ c ∈ s.head?, isBlank c = false) : token text s = lit text s :=
  bind_done (blanks_of_head h)

theorem token_append {c : Char} (start : text.toList = c :: cs) (visible : isBlank c = false)
    (rest : List Char) : token text (text.toList ++ rest) = .done text rest := by
  refine (token_of_head ?_).trans (lit_append text rest)
  rw [start]
  exact forall_head_cons visible

theorem run_append (all : ∀ c ∈ cs, p c = true) (stop : ∀ c ∈ rest.head?, p c = false) :
    run p (cs ++ rest) = .done cs rest := by
  unfold run
  rw [takeWhile_append_stop all stop, dropWhile_append_stop all stop]

theorem run_none (stop : ∀ c ∈ s.head?, p c = false) : run p s = .done [] s := by
  have none : ∀ c ∈ ([] : List Char), p c = true := by simp
  exact run_append none stop

theorem satisfy_of {c : Char} (fits : p c = true) (s : List Char) :
    satisfy p (c :: s) = .done c s := by
  simp only [satisfy, fits, if_true]

theorem satisfy_unfit (h : ∀ c ∈ s.head?, p c = false) : satisfy p s = .unfit := by
  cases s with
  | nil => rfl
  | cons c s =>
    have no := h c rfl
    simp only [satisfy, no, Bool.false_eq_true, if_false]

theorem run1_append (nonempty : cs ≠ []) (all : ∀ c ∈ cs, p c = true)
    (stop : ∀ c ∈ rest.head?, p c = false) : run1 p (cs ++ rest) = .done cs rest := by
  unfold run1
  rw [takeWhile_append_stop all stop, dropWhile_append_stop all stop]
  cases cs with
  | nil => exact absurd rfl nonempty
  | cons c cs => rfl

theorem run1_unfit (h : ∀ c ∈ s.head?, p c = false) : run1 p s = .unfit := by
  unfold run1
  cases s with
  | nil => rfl
  | cons c s => rw [takeWhile_cons_of_neg (by simp [h c rfl])]

/-! ## Repetition -/

/-- Successes of a parser one after the other: from the first text to the last, with the values that
were read. Every one of them reads something. -/
inductive Steps (p : Parser α) : List Char → List α → List Char → Prop
  | refl (s : List Char) : Steps p s [] s
  | cons {s r t : List Char} {a : α} {as : List α} :
      p s = .done a r → r.length < s.length → Steps p r as t → Steps p s (a :: as) t

theorem Steps.snoc {p : Parser α} {as : List α} {a : α} (steps : Steps p s as r)
    (read : p r = .done a t) (shorter : t.length < r.length) : Steps p s (as ++ [a]) t := by
  induction steps with
  | refl s => exact .cons read shorter (.refl t)
  | cons first less _ ih => exact .cons first less (ih read shorter)

/-- There are no more successes than characters. -/
theorem Steps.length_le {p : Parser α} {as : List α} (steps : Steps p s as t) :
    as.length ≤ s.length := by
  induction steps with
  | refl s => exact Nat.zero_le _
  | cons _ less _ ih =>
    rw [length_cons]
    omega

theorem upTo_of_steps {p : Parser α} {as : List α} (steps : Steps p s as t) (stop : p t = .unfit)
    {n : Nat} (enough : as.length < n) : upTo p n s = .done as t := by
  induction steps generalizing n with
  | refl s =>
    cases n with
    | zero => exact absurd enough (Nat.not_lt_zero _)
    | succ n => simp only [upTo, stop]
  | cons read _ _ ih =>
    cases n with
    | zero => exact absurd enough (Nat.not_lt_zero _)
    | succ n =>
      have rest := ih stop (n := n) (by simpa using enough)
      simp only [upTo, read, rest]

/-- Repetition reads all successes up to the first place where its parser does not fit. -/
theorem many_of_steps {p : Parser α} {as : List α} (steps : Steps p s as t) (stop : p t = .unfit) :
    many p s = .done as t :=
  upTo_of_steps steps stop (Nat.lt_succ_of_le steps.length_le)

theorem many1_of_steps {p : Parser α} {a : α} {as : List α} (steps : Steps p s (a :: as) t)
    (stop : p t = .unfit) : many1 p s = .done (a :: as) t := by
  cases steps with
  | cons first _ more =>
    unfold many1
    rw [bind_done first, bind_done (many_of_steps more stop)]
    rfl

end PacketDraft.Grammar.Parser
