import Mathlib.Data.List.Basic
import Mathlib.Data.List.TakeWhile
import PacketDraft.Grammar.Reply

/-!
# What parsers give

`Yields` is about the values that a parser can give, whatever text it reads; `Reads` is about the
characters that it takes off the text. Both follow the way in which a parser is put together.
-/

namespace PacketDraft.Grammar.Parser

open List

variable {α β : Type}
variable {s r : List Char}

/-- Whatever a parser gives has a property. -/
def Yields (P : α → Prop) (p : Parser α) : Prop :=
  ∀ s a r, p s = .done a r → P a

/-- Whatever a parser reads is made of characters of a class. -/
def Reads (C : Char → Prop) (p : Parser α) : Prop :=
  ∀ s a r, p s = .done a r → ∃ cs, s = cs ++ r ∧ ∀ c ∈ cs, C c

theorem bind_eq_done {p : Parser α} {f : α → Parser β} {b : β} (done : (p >>= f) s = .done b r) :
    ∃ a t, p s = .done a t ∧ f a t = .done b r := by
  have done : andThen p f s = .done b r := done
  unfold andThen at done
  split at done
  · next a t first => exact ⟨a, t, first, done⟩
  · cases done
  · cases done

theorem orElse_eq_done {p q : Parser α} {a : α} (done : (p <|> q) s = .done a r) :
    p s = .done a r ∨ p s = .unfit ∧ q s = .done a r := by
  have done : orTry p (fun _ => q) s = .done a r := done
  unfold orTry at done
  split at done
  · next first => exact .inr ⟨first, done⟩
  · exact .inl done

theorem map_eq_done {p : Parser α} {f : α → β} {b : β} (done : (f <$> p) s = .done b r) :
    ∃ a, p s = .done a r ∧ f a = b := by
  obtain ⟨a, t, first, last⟩ := bind_eq_done done
  cases last
  exact ⟨a, first, rfl⟩

theorem ofExcept_eq_done {x : Except Fault α} {a : α} (done : ofExcept x s = .done a r) :
    x = .ok a ∧ s = r := by
  cases x with
  | error e => cases done
  | ok b =>
    cases done
    exact ⟨rfl, rfl⟩

theorem lit_eq_done {text a : String} (done : lit text s = .done a r) : s = text.toList ++ r := by
  unfold lit at done
  split at done
  · next rest found =>
    cases done
    exact (List.isPrefixOf?_eq_some_iff_append_eq.mp found).symm
  · cases done

theorem run1_eq_done {p : Char → Bool} {cs : List Char} (done : run1 p s = .done cs r) :
    cs ≠ [] ∧ (∀ c ∈ cs, p c = true) ∧ s = cs ++ r := by
  unfold run1 at done
  split at done
  · cases done
  · next c cs taken =>
    cases done
    refine ⟨by simp, fun d mem => ?_, ?_⟩
    · rw [← taken] at mem
      exact mem_takeWhile_imp mem
    · rw [← taken, takeWhile_append_dropWhile]

theorem blanks_eq_done {a : Unit} (done : blanks s = .done a r) :
    ∃ gap, (∀ c ∈ gap, Text.isBlank c = true) ∧ s = gap ++ r := by
  cases done
  exact ⟨s.takeWhile Text.isBlank, fun c mem => mem_takeWhile_imp mem,
    takeWhile_append_dropWhile.symm⟩

theorem parse_eq_ok {p : Parser α} {a : α} (read : p.parse s = .ok a) : p s = .done a [] := by
  unfold parse at read
  split at read
  · next b done =>
    cases read
    exact done
  · cases read
  · cases read
  · cases read

/-- What is true before the first repetition and stays true with each is true after all of them. -/
theorem many_invariant {p : Parser α} {M : List α → List Char → Prop} {as : List α} (start : M [] s)
    (step : ∀ as t a u, M as t → p t = .done a u → M (as ++ [a]) u) (done : many p s = .done as r) :
    M as r := by
  have upTo : ∀ n before t as r, M before t → upTo p n t = .done as r → M (before ++ as) r := by
    intro n
    induction n with
    | zero =>
      intro before t as r own done
      cases done
      simpa using own
    | succ n ih =>
      intro before t as r own done
      unfold Parser.upTo at done
      split at done
      · next a u first =>
        split at done
        · next more v rest =>
          cases done
          have later := ih (before ++ [a]) u more r (step before t a u own first) rest
          simpa using later
        · cases done
        · cases done
      · cases done
        simpa using own
      · cases done
  simpa using upTo (s.length + 1) [] s as r start done

/-! ## Values -/

section Yields

variable {P : α → Prop} {Q : β → Prop}

theorem yields_any (p : Parser α) : Yields (fun _ => True) p :=
  fun _ _ _ _ => trivial

theorem yields_pure {a : α} (holds : P a) : Yields P (pure a) := by
  intro s b r done
  cases done
  exact holds

theorem yields_never : Yields P never :=
  fun _ _ _ done => nomatch done

theorem yields_abort (e : Fault) : Yields P (abort e) :=
  fun _ _ _ done => nomatch done

theorem yields_ofExcept {x : Except Fault α} (holds : ∀ a, x = .ok a → P a) :
    Yields P (ofExcept x) := by
  cases x with
  | error e => exact yields_abort e
  | ok a => exact yields_pure (holds a rfl)

theorem Yields.bind {p : Parser α} {f : α → Parser β} (first : Yields P p)
    (rest : ∀ a, P a → Yields Q (f a)) : Yields Q (p >>= f) := by
  intro s b r done
  obtain ⟨a, t, start, last⟩ := bind_eq_done done
  exact rest a (first s a t start) t b r last

theorem yields_skip {p : Parser α} {f : α → Parser β} (rest : ∀ a, Yields Q (f a)) :
    Yields Q (p >>= f) :=
  (yields_any p).bind fun a _ => rest a

theorem Yields.map {p : Parser α} {f : α → β} (yields : Yields P p)
    (holds : ∀ a, P a → Q (f a)) : Yields Q (f <$> p) :=
  yields.bind fun a own => yields_pure (holds a own)

theorem Yields.orElse {p q : Parser α} (first : Yields P p) (second : Yields P q) :
    Yields P (p <|> q) := by
  intro s a r done
  rcases orElse_eq_done done with done | ⟨-, done⟩
  · exact first s a r done
  · exact second s a r done

theorem Yields.maybe {p : Parser α} (yields : Yields P p) :
    Yields (fun a => ∀ x ∈ a, P x) (maybe p) := by
  refine (yields.map fun a own x mem => ?_).orElse (yields_pure (by simp))
  cases mem
  exact own

theorem Yields.many {p : Parser α} (yields : Yields P p) :
    Yields (fun as => ∀ a ∈ as, P a) (many p) := by
  intro s as r done
  refine many_invariant (M := fun as _ => ∀ a ∈ as, P a) (by simp) ?_ done
  intro before t a u own first
  exact forall_mem_append.mpr ⟨own, forall_mem_singleton.mpr (yields t a u first)⟩

theorem yields_run1 (p : Char → Bool) : Yields (fun cs => ∀ c ∈ cs, p c = true) (run1 p) :=
  fun _ _ _ done => (run1_eq_done done).2.1

theorem Reads.matched {C : Char → Prop} {p : Parser α} (reads : Reads C p) :
    Yields (fun cs => ∀ c ∈ cs, C c) (matched p) := by
  intro s cs r done
  unfold Parser.matched at done
  split at done
  · next a t first =>
    cases done
    obtain ⟨read, rfl, own⟩ := reads _ _ _ first
    rw [length_append, Nat.add_sub_cancel, take_left]
    exact own
  · cases done
  · cases done

theorem Yields.parse {p : Parser α} (yields : Yields P p) {a : α} (read : p.parse s = .ok a) : P a :=
  yields _ _ _ (parse_eq_ok read)

end Yields

/-! ## Characters -/

section Reads

variable {C : Char → Prop}

theorem reads_pure (a : α) : Reads C (pure a) := by
  intro s b r done
  cases done
  exact ⟨[], rfl, by simp⟩

theorem reads_never : Reads C (never : Parser α) :=
  fun _ _ _ done => nomatch done

theorem Reads.bind {p : Parser α} {f : α → Parser β} (first : Reads C p)
    (rest : ∀ a, Reads C (f a)) : Reads C (p >>= f) := by
  intro s b r done
  obtain ⟨a, t, start, last⟩ := bind_eq_done done
  obtain ⟨cs, rfl, own⟩ := first s a t start
  obtain ⟨ds, rfl, own'⟩ := rest a t b r last
  exact ⟨cs ++ ds, (append_assoc ..).symm, fun c mem =>
    (mem_append.mp mem).elim (own c) (own' c)⟩

theorem Reads.maybe {p : Parser α} (reads : Reads C p) : Reads C (maybe p) := by
  intro s a r done
  rcases orElse_eq_done done with done | ⟨-, done⟩
  · exact (reads.bind fun a => reads_pure (some a)) s a r done
  · exact reads_pure none s a r done

theorem Reads.many {p : Parser α} (reads : Reads C p) : Reads C (many p) := by
  intro s as r done
  refine many_invariant (M := fun _ t => ∃ cs, s = cs ++ t ∧ ∀ c ∈ cs, C c) ⟨[], rfl, by simp⟩ ?_ done
  rintro before t a u ⟨cs, rfl, own⟩ first
  obtain ⟨ds, rfl, own'⟩ := reads t a u first
  exact ⟨cs ++ ds, (append_assoc ..).symm, forall_mem_append.mpr ⟨own, own'⟩⟩

theorem reads_lit {text : String} (own : ∀ c ∈ text.toList, C c) : Reads C (lit text) :=
  fun _ _ _ done => ⟨text.toList, lit_eq_done done, own⟩

theorem reads_run1 {p : Char → Bool} (own : ∀ c, p c = true → C c) : Reads C (run1 p) := by
  intro s cs r done
  obtain ⟨-, all, text⟩ := run1_eq_done done
  exact ⟨cs, text, fun c mem => own c (all c mem)⟩

theorem reads_blanks (own : ∀ c, Text.isBlank c = true → C c) : Reads C blanks := by
  intro s a r done
  obtain ⟨gap, all, text⟩ := blanks_eq_done done
  exact ⟨gap, text, fun c mem => own c (all c mem)⟩

end Reads

end PacketDraft.Grammar.Parser
