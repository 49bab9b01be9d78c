import Mathlib.Data.List.Basic
import PacketDraft.Text.Blank

/-!
# Trimmed texts and their words

A text with no character of a class at either end is what trimming leaves of it, whatever stands
around it. Blanks cut a text into words, so that the words of pieces with blanks between them are
the words of the pieces.
-/

namespace PacketDraft.Text

open List

variable {cs : List Char} {p : Char → Bool}

/-- No character of a class stands at either end of a text. -/
structure Trimmed (p : Char → Bool) (cs : List Char) : Prop where
  first : ∀ c ∈ cs.head?, p c = false
  last : ∀ c ∈ cs.getLast?, p c = false

/-- What is not trimmed of a wider class is not trimmed of a narrower one. -/
theorem Trimmed.mono {q : Char → Bool} (trimmed : Trimmed p cs) (le : ∀ c, q c = true → p c = true) :
    Trimmed q cs := by
  have not : ∀ c, p c = false → q c = false := by
    intro c other
    cases narrow : q c with
    | false => rfl
    | true => exact absurd (le c narrow) (by simp [other])
  exact ⟨fun c head => not c (trimmed.first c head), fun c last => not c (trimmed.last c last)⟩

theorem dropWhile_of_head (h : ∀ c ∈ cs.head?, p c = false) : cs.dropWhile p = cs := by
  cases cs with
  | nil => rfl
  | cons c cs => exact dropWhile_cons_of_neg (by simp [h c rfl])

theorem dropWhile_append_of_head (h : ∀ c ∈ cs.head?, p c = false) (before : List Char) :
    (before ++ cs).dropWhile p = before.dropWhile p ++ cs := by
  rw [dropWhile_append]
  split
  · next none => rw [isEmpty_iff.mp none, nil_append, dropWhile_of_head h]
  · rfl

/-- Trimming takes off what stands around a trimmed text. -/
theorem trim_around {before after : List Char} (left : ∀ c ∈ before, p c = true)
    (right : ∀ c ∈ after, p c = true) (trimmed : Trimmed p cs) :
    trim p (before ++ (cs ++ after)) = cs := by
  unfold trim
  rw [dropWhile_append_of_pos left]
  cases cs with
  | nil =>
    have none : (after ++ []).dropWhile p = [] := dropWhile_append_of_pos right
    rw [append_nil] at none
    rw [nil_append, none]
    rfl
  | cons c cs =>
    have kept : (c :: cs ++ after).dropWhile p = c :: cs ++ after :=
      dropWhile_of_head trimmed.first
    have back : ∀ d ∈ after.reverse, p d = true := fun d mem => right d (mem_reverse.mp mem)
    have ends : ∀ d ∈ (c :: cs).reverse.head?, p d = false := by
      rw [List.head?_reverse]
      exact trimmed.last
    rw [kept, reverse_append, dropWhile_append_of_pos back, dropWhile_of_head ends,
      reverse_reverse]

theorem trim_append {after : List Char} (trimmed : Trimmed p cs) (right : ∀ c ∈ after, p c = true) :
    trim p (cs ++ after) = cs := by
  have none : ∀ c ∈ ([] : List Char), p c = true := by simp
  exact trim_around none right trimmed

theorem trim_of_trimmed (trimmed : Trimmed p cs) : trim p cs = cs := by
  have around : trim p (cs ++ []) = cs := trim_append trimmed (by simp)
  rwa [append_nil] at around

/-- Behind a visible character, blanks are taken off at the end only. -/
theorem strip_cons {c : Char} (visible : isBlank c = false) (cs : List Char) :
    strip (c :: cs) = c :: (cs.reverse.dropWhile isBlank).reverse := by
  have front : (c :: cs).dropWhile isBlank = c :: cs := dropWhile_of_head (by simp [visible])
  unfold strip trim
  rw [front, reverse_cons, dropWhile_append_of_head (by simp [visible]), reverse_append]
  rfl

/-! ## Pieces with something between them -/

theorem intercalate_cons {α : Type} (gap first : List α) (rest : List (List α)) :
    gap.intercalate (first :: rest) = first ++ rest.flatMap (gap ++ ·) := by
  induction rest generalizing first with
  | nil => simp
  | cons next rest ih =>
    rw [intercalate_cons_cons, ih next, flatMap_cons, append_assoc,
      append_assoc]

theorem intercalate_append_cons {α : Type} (gap piece : List α) (before after : List (List α)) :
    gap.intercalate (before ++ piece :: after)
      = before.flatMap (· ++ gap) ++ (piece ++ after.flatMap (gap ++ ·)) := by
  induction before with
  | nil => exact intercalate_cons gap piece after
  | cons first before ih =>
    have more : before ++ piece :: after ≠ [] := by simp
    rw [cons_append, intercalate_cons_of_ne_nil more, ih, flatMap_cons,
      append_assoc, append_assoc, append_assoc]

theorem mem_intercalate {α : Type} {gap : List α} {pieces : List (List α)} {a : α}
    (mem : a ∈ gap.intercalate pieces) : a ∈ gap ∨ ∃ piece ∈ pieces, a ∈ piece := by
  cases pieces with
  | nil => cases mem
  | cons first rest =>
    rw [intercalate_cons, mem_append, mem_flatMap] at mem
    rcases mem with own | ⟨piece, listed, later⟩
    · exact .inr ⟨first, mem_cons_self, own⟩
    · rcases mem_append.mp later with between | inside
      · exact .inl between
      · exact .inr ⟨piece, mem_cons_of_mem first listed, inside⟩

/-! ## Words -/

/-- Nothing of a word reaches over a blank. -/
theorem words_append_blank {c : Char} (blank : isBlank c = true) (x y : List Char) :
    words (x ++ c :: y) = words x ++ words y := by
  unfold words
  rw [splitOnP_append_cons x y blank, filter_append]

theorem words_of_visible {w : List Char} (nonempty : w ≠ [])
    (visible : ∀ c ∈ w, isBlank c = false) : words w = [w] := by
  unfold words
  rw [splitOnP_eq_singleton visible]
  simp [nonempty]

/-- No piece has a character at which the text is split. -/
theorem not_of_mem_splitOnP {piece : List Char} (mem : piece ∈ cs.splitOnP p) :
    ∀ c ∈ piece, p c = false := by
  induction cs generalizing piece with
  | nil =>
    rw [splitOnP_nil, mem_singleton] at mem
    simp [mem]
  | cons c cs ih =>
    rw [splitOnP_cons_eq_if_modifyHead] at mem
    split at mem
    · rcases mem_cons.mp mem with rfl | mem
      · simp
      · exact ih mem
    · next other =>
      obtain ⟨first, rest, shape⟩ := exists_cons_of_ne_nil (splitOnP_ne_nil p cs)
      rw [shape, modifyHead_cons] at mem
      rcases mem_cons.mp mem with rfl | mem
      · refine forall_mem_cons.mpr ⟨by simpa using other, ih ?_⟩
        exact shape ▸ mem_cons_self
      · exact ih (shape ▸ mem_cons_of_mem first mem)

/-- The only blanks in a squeezed text are single spaces. -/
theorem eq_space_of_mem_squeeze {c : Char} (mem : c ∈ squeeze cs) (blank : isBlank c = true) :
    c = ' ' := by
  rcases mem_intercalate mem with gap | ⟨word, listed, own⟩
  · exact mem_singleton.mp gap
  · have visible := not_of_mem_splitOnP (mem_of_mem_filter listed) c own
    rw [blank] at visible
    cases visible

/-- The words of pieces with a blank between neighbours are the words of the pieces. -/
theorem words_intercalate (pieces : List (List Char)) :
    words ([' '].intercalate pieces) = pieces.flatMap words := by
  induction pieces with
  | nil => rfl
  | cons piece pieces ih =>
    cases pieces with
    | nil => simp
    | cons next pieces =>
      rw [intercalate_cons_cons, append_assoc, singleton_append,
        words_append_blank (by decide), ih, ← flatMap_cons]

theorem flatten_splitOnP (p : Char → Bool) (cs : List Char) :
    (cs.splitOnP p).flatten = cs.filter (!p ·) := by
  induction cs with
  | nil => simp
  | cons c cs ih =>
    rw [splitOnP_cons_eq_if_modifyHead]
    by_cases own : p c = true
    · simp [own, ih]
    · obtain ⟨first, rest, shape⟩ := exists_cons_of_ne_nil (splitOnP_ne_nil p cs)
      rw [shape] at ih
      simp [own, shape, ← ih]

/-- The words of a text are all that is visible of it. -/
theorem flatten_words (cs : List Char) : (words cs).flatten = cs.filter (!isBlank ·) := by
  rw [← flatten_splitOnP]
  unfold words
  exact flatten_filter_ne_nil

/-- A text that starts with a visible character starts so when it is squeezed; what follows is made of
the other visible ones and of spaces. -/
theorem squeeze_cons {c : Char} (visible : isBlank c = false) (cs : List Char) :
    ∃ rest, squeeze (c :: cs) = c :: rest ∧ (rest = [] ↔ ∀ d ∈ cs, isBlank d = true) ∧
      ∀ d ∈ rest, d = ' ' ∨ d ∈ cs ∧ isBlank d = false := by
  have text : (words (c :: cs)).flatten = c :: cs.filter (!isBlank ·) := by
    rw [flatten_words, filter_cons_of_pos (by simp [visible])]
  have nonempty : ∀ w ∈ words (c :: cs), w ≠ [] := by
    intro w mem
    simpa using (mem_filter.mp mem).2
  unfold squeeze
  generalize words (c :: cs) = ws at text nonempty
  cases ws with
  | nil => cases text
  | cons w ws =>
    rw [forall_mem_cons] at nonempty
    obtain ⟨first, w, rfl⟩ := exists_cons_of_ne_nil nonempty.1
    rw [flatten_cons, cons_append] at text
    obtain ⟨rfl, others⟩ := List.cons.inj text
    refine ⟨w ++ ws.flatMap ([' '] ++ ·), intercalate_cons .., ?_, fun d mem => ?_⟩
    · have none : (∀ d ∈ cs, isBlank d = true) ↔ w ++ ws.flatten = [] := by
        simp [others, filter_eq_nil_iff]
      rw [none]
      cases ws with
      | nil => simp
      | cons next ws => simp [(forall_mem_cons.mp nonempty.2).1]
    · have listed : ∀ d ∈ w ++ ws.flatten, d ∈ cs ∧ isBlank d = false := by
        simp [others]
      rw [mem_append, mem_flatMap] at mem
      rcases mem with own | ⟨word, mem, own⟩
      · exact .inr (listed d (mem_append_left _ own))
      · rcases mem_cons.mp own with gap | own
        · exact .inl gap
        · exact .inr (listed d (mem_append_right _ (mem_flatten_of_mem mem own)))
end PacketDraft.Text
