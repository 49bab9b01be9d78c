import Mathlib.Data.List.Basic
import PacketDraft.Memo.Pages

/-!
# Paragraphs across page breaks

Where a paragraph runs on over a page break, the lines of the break should go, so that its two halves
meet. All of them do but the last: the blank line right above the body of the next page stays, and it
cuts the paragraph. The lines are followed piece by piece through both passes, taking off the pages
and squeezing the empty lines.
-/

namespace PacketDraft.Memo

open Text List

variable {lines : List String} {i k : Nat} {line : String}

/-- The lines that are left of a memo, without its pages and without repeated empty lines. -/
def cleanLines (lines : List String) : List String :=
  squeezeEmptyLines (withoutPageBreaks lines)

/-! ## Taking off the pages -/

/-- What belongs to the body of its page among the lines from a place on. -/
def bodyFrom (lines : List String) (start : Nat) (piece : List String) : List String :=
  (piece.zipIdx start).filterMap fun p => if isBody lines p.2 then some p.1 else none

theorem bodyFrom_append (lines : List String) (start : Nat) (piece piece' : List String) :
    bodyFrom lines start (piece ++ piece')
      = bodyFrom lines start piece ++ bodyFrom lines (start + piece.length) piece' := by
  rw [bodyFrom, zipIdx_append, filterMap_append]
  rfl

theorem bodyFrom_cons (lines : List String) (start : Nat) (line : String) (piece : List String) :
    bodyFrom lines start (line :: piece)
      = (if isBody lines start then [line] else []) ++ bodyFrom lines (start + 1) piece := by
  rw [bodyFrom, zipIdx_cons, filterMap_cons]
  split_ifs <;> simp_all [bodyFrom]

theorem bodyFrom_drop_of_body (body : isBody lines k = true) (there : lines[k]? = some line) :
    bodyFrom lines k (lines.drop k) = line :: bodyFrom lines (k + 1) (lines.drop (k + 1)) := by
  obtain ⟨lt, rfl⟩ := List.getElem?_eq_some_iff.mp there
  rw [drop_eq_getElem_cons lt, bodyFrom_cons, if_pos body]
  rfl

/-- Lines that do not belong to the body are passed over. -/
theorem bodyFrom_drop_add (n : Nat)
    (outside : ∀ j, k ≤ j → j < k + n → isBody lines j = false) :
    bodyFrom lines k (lines.drop k) = bodyFrom lines (k + n) (lines.drop (k + n)) := by
  induction n with
  | zero => rfl
  | succ n ih =>
    rw [ih fun j above below => outside j above (by omega)]
    by_cases lt : k + n < lines.length
    · rw [drop_eq_getElem_cons lt, bodyFrom_cons, outside (k + n) (by omega) (by omega)]
      rfl
    · rw [drop_eq_nil_of_le (by omega), drop_eq_nil_of_le (by omega)]
      rfl

/-- All places of a page but one belong to its body, or do not, by themselves. -/
theorem isBody_iff_of_ne (other : k % 56 ≠ 52) :
    isBody lines k = true ↔ 3 ≤ k % 56 ∧ k % 56 < 52 := by
  show (if k % 56 = 52 then !continuesAt lines k else 3 ≤ k % 56 && k % 56 < 52) = true ↔ _
  rw [if_neg other, Bool.and_eq_true, decide_eq_true_iff, decide_eq_true_iff]

/-- What comes later than a whole page does not matter for the lines before. -/
theorem isBody_take (place : i % 56 = 51) (before : k < i) :
    isBody (lines.take i) k = isBody lines k := by
  by_cases own : k % 56 = 52
  · have far : k + 8 < i := by omega
    have near : k - 1 < i := by omega
    simp only [isBody, continuesAt, List.getElem?_take, far, near, if_true]
  · rw [Bool.eq_iff_iff, isBody_iff_of_ne own, isBody_iff_of_ne own]

theorem bodyFrom_take (place : i % 56 = 51) :
    bodyFrom lines 0 (lines.take i) = withoutPageBreaks (lines.take i) := by
  refine filterMap_congr fun p mem => ?_
  have before : p.2 < i := by
    have lt := (mem_zipIdx mem).2.1
    rw [length_take] at lt
    omega
  show _ = if isBody (lines.take i) p.2 then some p.1 else none
  rw [isBody_take place before]

/-! ## Squeezing the empty lines -/

theorem squeezeAfter_full (full : line ≠ emptyLine) (emptyBefore : Bool) (later : List String) :
    squeezeAfter emptyBefore (line :: later) = line :: squeezeAfter false later := by
  rw [squeezeAfter, if_neg full]

/-- A line that is not empty is kept, and parts what comes before it from what comes after. -/
theorem squeezeAfter_append_full (full : line ≠ emptyLine) (emptyBefore : Bool)
    (earlier later : List String) :
    squeezeAfter emptyBefore (earlier ++ line :: later)
      = squeezeAfter emptyBefore earlier ++ line :: squeezeAfter false later := by
  induction earlier generalizing emptyBefore with
  | nil => exact squeezeAfter_full full emptyBefore later
  | cons first earlier ih =>
    rw [cons_append, squeezeAfter, squeezeAfter, ih, ih]
    split_ifs <;> rfl

/-- Between two lines that are not empty, any single line is kept. -/
theorem squeezeAfter_between {gap first : String} (full : first ≠ emptyLine) (later : List String) :
    squeezeAfter false (gap :: first :: later) = gap :: first :: squeezeAfter false later := by
  rw [squeezeAfter, squeezeAfter_full full, squeezeAfter_full full, if_neg Bool.false_ne_true,
    ite_self]

/-! ## Page breaks -/

/-- Whether a line holds nothing but newlines and form feeds. -/
def isBlankLine (line : String) : Bool :=
  line.toList.all fun c => c = '\n' || c = '\x0c'

/-- A page break in a paragraph. The `last` line of the page's body stands at place `i`. It is
followed by three blank lines, a footer, a blank line, a header and two blank lines, the second of
them the `gap`, before the `first` line of the next body, which is indented like the last one. -/
structure PageBreak (lines : List String) (i : Nat) (last gap first : String) : Prop where
  place : i % pageLength = 51
  lastLine : lines[i]? = some last
  blank : ∀ k ∈ [1, 2, 3, 5, 7, 8], lines[i + k]?.any isBlankLine = true
  gapLine : lines[i + 8]? = some gap
  firstLine : lines[i + 9]? = some first
  full : isBlankLine last = false ∧ isBlankLine first = false
  alike : indentation last.toList = indentation first.toList

/-- What is left of the lines before place `i` is followed by these lines. -/
def ContinuesWith (lines : List String) (i : Nat) (next : List String) : Prop :=
  cleanLines (lines.take i) ++ next <+: cleanLines lines

theorem ne_emptyLine (full : isBlankLine line = false) : line ≠ emptyLine := by
  rintro rfl
  cases full

namespace PageBreak

variable {last gap first : String}

section

variable (brk : PageBreak lines i last gap first)

include brk

/-- The blank line before the break goes, since the lines around it are indented alike. -/
theorem not_isBody_lastBodyPlace : isBody lines (i + 1) = false := by
  have own : (i + 1) % pageLength = lastBodyPlace := by
    have place : i % 56 = 51 := brk.place
    show (i + 1) % 56 = 52
    omega
  have goesOn : continuesAt lines (i + 1) = true := by
    rw [continuesAt, Nat.add_sub_cancel, brk.lastLine, show i + 1 + 8 = i + 9 from rfl, brk.firstLine]
    exact beq_iff_eq.mpr brk.alike
  simp [isBody, own, goesOn]

/-- Of the lines between the two halves of the paragraph, the last one belongs to the body. -/
theorem withoutPageBreaks_eq :
    withoutPageBreaks lines = withoutPageBreaks (lines.take i)
      ++ last :: gap :: first :: bodyFrom lines (i + 10) (lines.drop (i + 10)) := by
  have place : i % 56 = 51 := brk.place
  have skipped : ∀ j, i + 1 ≤ j → j < i + 1 + 7 → isBody lines j = false := by
    intro j above below
    by_cases next : j = i + 1
    · exact next ▸ brk.not_isBody_lastBodyPlace
    · rw [← Bool.not_eq_true, isBody_iff_of_ne (by omega)]
      omega
  have length : (lines.take i).length = i := by
    have lt := (List.getElem?_eq_some_iff.mp brk.lastLine).1
    rw [length_take]
    omega
  calc withoutPageBreaks lines
      = bodyFrom lines 0 (lines.take i ++ lines.drop i) := by rw [take_append_drop]; rfl
    _ = withoutPageBreaks (lines.take i) ++ bodyFrom lines i (lines.drop i) := by
      rw [bodyFrom_append, bodyFrom_take brk.place, length, Nat.zero_add]
    _ = _ := by
      rw [bodyFrom_drop_of_body ((isBody_iff_of_ne (by omega)).mpr (by omega)) brk.lastLine,
        bodyFrom_drop_add 7 skipped,
        bodyFrom_drop_of_body ((isBody_iff_of_ne (by omega)).mpr (by omega)) brk.gapLine,
        bodyFrom_drop_of_body ((isBody_iff_of_ne (by omega)).mpr (by omega)) brk.firstLine]

/-- The gap stays between the two halves of the paragraph. -/
theorem continuesWith_gap : ContinuesWith lines i [last, gap, first] := by
  refine ⟨squeezeAfter false (bodyFrom lines (i + 10) (lines.drop (i + 10))), ?_⟩
  rw [cleanLines, cleanLines, squeezeEmptyLines, squeezeEmptyLines, brk.withoutPageBreaks_eq,
    squeezeAfter_append_full (ne_emptyLine brk.full.1), squeezeAfter_between (ne_emptyLine brk.full.2),
    append_assoc]
  rfl

theorem gap_ne_first : gap ≠ first := by
  rintro rfl
  have blank := brk.blank 8 (by decide)
  rw [brk.gapLine, Option.any_some, brk.full.2] at blank
  cases blank

/-- So they do not meet. -/
theorem not_continuesWith : ¬ ContinuesWith lines i [last, first] := by
  intro meets
  obtain ⟨later, cut⟩ := brk.continuesWith_gap
  obtain ⟨later', joined⟩ := meets
  rw [← cut, append_assoc, append_assoc] at joined
  have same := append_cancel_left joined
  exact brk.gap_ne_first (by simpa using (List.cons.inj (List.cons.inj same).2).1.symm)

end

end PageBreak

/-- A paragraph that runs on over a page break is never joined again: in what is left of the memo,
one blank line of the break stands between its halves. -/
theorem gap_stays_at_page_break {last gap first : String}
    (brk : PageBreak lines i last gap first) :
    ContinuesWith lines i [last, gap, first] ∧ ¬ ContinuesWith lines i [last, first] :=
  ⟨brk.continuesWith_gap, brk.not_continuesWith⟩

/-- A memo with a page break in the only paragraph of its first section. -/
def brokenMemo : List String :=
  ["\n", "\n", "\n", "Network WG                 J. Doe\n", "Internet-Draft     June 2020\n", "\n",
    "  A Tiny Title\n", "     draft-tiny-doc-00\n", "\n", "Abstract\n", "\n",
    "   Short abstract text.\n", "\n", "Status of This Memo\n", "\n", "   Memo text.\n", "\n",
    "Copyright Notice\n", "\n", "   Copyright text 2020.\n", "\n", "Table of Contents\n", "\n",
    "   1.  Intro . . .  2\n", "   Appendix A.  End . . 3\n", "\n", "1.  Intro\n"]
  ++ List.replicate 24 "\n"
  ++ ["   This paragraph goes on\n", "\n", "\n", "\n",
    "Doe               Expires December 2020                 [Page 1]\n", "\x0c\n",
    "Internet-Draft              A Tiny Title              June 2020\n", "\n", "\n",
    "   behind the page break.\n", "\n", "Appendix A.  End\n", "\n", "   The end.\n", "\n",
    "Authors' Addresses\n", "\n", "   Jo Doe\n", "\n"]

theorem brokenMemo_pageBreak :
    PageBreak brokenMemo 51 "   This paragraph goes on\n" "\n" "   behind the page break.\n" where
  place := rfl
  lastLine := rfl
  blank := by decide
  gapLine := rfl
  firstLine := rfl
  full := by decide
  alike := by decide

theorem gap_stays_in_brokenMemo :
    PageBreak brokenMemo 51 "   This paragraph goes on\n" "\n" "   behind the page break.\n" ∧
    ContinuesWith brokenMemo 51 ["   This paragraph goes on\n", "\n", "   behind the page break.\n"] ∧
    ¬ ContinuesWith brokenMemo 51 ["   This paragraph goes on\n", "   behind the page break.\n"] :=
  ⟨brokenMemo_pageBreak, gap_stays_at_page_break brokenMemo_pageBreak⟩

theorem brokenMemo_not_joined :
    ¬ ∀ (lines : List String) (i : Nat) (last gap first : String),
      PageBreak lines i last gap first → ContinuesWith lines i [last, first] :=
  fun joins => brokenMemo_pageBreak.not_continuesWith (joins _ _ _ _ _ brokenMemo_pageBreak)

end PacketDraft.Memo
