import PacketDraft.Command.Run
import PacketDraft.Proofs.Grammar.Reading

/-!
# Memos and their newlines

The first thing in a memo is a header line, which ends with a newline. Taking off pages adds no
character, so lines that have lost their newlines never make up a memo. The command cuts a text into
such lines, and so it takes no text for a memo, however well it is read by itself.
-/

namespace PacketDraft.Memo

open Document Grammar Grammar.Parser Text List
open Command Library Render

/-! ## Where newlines are lost -/

theorem squeezeAfter_subset (emptyBefore : Bool) (lines : List String) :
    squeezeAfter emptyBefore lines ⊆ lines := by
  fun_induction squeezeAfter emptyBefore lines with
  | case1 => exact List.Subset.refl _
  | case2 lines ih => exact subset_cons_of_subset _ ih
  | case3 _ lines _ ih => exact cons_subset_cons _ ih
  | case4 _ line lines _ ih => exact cons_subset_cons line ih

theorem withoutPageBreaks_subset (lines : List String) : withoutPageBreaks lines ⊆ lines := by
  intro line mem
  obtain ⟨⟨own, i⟩, place, kept⟩ := mem_filterMap.mp mem
  simp only [Option.ite_none_right_eq_some, Option.some.injEq] at kept
  rw [← kept.2]
  exact (mem_zipIdx place).2.2 ▸ getElem_mem _

/-- A memo without its pages has no character that its lines do not have. -/
theorem exists_line_of_mem_bodyText {lines : List String} {c : Char}
    (mem : c ∈ (bodyText lines).toList) : ∃ line ∈ lines, c ∈ line.toList := by
  rw [bodyText, String.toList_join, mem_flatMap] at mem
  obtain ⟨line, kept, own⟩ := mem
  exact ⟨line, withoutPageBreaks_subset lines (squeezeAfter_subset true _ kept), own⟩

/-! ## Nothing is read without a newline -/

theorem newline_unfit {s : List Char} (none : '\n' ∉ s) : newline s = .unfit := by
  refine lit_unfit fun rest start => none ?_
  rw [start]
  exact mem_append_left _ (by decide)

theorem headerLine_unfit {s : List Char} (none : '\n' ∉ s) : headerLine s = .unfit := by
  have words : '\n' ∉ s.dropWhile (· == ' ') := fun mem =>
    none ((List.dropWhile_suffix _).subset mem)
  have skipped : spaces s = .done (s.takeWhile (· == ' ')) (s.dropWhile (· == ' ')) := rfl
  refine (bind_done skipped).trans ?_
  cases start : s.dropWhile (· == ' ') with
  | nil => exact bind_unfit rfl
  | cons c cs =>
    rw [start] at words
    by_cases visible : Description.isVisible c = true
    · refine (bind_done (if_pos visible)).trans ?_
      exact newline_unfit fun mem => words ((List.dropWhile_suffix _).subset mem)
    · exact bind_unfit (if_neg visible)

theorem memo_unfit {s : List Char} (none : '\n' ∉ s) : memo s = .unfit :=
  bind_unfit (bind_unfit (bind_unfit (headerLine_unfit none)))

/-- Lines without newlines are no memo. -/
theorem read_unmatched {lines : List String} (none : ∀ line ∈ lines, '\n' ∉ line.toList) :
    read lines = .error .unmatched := by
  have unfit : memo (bodyText lines).toList = .unfit := by
    refine memo_unfit fun mem => ?_
    obtain ⟨line, own, there⟩ := exists_line_of_mem_bodyText mem
    exact none line own there
  rw [read, Parser.parse, unfit]
  rfl

/-! ## Texts that are made of lines -/

theorem linesKeeping_append {body : List Char} (none : '\n' ∉ body) (rest : List Char) :
    linesKeeping (body ++ '\n' :: rest) = (body ++ ['\n']) :: linesKeeping rest := by
  induction body with
  | nil => rfl
  | cons c body ih =>
    have other : (c == '\n') = false := by
      rw [beq_eq_false_iff_ne]
      exact (ne_of_not_mem_cons none).symm
    have shorter : linesBy (· == '\n') (body ++ '\n' :: rest) = _ :: _ :=
      ih (not_mem_of_not_mem_cons none)
    show linesBy (· == '\n') (c :: (body ++ '\n' :: rest)) = _
    simp only [linesBy, other, Bool.false_eq_true, if_false, shorter, cons_append]

/-- A text made of lines is read as these lines. -/
theorem ofText_join {bodies : List String} (none : ∀ body ∈ bodies, '\n' ∉ body.toList) :
    ofText (String.join (bodies.map (· ++ "\n"))) = read (bodies.map (· ++ "\n")) := by
  rw [ofText, String.toList_join]
  congr 1
  induction bodies with
  | nil => rfl
  | cons body bodies ih =>
    have line : (body ++ "\n").toList = body.toList ++ ['\n'] := String.toList_append
    rw [map_cons, flatMap_cons, line, append_assoc, singleton_append,
      linesKeeping_append (none body mem_cons_self), map_cons,
      ih fun b mem => none b (mem_cons_of_mem body mem), ← line, String.ofList_toList]

/-! ## The command -/

theorem memoDocument_unmatched (text : String) :
    memoDocument text.toUTF8 = .error .unmatched := by
  have valid : String.fromUTF8? text.toUTF8 = some text := by
    rw [String.fromUTF8?, String.toUTF8_eq_toByteArray, dif_pos text.isValidUTF8]
    rfl
  rw [memoDocument, valid]
  refine read_unmatched fun line mem => ?_
  obtain ⟨l, own, rfl⟩ := mem_map.mp mem
  rw [String.toList_ofList]
  obtain ⟨whole, -, rfl⟩ := mem_map.mp own
  intro kept
  have ends := (mem_filter.mp kept).2
  revert ends
  decide

/-- The command takes no text for a memo, and so it never comes to build a protocol from one. It
agrees with reading the text by itself only on texts that are not memos either way. -/
theorem command_reads_no_memo {shelves : Shelves} {args : Arguments} {format : Format}
    {text : String} (known : Format.ofName? args.format = some format)
    (found : (shelves.find args.document []).1 = .ok (some ⟨".txt", text.toUTF8⟩)) :
    (∀ document, memoDocument text.toUTF8 ≠ .ok document) ∧
      (memoDocument text.toUTF8 = ofText text ↔ ofText text = .error .unmatched) ∧
      Command.run shelves args = .error .unmatched := by
  have unmatched := memoDocument_unmatched text
  refine ⟨fun document read => ?_, ?_, ?_⟩
  · rw [unmatched] at read
    cases read
  · rw [unmatched]
    exact eq_comm
  · have source : sourceDocument ⟨".txt", text.toUTF8⟩ = .error .unmatched := by
      show some <$> memoDocument text.toUTF8 = _
      rw [unmatched]
      rfl
    rw [Command.run, known]
    show ((shelves.find args.document []).1 >>= _) = _
    rw [found]
    show (sourceDocument _ >>= _) = _
    rw [source]
    rfl

/-- The lines of a memo on a protocol with one packet. -/
def pingLines : List String :=
  ["", "", "", "Network WG                 J. Doe", "Internet-Draft     June 2020", "",
    "  A Tiny Title", "     draft-tiny-doc-00", "", "Abstract", "", "   Short abstract text.", "",
    "Status of This Memo", "", "   Memo text.", "", "Copyright Notice", "",
    "   Copyright text 2020.", "", "Table of Contents", "", "   1.  Intro . . .  2",
    "   Appendix A.  End . . 3", "", "1.  Intro", "",
    "   This document describes the Example protocol. The Example protocol", "   uses Pings.", "",
    "   A Ping is formatted as follows:", "", "    0", "    0 1 2 3 4 5 6 7",
    "   +-+-+-+-+-+-+-+-+", "   |     Code      |", "   +-+-+-+-+-+-+-+-+", "", "   where:", "",
    "   Code: 8 bits.", "      A code.", "", "Appendix A.  End", "", "   The end.", "",
    "Authors' Addresses", "", "   Jo Doe", ""]

def pingMemo : String :=
  String.join (pingLines.map (· ++ "\n"))

/-- The memo as the only file there is. -/
def pingShelves : Shelves where
  files path := if path = "ping.txt" then .file pingMemo.toUTF8 else .absent

theorem command_reads_no_ping_memo :
    (∀ document, memoDocument pingMemo.toUTF8 ≠ .ok document) ∧
      (memoDocument pingMemo.toUTF8 = ofText pingMemo ↔ ofText pingMemo = .error .unmatched) ∧
      Command.run pingShelves ⟨".", "rust", "ping.txt"⟩ = .error .unmatched :=
  command_reads_no_memo (show Format.ofName? "rust" = some .rust from rfl) rfl

theorem ping_memo_not_read_by_command :
    ∃ document, ofText pingMemo = .ok document ∧ memoDocument pingMemo.toUTF8 ≠ .ok document := by
  have reads : (read (pingLines.map (· ++ "\n"))).isOk = true := by
    rw [read, bodyText, String.toList_join]
    decide +kernel
  rw [pingMemo, ofText_join (by decide +kernel)]
  cases found : read (pingLines.map (· ++ "\n")) with
  | error fault =>
    rw [found] at reads
    cases reads
  | ok document =>
    refine ⟨document, rfl, ?_⟩
    rw [memoDocument_unmatched]
    intro same
    cases same

end PacketDraft.Memo
