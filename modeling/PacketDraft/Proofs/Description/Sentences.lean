import PacketDraft.Description.Sentence
import PacketDraft.Proofs.Description.Words

/-!
# Reading back declaration sentences

A sentence is written from the names that it mentions. A name ends only at punctuation or at a
reserved word, so that each name stops just before the words of the sentence that follow it. So
enumerations, the definition of the protocol and the introduction of a structure give back their
names in the singular and in order, however many there are.
-/

namespace PacketDraft.Description

open Grammar Grammar.Parser Text List Sentence

variable {rest : List Char} {w : String}

/-! ## Written sentences -/

/-- The article in front of a name. -/
inductive Article where
  | a | an
  deriving DecidableEq, Repr

/-- An article within a sentence. -/
def Article.lower : Article → String
  | a => "a "
  | an => "an "

/-- An article at the start of a sentence. -/
def Article.upper : Article → String
  | a => "A "
  | an => "An "

/-- A name with its article. -/
structure Mention where
  article : Article
  name : Words isPhraseWord

/-- `a Name` -/
def Mention.text (m : Mention) : List Char :=
  m.article.lower.toList ++ m.name.text

/-- `A Name` -/
def Mention.opening (m : Mention) : List Char :=
  m.article.upper.toList ++ m.name.text

/-- Further pieces of a list behind commas, the last one after a word of its own. -/
def furtherText (link : String) : List (List Char) → List Char
  | [] => []
  | [last] => ", ".toList ++ (link.toList ++ last)
  | next :: after :: more => ", ".toList ++ (next ++ furtherText link (after :: more))

/-- `A Name is either a First or a Second.` -/
def eitherText (name first second : Mention) : List Char :=
  name.opening ++ ' ' :: ("is either ".toList ++ (first.text ++ ' ' :: ("or ".toList
    ++ (second.text ++ ".".toList))))

/-- `A Name is one of: a First, a Second, or a Third.` -/
def oneOfText (name first : Mention) (more : List Mention) : List Char :=
  name.opening ++ ' ' :: ("is one of: ".toList ++ (first.text
    ++ (furtherText "or " (more.map Mention.text) ++ ".".toList)))

/-- Words with a blank behind each. -/
def fixedText : List String → List Char
  | [] => []
  | w :: ws => w.toList ++ ' ' :: fixedText ws

/-- `This document describes the Name protocol. The Name protocol uses First, Second, and Third.` -/
def protocolText (name first : Words isPhraseWord) (more : List (Words isPhraseWord)) : List Char :=
  fixedText ["This", "document", "describes", "the"] ++ (name.text ++ ' ' ::
    (fixedText ["protocol.", "The"] ++ (name.text ++ ' ' :: (fixedText ["protocol", "uses"]
      ++ (first.text ++ (furtherText "and " (more.map Words.text) ++ ".".toList))))))

/-- `A Name is formatted as follows:`, then anything. -/
def preambleText (name : Mention) (more : List Char) : List Char :=
  name.opening ++ ' ' :: (fixedText ["is", "formatted", "as"] ++ ("follows:".toList ++ more))

/-! ## Names and what follows them -/

theorem letters_of_reserved (known : w ∈ reserved) :
    w.toList ≠ [] ∧ ∀ c ∈ w.toList, isPhraseChar c = true := by
  have letters : reserved.all (fun w => !w.toList.isEmpty && w.toList.all isPhraseChar) = true := by
    decide
  simpa using all_eq_true.mp letters w known

/-- A reserved word is no word of a name. -/
theorem phraseWord_reserved (known : w ∈ reserved) (stop : ∀ c ∈ rest.head?, isPhraseChar c = false) :
    phraseWord (w.toList ++ rest) = .unfit := by
  obtain ⟨nonempty, letters⟩ := letters_of_reserved known
  have read : hyphenated (w.toList ++ rest) = .done w.toList rest :=
    run1_append nonempty letters stop
  have found : reserved.contains w = true := elem_eq_true_of_mem known
  unfold phraseWord
  rw [bind_done read, String.ofList_toList, found]
  rfl

/-- A name is read up to a reserved word behind it. -/
theorem phrase_reserved (name : Words isPhraseWord) {text tail : List Char} {d : Char}
    (known : w ∈ reserved) (start : text = w.toList ++ d :: tail) (stop : isPhraseChar d = false) :
    phrase (name.text ++ ' ' :: text) = .done name.singular text := by
  have gap : ∀ c ∈ [' '], isBlank c = true := by simp [isBlank]
  obtain ⟨nonempty, letters⟩ := letters_of_reserved known
  obtain ⟨c, cs, word⟩ := exists_cons_of_ne_nil nonempty
  have noWord : phraseWord text = .unfit := by
    rw [start]
    exact phraseWord_reserved known (forall_head_cons stop)
  have visible : ∀ c ∈ text.head?, isBlank c = false := by
    rw [start, word]
    exact forall_head_cons (isBlank_of_isPhraseChar (letters c (by simp [word])))
  exact phrase_before name gap (forall_head_cons (by decide)) visible noWord

theorem Words.head_visible (name : Words isPhraseWord) (rest : List Char) :
    ∀ c ∈ (name.text ++ rest).head?, isBlank c = false := by
  obtain ⟨c, cs, start, w, mem, letter⟩ := name.starts visible_isPhraseWord
  rw [start]
  exact forall_head_cons ((visible_isPhraseWord w (name.all w mem)).2 c letter)

/-- A name does not start with a reserved word. -/
theorem lit_unfit_of_reserved (name : Words isPhraseWord) {text : String} (known : w ∈ reserved)
    (word : text.toList = w.toList ++ [' ']) (stop : ∀ c ∈ rest.head?, isPhraseChar c = false) :
    lit text (name.text ++ rest) = .unfit := by
  refine lit_unfit fun more equal => ?_
  obtain ⟨first, others, list⟩ := exists_cons_of_ne_nil name.nonempty
  have own := name.all first (by simp [list])
  have read : ∃ r, phraseWord (name.text ++ rest) = .done first.toList r := by
    rw [Words.text, list]
    cases others with
    | nil =>
      rw [spaced_singleton]
      exact ⟨rest, phraseWord_append own stop⟩
    | cons next others =>
      rw [spaced_cons_cons, append_assoc]
      exact ⟨_, phraseWord_append own (forall_head_cons (by decide))⟩
  obtain ⟨r, read⟩ := read
  have other : phraseWord (w.toList ++ ' ' :: more) = .unfit :=
    phraseWord_reserved known (forall_head_cons (by decide))
  rw [equal, word, append_assoc, singleton_append, other] at read
  cases read

/-! ## Articles and openings -/

/-- Of two articles that start alike, the longer one is tried first. -/
theorem articles_text {short long : String} {c : Char} (shortText : short.toList = [c, ' '])
    (longText : long.toList = [c, 'n', ' ']) (visible : isBlank c = false) (s : List Char) :
    (token long <|> token short) (short.toList ++ s) = .done short s ∧
      (token long <|> token short) (long.toList ++ s) = .done long s := by
  constructor
  · have other : token long (short.toList ++ s) = .unfit := by
      rw [shortText]
      refine (token_of_head (forall_head_cons visible)).trans ?_
      exact lit_unfit_of_second longText (forall_head_cons (by decide))
    exact (orElse_unfit other).trans (token_append shortText visible s)
  · exact orElse_done (token_append longText visible s)

theorem article_upper (k : Article) (s : List Char) :
    article (k.upper.toList ++ s) = .done k.upper s := by
  have texts := articles_text (show "A ".toList = _ from rfl) (show "An ".toList = _ from rfl) rfl s
  cases k with
  | a => exact texts.1
  | an => exact texts.2

theorem innerArticle_lower (k : Article) (s : List Char) :
    Sentence.innerArticle (k.lower.toList ++ s) = .done k.lower s := by
  have texts := articles_text (show "a ".toList = _ from rfl) (show "an ".toList = _ from rfl) rfl s
  cases k with
  | a => exact texts.1
  | an => exact texts.2

/-- Nothing comes before a sentence that starts at once. -/
theorem leadIn_none {α : Type} {starts : List String} {gap : Parser α}
    (start : starts.contains w = true) (nonempty : w.toList ≠ [])
    (letters : w.toList.all isVisible = true) (stop : ∀ c ∈ rest.head?, isVisible c = false) :
    leadIn starts gap (w.toList ++ rest) = .done () (w.toList ++ rest) := by
  have read : word (w.toList ++ rest) = .done w.toList rest :=
    run1_append nonempty (all_eq_true.mp letters) stop
  have first : (do
      let w ← word
      if starts.contains (String.ofList w) then never else
        let _ ← gap
        pure () : Parser Unit) (w.toList ++ rest) = .unfit := by
    rw [bind_done read, String.ofList_toList, start]
    rfl
  unfold leadIn many1
  rw [bind_done (maybe_unfit (bind_unfit first))]
  rfl

theorem leadIn_upper {α : Type} (gap : Parser α) (k : Article) (s : List Char) :
    leadIn ["An", "A"] gap (k.upper.toList ++ s) = .done () (k.upper.toList ++ s) := by
  have stop : ∀ c ∈ (' ' :: s).head?, isVisible c = false := forall_head_cons (by decide)
  cases k with
  | a =>
    have text : Article.a.upper.toList ++ s = "A".toList ++ ' ' :: s := rfl
    rw [text]
    exact leadIn_none (by decide) (by decide) (by decide) stop
  | an =>
    have text : Article.an.upper.toList ++ s = "An".toList ++ ' ' :: s := rfl
    rw [text]
    exact leadIn_none (by decide) (by decide) (by decide) stop

theorem opening_upper (m : Mention) (s : List Char) :
    Sentence.opening (m.opening ++ s) = .done () (m.name.text ++ s) := by
  unfold Sentence.opening Mention.opening
  rw [append_assoc, bind_done (leadIn_upper _ _ _), bind_done (article_upper _ _)]
  rfl

/-! ## Lists -/

/-- A comma or a full stop follows. -/
def Punctuated (rest : List Char) : Prop :=
  ∀ c ∈ rest.head?, c = ',' ∨ c = '.'

theorem Punctuated.stop (ends : Punctuated rest) :
    ∀ c ∈ rest.head?, isPhraseChar c = false ∧ isBlank c = false := by
  intro c head
  rcases ends c head with rfl | rfl <;> decide

theorem punctuated_stop : Punctuated ".".toList :=
  forall_head_cons (.inr rfl)

theorem punctuated_further (link : String) (pieces : List (List Char)) :
    Punctuated (furtherText link pieces ++ ".".toList) := by
  match pieces with
  | [] => exact punctuated_stop
  | [_] => exact forall_head_cons (.inl rfl)
  | _ :: _ :: _ => exact forall_head_cons (.inl rfl)

/-- Pieces behind commas are read one after the other, if each is, with or without the word in front
of the last. -/
theorem steps_further {ι α : Type} {p : Parser α} {link : String} {text : ι → List Char}
    {value : ι → α}
    (plain : ∀ i rest, Punctuated rest → p (", ".toList ++ (text i ++ rest)) = .done (value i) rest)
    (linked : ∀ i rest, Punctuated rest →
      p (", ".toList ++ (link.toList ++ (text i ++ rest))) = .done (value i) rest)
    (items : List ι) :
    Steps p (furtherText link (items.map text) ++ ".".toList) (items.map value) ".".toList := by
  match items with
  | [] => exact .refl _
  | [last] =>
    have read := linked last ".".toList punctuated_stop
    simp only [map_cons, map_nil, furtherText, append_assoc]
    refine .cons read ?_ (.refl _)
    simp
  | next :: after :: more =>
    have ends := punctuated_further link ((after :: more).map text)
    have read := plain next _ ends
    simp only [map_cons, furtherText, append_assoc]
    refine .cons read ?_ (steps_further plain linked (after :: more))
    simp
    omega

/-! ## Enumerations -/

/-- One more variant behind a comma. -/
def nextVariant : Parser String := do
  let _ ← lit ", "
  let _ ← maybe (lit "or ")
  let _ ← Sentence.innerArticle
  phrase

theorem innerArticle_phrase (m : Mention) {value : String} {left : List Char}
    (read : phrase (m.name.text ++ rest) = .done value left) :
    (Sentence.innerArticle >>= fun _ => phrase) (m.text ++ rest) = .done value left := by
  rw [Mention.text, append_assoc, bind_done (innerArticle_lower _ _), read]

theorem nextVariant_plain (m : Mention) (ends : Punctuated rest) :
    nextVariant (", ".toList ++ (m.text ++ rest)) = .done m.name.singular rest := by
  have noLink : lit "or " (m.text ++ rest) = .unfit := by
    rw [Mention.text, append_assoc]
    cases m.article with
    | a => exact lit_unfit_of_head rfl (show 'a' ≠ 'o' by decide)
    | an => exact lit_unfit_of_head rfl (show 'a' ≠ 'o' by decide)
  unfold nextVariant
  rw [bind_done (lit_append _ _), bind_done (maybe_unfit noLink)]
  exact innerArticle_phrase m (phrase_text m.name ends.stop)

theorem nextVariant_linked (m : Mention) (ends : Punctuated rest) :
    nextVariant (", ".toList ++ ("or ".toList ++ (m.text ++ rest)))
      = .done m.name.singular rest := by
  unfold nextVariant
  rw [bind_done (lit_append _ _), bind_done (maybe_done (lit_append _ _))]
  exact innerArticle_phrase m (phrase_text m.name ends.stop)

theorem variants_text (first : Mention) (more : List Mention) :
    Sentence.variants (first.text ++ (furtherText "or " (more.map Mention.text) ++ ".".toList))
      = .done ((first :: more).map (·.name.singular)) ".".toList := by
  have steps := steps_further (fun m _ ends => nextVariant_plain m ends)
    (fun m _ ends => nextVariant_linked m ends) more
  have noComma : lit ", " ".".toList = .unfit := lit_unfit_of_head rfl (show '.' ≠ ',' by decide)
  have rest : many nextVariant _ = .done _ ".".toList := many_of_steps steps (bind_unfit noComma)
  have own := phrase_text first.name (punctuated_further "or " (more.map Mention.text)).stop
  show (Sentence.innerArticle >>= fun _ => phrase >>= fun first => many nextVariant >>= fun rest =>
    pure (first :: rest)) _ = _
  rw [Mention.text, append_assoc, bind_done (innerArticle_lower _ _), bind_done own,
    bind_done rest]
  rfl

/-- A name is read up to the verb behind it. -/
theorem phrase_verb (name : Words isPhraseWord) {verb : String} {tail : List Char}
    (start : verb.toList = "is".toList ++ ' ' :: tail) (rest : List Char) :
    phrase (name.text ++ ' ' :: (verb.toList ++ rest))
      = .done name.singular (verb.toList ++ rest) := by
  have text : verb.toList ++ rest = "is".toList ++ ' ' :: (tail ++ rest) := by
    rw [start, append_assoc, cons_append]
  exact phrase_reserved name (by decide) text (by decide)

theorem enumOfTwo_text (name first second : Mention) :
    Sentence.enumOfTwo (eitherText name first second)
      = .done (name.name.singular, [first.name.singular, second.name.singular]) [] := by
  have verb : ∀ s, token "is either " ("is either ".toList ++ s) = .done "is either " s :=
    token_append rfl (by decide)
  have or : "or ".toList ++ (second.text ++ ".".toList)
      = "or".toList ++ ' ' :: (second.text ++ ".".toList) := rfl
  have firstName := phrase_reserved first.name (by decide) or (by decide)
  have secondName := phrase_text second.name punctuated_stop.stop
  have stop : token "." ".".toList = .done "." [] := token_append rfl (by decide) []
  unfold Sentence.enumOfTwo eitherText
  rw [bind_done (opening_upper name _), bind_done (phrase_verb name.name rfl _),
    bind_done (verb _), Mention.text, append_assoc, bind_done (innerArticle_lower _ _),
    bind_done firstName, bind_done (lit_append _ _), Mention.text, append_assoc,
    bind_done (innerArticle_lower _ _), bind_done secondName, bind_done stop]
  rfl

/-- A list of variants is not taken for two of them, as the words before it differ. -/
theorem enumOfTwo_unfit (name first : Mention) (more : List Mention) :
    Sentence.enumOfTwo (oneOfText name first more) = .unfit := by
  have noVerb : ∀ s, token "is either " ("is one of: ".toList ++ s) = .unfit := by
    intro s
    refine (token_of_head (forall_head_cons (by decide))).trans (lit_unfit fun rest equal => ?_)
    have fourth : some 'o' = some 'e' := congrArg (·[3]?) equal
    exact absurd fourth (by decide)
  unfold Sentence.enumOfTwo oneOfText
  rw [bind_done (opening_upper name _), bind_done (phrase_verb name.name rfl _),
    bind_unfit (noVerb _)]

/-! ## Introductions of structures -/

theorem preamble_text (name : Mention) (more : List Char) :
    Sentence.preamble (preambleText name more) = .done name.name.singular [] := by
  have text : fixedText ["is", "formatted", "as"] ++ ("follows:".toList ++ more)
      = "is".toList ++ ' ' :: ("formatted".toList ++ ' ' :: ("as".toList ++ ' ' ::
        ("follows".toList ++ ':' :: more))) := rfl
  have own := phrase_reserved name.name (by decide) text (by decide)
  have next : ∀ {w : String} {c : Char} {cs s : List Char}, w.toList = c :: cs →
      isBlank c = false → blanks (' ' :: (w.toList ++ s)) = .done () (w.toList ++ s) := by
    intro w c cs s start visible
    rw [start]
    exact blanks_space (forall_head_cons visible)
  unfold Sentence.preamble preambleText Mention.opening
  rw [append_assoc, bind_done (leadIn_upper _ _ _), bind_done (article_upper _ _),
    bind_done own, text,
    bind_done (token_append rfl (by decide) _), bind_done (next rfl (by decide)),
    bind_done (token_append rfl (by decide) _), bind_done (next rfl (by decide)),
    bind_done (token_append rfl (by decide) _), bind_done (next rfl (by decide)),
    bind_done (token_append rfl (by decide) _)]
  rfl

/-! ## Definitions of protocols -/

/-- Whether a text starts with something other than a blank. -/
def startsVisibly (w : String) : Bool :=
  w.toList.head?.any (!isBlank ·)

theorem head_fixedText {ws : List String} (words : ws.all startsVisibly = true)
    (visible : ∀ c ∈ rest.head?, isBlank c = false) :
    ∀ c ∈ (fixedText ws ++ rest).head?, isBlank c = false := by
  cases ws with
  | nil => exact visible
  | cons w ws =>
    have own : startsVisibly w = true := all_eq_true.mp words w mem_cons_self
    unfold startsVisibly at own
    cases letters : w.toList with
    | nil => simp [letters] at own
    | cons c cs =>
      rw [fixedText, letters]
      exact forall_head_cons (by simpa [letters] using own)

/-- Fixed words are read up to the text behind them. -/
theorem fixed_text {ws : List String} (words : ws.all startsVisibly = true)
    (visible : ∀ c ∈ rest.head?, isBlank c = false) :
    Sentence.fixed ws (fixedText ws ++ rest) = .done () rest := by
  induction ws with
  | nil => rfl
  | cons w ws ih =>
    simp only [all_cons, Bool.and_eq_true] at words
    have next := head_fixedText words.2 visible
    unfold Sentence.fixed fixedText
    rw [append_assoc, cons_append, bind_done (lit_append _ _),
      bind_done (blanks_space next)]
    exact ih words.2

/-- One more packet behind a comma. -/
def nextPacket : Parser String := do
  let _ ← lit ","
  blanks
  let _ ← maybe (lit "and ")
  phrase

theorem nextPacket_plain (name : Words isPhraseWord) (ends : Punctuated rest) :
    nextPacket (", ".toList ++ (name.text ++ rest)) = .done name.singular rest := by
  have text : ", ".toList ++ (name.text ++ rest) = ",".toList ++ ' ' :: (name.text ++ rest) := rfl
  have noLink : lit "and " (name.text ++ rest) = .unfit :=
    lit_unfit_of_reserved name (w := "and") (by decide) rfl fun c head => (ends.stop c head).1
  unfold nextPacket
  rw [text, bind_done (lit_append _ _), bind_done (blanks_space (name.head_visible rest)),
    bind_done (maybe_unfit noLink), phrase_text name ends.stop]

theorem nextPacket_linked (name : Words isPhraseWord) (ends : Punctuated rest) :
    nextPacket (", ".toList ++ ("and ".toList ++ (name.text ++ rest)))
      = .done name.singular rest := by
  have text : ", ".toList ++ ("and ".toList ++ (name.text ++ rest))
      = ",".toList ++ ' ' :: ("and ".toList ++ (name.text ++ rest)) := rfl
  have gap : blanks (' ' :: ("and ".toList ++ (name.text ++ rest)))
      = .done () ("and ".toList ++ (name.text ++ rest)) :=
    blanks_space (forall_head_cons (by decide))
  unfold nextPacket
  rw [text, bind_done (lit_append _ _), bind_done gap, bind_done (maybe_done (lit_append _ _)),
    phrase_text name ends.stop]

theorem packetList_text (first : Words isPhraseWord) (more : List (Words isPhraseWord)) :
    packetList (first.text ++ (furtherText "and " (more.map Words.text) ++ ".".toList))
      = .done ((first :: more).map Words.singular) ".".toList := by
  have steps := steps_further (fun name _ ends => nextPacket_plain name ends)
    (fun name _ ends => nextPacket_linked name ends) more
  have noComma : lit "," ".".toList = .unfit := lit_unfit_of_head rfl (show '.' ≠ ',' by decide)
  have rest : many nextPacket _ = .done _ ".".toList := many_of_steps steps (bind_unfit noComma)
  have own := phrase_text first (punctuated_further "and " (more.map Words.text)).stop
  show (phrase >>= fun first => many nextPacket >>= fun rest => pure (first :: rest)) _ = _
  rw [bind_done own, bind_done rest]
  rfl

theorem protocolDefinition_text (name first : Words isPhraseWord)
    (more : List (Words isPhraseWord)) :
    protocolDefinition (protocolText name first more)
      = .done (name.singular, (first :: more).map Words.singular) [] := by
  -- What follows the second and the first mention of the protocol.
  let packets := first.text ++ (furtherText "and " (more.map Words.text) ++ ".".toList)
  let uses := fixedText ["protocol", "uses"] ++ packets
  let again := fixedText ["protocol.", "The"] ++ (name.text ++ ' ' :: uses)
  have start : leadIn ["The", "This"] blanks (protocolText name first more)
      = .done () (protocolText name first more) :=
    leadIn_none (w := "This") (by decide) (by decide) (by decide) (forall_head_cons (by decide))
  have subject : Sentence.fixed ["This", "document", "describes", "the"]
      (protocolText name first more) = .done () (name.text ++ ' ' :: again) :=
    fixed_text (by decide) (name.head_visible _)
  have firstName : phrase (name.text ++ ' ' :: again) = .done name.singular again :=
    phrase_reserved name (w := "protocol") (by decide) rfl (show isPhraseChar '.' = false by decide)
  have firstGap : blanks again = .done () again := blanks_of_head (forall_head_cons (by decide))
  have middle : Sentence.fixed ["protocol.", "The"] again = .done () (name.text ++ ' ' :: uses) :=
    fixed_text (by decide) (name.head_visible _)
  have secondName : phrase (name.text ++ ' ' :: uses) = .done name.singular uses :=
    phrase_reserved name (w := "protocol") (by decide) rfl (show isPhraseChar ' ' = false by decide)
  have secondGap : blanks uses = .done () uses := blanks_of_head (forall_head_cons (by decide))
  have verb : Sentence.fixed ["protocol", "uses"] uses = .done () packets :=
    fixed_text (by decide) (first.head_visible _)
  have stop : lit "." ".".toList = .done "." [] := lit_of_eq rfl
  unfold protocolDefinition
  rw [bind_done start, bind_done subject, bind_done firstName, bind_done firstGap,
    bind_done middle, bind_done secondName, bind_done secondGap, bind_done verb,
    bind_done (packetList_text first more), bind_done stop]
  rfl

/-! ## The main statement -/

/-- Declarations give back the names that they were written with, in the singular and in order. -/
theorem declarations_written :
    (∀ name first second : Mention, Sentence.enumeration.parse (eitherText name first second)
      = .ok (name.name.singular, [first.name.singular, second.name.singular])) ∧
    (∀ (name first : Mention) (more : List Mention),
      Sentence.enumeration.parse (oneOfText name first more)
        = .ok (name.name.singular, (first :: more).map (·.name.singular))) ∧
    (∀ (name first : Words isPhraseWord) (more : List (Words isPhraseWord)),
      Sentence.protocolDefinition.parse (protocolText name first more)
        = .ok (name.singular, (first :: more).map Words.singular)) ∧
    ∀ (name : Mention) (more : List Char),
      Sentence.preamble.parse (preambleText name more) = .ok name.name.singular := by
  refine ⟨fun name first second => ?_, fun name first more => ?_, fun name first more => ?_,
    fun name more => ?_⟩
  · exact parse_done (orElse_done (enumOfTwo_text name first second))
  · refine parse_done ((orElse_unfit (enumOfTwo_unfit name first more)).trans ?_)
    have verb : ∀ s, token "is one of: " ("is one of: ".toList ++ s) = .done "is one of: " s :=
      token_append rfl (by decide)
    have stop : token "." ".".toList = .done "." [] := token_append rfl (by decide) []
    unfold Sentence.enumOfMany oneOfText
    rw [bind_done (opening_upper name _), bind_done (phrase_verb name.name rfl _),
      bind_done (verb _), bind_done (variants_text first more), bind_done stop]
    rfl
  · exact parse_done (protocolDefinition_text name first more)
  · exact parse_done (preamble_text name more)

/-- An enumeration of three variants and a protocol of two packets, as they are written. -/
example :
    let mode : Mention := ⟨.a, ⟨["Mode"], by decide, by decide⟩⟩
    let empty : Mention := ⟨.an, ⟨["Empty", "Mode"], by decide, by decide⟩⟩
    let full : Mention := ⟨.a, ⟨["Full-Modes"], by decide, by decide⟩⟩
    String.ofList (oneOfText mode empty [mode, full])
        = "A Mode is one of: an Empty Mode, a Mode, or a Full-Modes." ∧
      String.ofList (protocolText mode.name empty.name [full.name])
        = "This document describes the Mode protocol. "
          ++ "The Mode protocol uses Empty Mode, and Full-Modes." ∧
      full.name.singular = "Full-Mode" := by
  decide

end PacketDraft.Description
