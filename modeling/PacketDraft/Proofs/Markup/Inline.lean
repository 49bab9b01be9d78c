import PacketDraft.Proofs.Markup.Children
import PacketDraft.Proofs.Memo.Definitions

/-!
# The text of inline elements

The characters inside an element are its text and, for each child, what is inside and behind it. Of
these an element keeps its text and what its children keep, as far as it reads them. The text behind
the children is kept by paragraphs alone, and terms move their own text to the end. So the text of an
element is what is inside it just when nothing stands in any of these places.
-/

namespace PacketDraft.Markup

open Document Memo List

/-! ## Characters of a tree -/

def characters (text : Option String) : List Char :=
  (text.getD "").toList

/-- The characters behind an element. -/
def behind (n : Node) : List Char :=
  characters n.tag.tail

mutual

/-- The characters inside an element, in their order. -/
def inside : Node → List Char
  | .mk tag children => characters tag.text ++ insideAll children

/-- The characters inside and behind each of some elements. -/
def insideAll : List Node → List Char
  | [] => []
  | n :: ns => inside n ++ behind n ++ insideAll ns

end

/-- The kinds of elements in a line of prose. -/
def proseKinds : List Kind :=
  [.bcp14, .cRef, .em, .eRef, .relRef, .strong, .sub, .sup, .tt, .xRef, .spanX]

/-- The kinds of elements that hold a line of prose. -/
def lineKinds : List Kind :=
  [.dt, .t, .em, .strong, .tt, .sub, .sup, .cRef, .name]

/-- Everything in an element is prose. -/
inductive Inline : Node → Prop
  | mk {tag : Tag} {children : List Node}
    (named : ∀ c ∈ children, ∃ kind ∈ proseKinds, c.name = some (tagName kind))
    (within : ∀ c ∈ children, Inline c) : Inline (.mk tag children)

/-- No character inside an element is lost when it is read as a kind: only in a paragraph is there text
behind a child, children that are not read have none in them, and the others lose none. -/
inductive Whole : Kind → Node → Prop
  | mk {kind : Kind} {n : Node} (tails : kind ≠ .t → ∀ c ∈ n.children, behind c = [])
    (unread : ∀ c ∈ n.children, kindAmong? (shape kind).kinds c.name = none → inside c = [])
    (within : ∀ c ∈ n.children, ∀ k, kindAmong? (shape kind).kinds c.name = some k → Whole k c) :
    Whole kind n

/-- A paragraph also takes the text behind it, unless it is blank. -/
def outside (kind : Kind) (n : Node) : List Char :=
  if kind = .t then characters (unlessBlank n.tag.tail) else []

/-- A term puts its text behind its children, so that they have to say the same in either order. -/
def InPlace (kind : Kind) (n : Node) : Prop :=
  kind = .dt → insideAll n.children ++ characters n.tag.text
    = characters n.tag.text ++ insideAll n.children

/-! ## Keeping characters -/

/-- Of some characters, others are kept in their order, and all of them just if a condition holds. -/
structure Kept (xs ys : List Char) (p : Prop) : Prop where
  sublist : xs.Sublist ys
  eq_iff : xs = ys ↔ p

section Kept

variable {xs ys xs' ys' : List Char} {p q : Prop}

theorem kept_self (xs : List Char) : Kept xs xs True :=
  ⟨List.Sublist.refl xs, by simp⟩

theorem kept_nil (ys : List Char) : Kept [] ys (ys = []) :=
  ⟨nil_sublist ys, eq_comm⟩

theorem Kept.congr (kept : Kept xs ys p) (same : p ↔ q) : Kept xs ys q :=
  ⟨kept.sublist, kept.eq_iff.trans same⟩

theorem Kept.append (first : Kept xs ys p) (second : Kept xs' ys' q) :
    Kept (xs ++ xs') (ys ++ ys') (p ∧ q) := by
  refine ⟨first.sublist.append second.sublist, ?_⟩
  rw [← first.eq_iff, ← second.eq_iff]
  constructor
  · intro same
    have total := congrArg List.length same
    have short := first.sublist.length_le
    have short' := second.sublist.length_le
    rw [length_append, length_append] at total
    exact append_inj same (by omega)
  · intro both
    rw [both.1, both.2]

/-- Characters that are kept behind others instead of before them. -/
theorem Kept.swap (kept : Kept xs ys p) (text : List Char) :
    xs ++ text = text ++ ys ↔ p ∧ ys ++ text = text ++ ys := by
  rw [← kept.eq_iff]
  constructor
  · intro same
    have total := congrArg List.length same
    rw [length_append, length_append] at total
    have all : xs = ys := kept.sublist.eq_of_length (by omega)
    rw [all] at same
    exact ⟨all, same⟩
  · intro both
    rw [both.1, both.2]

end Kept

/-! ## The text of what is read -/

variable {kind : Kind} {kinds : List Kind} {n : Node} {ns : List Node} {cs : List Child} {e : Element}

theorem listText_append (es es' : List Element) :
    listText (es ++ es') = listText es ++ listText es' := by
  induction es with
  | nil => rfl
  | cons e es ih => rw [cons_append, listText, listText, ih, append_assoc]

theorem listText_textElements (text : Option String) :
    listText (textElements text) = characters text := by
  cases text <;> simp [textElements, listText, allText, Element.plain, characters]

/-- The children that are read, with the text behind each child if it counts. -/
def gathered (tails : Bool) (kinds : List Kind) (cs : List Child) : List Element :=
  cs.flatMap fun c => (c.ofKinds? kinds).toList ++ if tails then textElements c.tag.tail else []

theorem gathered_false : gathered false kinds cs = childrenOf kinds cs := by
  simp [gathered, childrenOf, filterMap_eq_flatMap_toList]

/-- Nothing is lost of a child. -/
def ClearOf (tails : Bool) (kinds : List Kind) (n : Node) : Prop :=
  ((kindAmong? kinds n.name = none → inside n = []) ∧
    ∀ k, kindAmong? kinds n.name = some k → Whole k n) ∧ (tails = false → behind n = [])

theorem kept_child {c : Child} (own : readChild kinds n = .ok c)
    (each : ∀ k e, kindAmong? kinds n.name = some k → read k n = .ok e →
      Kept (allText e) (inside n) (Whole k n)) :
    Kept (listText (c.ofKinds? kinds).toList) (inside n)
      ((kindAmong? kinds n.name = none → inside n = []) ∧
        ∀ k, kindAmong? kinds n.name = some k → Whole k n) := by
  cases known : kindAmong? kinds n.name with
  | none =>
    rw [readChild_other known] at own
    cases own
    exact (kept_nil (inside n)).congr (by simp)
  | some k =>
    obtain ⟨e, made, rfl⟩ := (readChild_known known).mp own
    have belongs : kinds.contains k = true :=
      contains_iff_mem.mpr (mem_of_find?_eq_some known)
    rw [ofKinds?_known, if_pos belongs, Option.toList_some, listText, listText, append_nil]
    exact (each k e known made).congr (by simp)

theorem kept_tail (tails : Bool) (n : Node) :
    Kept (listText (if tails then textElements n.tag.tail else [])) (behind n)
      (tails = false → behind n = []) := by
  cases tails with
  | true =>
    rw [if_pos rfl, listText_textElements]
    exact (kept_self (behind n)).congr (by simp)
  | false => exact (kept_nil (behind n)).congr (by simp)

/-- Children keep what each of them keeps. -/
theorem kept_gathered (tails : Bool) (known : ns.mapM (readChild kinds) = .ok cs)
    (each : ∀ n ∈ ns, ∀ k e, kindAmong? kinds n.name = some k → read k n = .ok e →
      Kept (allText e) (inside n) (Whole k n)) :
    Kept (listText (gathered tails kinds cs)) (insideAll ns) (∀ n ∈ ns, ClearOf tails kinds n) := by
  have related := mapM_eq_ok_iff.mp known
  clear known
  induction related with
  | nil => exact (kept_self []).congr (by simp)
  | @cons n c ns cs own _ ih =>
    rw [forall_mem_cons] at each
    have first := (kept_child own each.1).append (kept_tail tails n)
    rw [← readChild_tag own] at first
    rw [gathered, flatMap_cons, listText_append, listText_append, insideAll,
      forall_mem_cons]
    exact first.append (ih each.2)

/-! ## Reading a line -/

/-- The content is the text, and then the children without the text behind them. -/
def isPlain : Shape → Bool
  | .text | .maybeText | .textThen _ => true
  | _ => false

/-- An element of one part, and the children it is made of. -/
theorem parts_of_read (own : read kind n = .ok e) (single : kind.parts = ["content"])
    (all : reach (shape kind) n.children = ((shape kind).kinds, n.children.length)) :
    ∃ cs parts, n.children.mapM (readChild (shape kind).kinds) = .ok cs ∧
      readParts (shape kind) n.tag true cs = .ok parts ∧
      ∀ part, parts = [part] → allText e = partText part := by
  obtain ⟨tag, children⟩ := n
  rw [read, show reach (shape kind) children = _ from all] at own
  obtain ⟨cs, known, own⟩ := exceptBind_eq_ok.mp own
  obtain ⟨parts, made, own⟩ := exceptBind_eq_ok.mp own
  obtain ⟨settings, -, own⟩ := exceptBind_eq_ok.mp own
  cases own
  rw [Node.children, readChildren_length] at known
  refine ⟨cs, parts, known, by simpa [Node.children, Node.tag] using made, ?_⟩
  rintro part rfl
  simp [Element.ofKind, single, allText, partsText]

theorem childrenOf_nil (cs : List Child) : childrenOf [] cs = [] := by
  rw [childrenOf, filterMap_eq_nil_iff]
  intro c _
  obtain ⟨tag, _ | ⟨kind, e⟩⟩ := c <;> rfl

theorem readParts_of_isPlain {shape : Shape} {tag : Tag} {parts : List (Document.Part Element)}
    (plain : isPlain shape = true) (made : readParts shape tag true cs = .ok parts) :
    ∃ part, parts = [part] ∧
      partText part = characters tag.text ++ listText (childrenOf shape.kinds cs) := by
  have leaf : ∀ text, partText (.one (.plain text))
      = characters (some text) ++ listText (childrenOf [] cs) := by
    simp [childrenOf_nil, partText, allText, listText, Element.plain, characters]
  cases shape with
  | text =>
    cases text : tag.text with
    | none => simp [readParts, text, neededText, bind, Except.bind] at made
    | some words =>
      simp only [readParts, text, neededText] at made
      cases made
      exact ⟨_, rfl, leaf words⟩
  | maybeText =>
    cases text : tag.text with
    | none =>
      simp only [readParts, text] at made
      cases made
      exact ⟨_, rfl, by simp [Shape.kinds, childrenOf_nil, partText, listText, characters]⟩
    | some words =>
      simp only [readParts, text] at made
      cases made
      exact ⟨_, rfl, leaf words⟩
  | textThen kinds =>
    cases made
    refine ⟨_, rfl, ?_⟩
    rw [partText, listText_append, listText_textElements, Shape.kinds]
  | _ => cases plain

theorem reach_of_isPlain {shape : Shape} (plain : isPlain shape = true) (ns : List Node) :
    reach shape ns = (shape.kinds, ns.length) := by
  cases shape with
  | text => rfl
  | maybeText => rfl
  | textThen kinds => rfl
  | _ => cases plain

/-- The kinds that hold a line of prose, or are in one, and keep their text in front. -/
def plainKinds : List Kind :=
  .name :: proseKinds

theorem shape_of_mem_plainKinds (plain : kind ∈ plainKinds) :
    isPlain (shape kind) = true ∧ kind.parts = ["content"] ∧ kind ≠ .t ∧ kind ≠ .dt ∧
      (shape kind).kinds ⊆ paragraphKinds := by
  revert kind
  decide

theorem whole_iff :
    Whole kind n ↔ ∀ c ∈ n.children, ClearOf (kind = .t) (shape kind).kinds c := by
  constructor
  · intro whole
    cases whole with
    | mk tails unread within =>
      intro c mem
      exact ⟨⟨unread c mem, within c mem⟩, fun other => tails (by simpa using other) c mem⟩
  · intro clear
    exact ⟨fun other c mem => (clear c mem).2 (by simpa using other),
      fun c mem => (clear c mem).1.1, fun c mem => (clear c mem).1.2⟩

theorem mem_proseKinds_of_known {k : Kind} (few : (shape kind).kinds ⊆ paragraphKinds)
    (named : ∃ k ∈ proseKinds, n.name = some (tagName k))
    (known : kindAmong? (shape kind).kinds n.name = some k) : k ∈ proseKinds := by
  obtain ⟨k', prose, name⟩ := named
  have names : (paragraphKinds.map tagName).Nodup := by decide
  have fewer : proseKinds ⊆ paragraphKinds := by decide
  have same : tagName k' = tagName k := by
    have found := List.find?_some known
    simpa [name] using found
  rwa [← inj_on_of_nodup_map names (fewer prose) (few (mem_of_find?_eq_some known)) same]

/-- Where there is only prose, an element keeps its own text and what its children keep. -/
theorem kept_of_read (prose : Inline n) (plain : kind ∈ plainKinds) (own : read kind n = .ok e) :
    Kept (allText e) (inside n) (Whole kind n) := by
  induction prose generalizing kind e with
  | @mk tag children named within ih =>
    obtain ⟨front, single, noT, -, few⟩ := shape_of_mem_plainKinds plain
    obtain ⟨cs, parts, known, made, text⟩ := parts_of_read own single (reach_of_isPlain front _)
    obtain ⟨part, rfl, content⟩ := readParts_of_isPlain front made
    have kept := kept_gathered false known fun c mem k e' here made =>
      ih c mem (mem_cons_of_mem _ (mem_proseKinds_of_known few (named c mem) here)) made
    rw [gathered_false] at kept
    rw [text part rfl, content, inside]
    apply ((kept_self _).append kept).congr
    rw [true_and, whole_iff, decide_eq_false noT]

/-- What the children in a line keep. -/
theorem kept_children (prose : Inline n) (line : kind ∈ lineKinds)
    (known : n.children.mapM (readChild (shape kind).kinds) = .ok cs) :
    Kept (listText (gathered (kind = .t) (shape kind).kinds cs)) (insideAll n.children)
      (Whole kind n) := by
  have few : ∀ kind ∈ lineKinds, (shape kind).kinds ⊆ paragraphKinds := by decide
  obtain ⟨named, within⟩ := prose
  have kept := kept_gathered (kind = .t) known fun c mem k e' here made =>
    kept_of_read (within c mem)
      (mem_cons_of_mem _ (mem_proseKinds_of_known (few kind line) (named c mem) here)) made
  exact kept.congr whole_iff.symm

/-- A term keeps what its children keep, and then its own text. -/
theorem allText_dt (prose : Inline n) (own : read .dt n = .ok e) :
    allText e = inside n ↔ Whole .dt n ∧ InPlace .dt n := by
  obtain ⟨cs, parts, known, made, text⟩ := parts_of_read own rfl rfl
  cases made
  have kept := kept_children prose (by decide) known
  obtain ⟨tag, children⟩ := n
  rw [decide_eq_false (by decide), gathered_false] at kept
  rw [text _ rfl, partText, listText_append, listText_textElements, inside]
  apply (kept.swap (characters tag.text)).trans
  simp [InPlace, Node.children, Node.tag]

/-- A paragraph keeps the text behind its children, and takes the text behind itself. -/
theorem allText_t (prose : Inline n) (own : read .t n = .ok e) :
    allText e = inside n ++ outside .t n ↔ Whole .t n := by
  obtain ⟨cs, parts, known, made, text⟩ := parts_of_read own rfl rfl
  cases made
  have kept := kept_children prose (by decide) known
  obtain ⟨tag, children⟩ := n
  rw [text _ rfl, partText, flowContent, listText_append, listText_append, listText_textElements,
    listText_textElements, outside, if_pos rfl, inside]
  rw [append_left_inj]
  apply ((kept_self (characters tag.text)).append kept).eq_iff.trans
  rw [true_and]

/-- The text of a line of prose is what is inside the element, with what a paragraph takes from behind
it, just if no character is lost and none is moved. It is then what is inside and nothing else just if
nothing is taken from behind. -/
theorem text_of_line_iff (kind : Kind) (n : Node) (e : Element) (line : kind ∈ lineKinds)
    (prose : Inline n) (own : read kind n = .ok e) :
    (allText e = inside n ++ outside kind n ↔ Whole kind n ∧ InPlace kind n) ∧
    (Whole kind n ∧ InPlace kind n → (allText e = inside n ↔ outside kind n = [])) := by
  have text : allText e = inside n ++ outside kind n ↔ Whole kind n ∧ InPlace kind n := by
    by_cases term : kind = .dt
    · subst term
      simpa [outside] using allText_dt prose own
    · by_cases paragraph : kind = .t
      · subst paragraph
        simpa [InPlace] using allText_t prose own
      · have plain : ∀ kind ∈ lineKinds, kind ≠ .dt → kind ≠ .t → kind ∈ plainKinds := by decide
        have kept := kept_of_read prose (plain kind line term paragraph) own
        simpa [outside, InPlace, term, paragraph] using kept.eq_iff
  refine ⟨text, fun both => ?_⟩
  rw [text.mpr both]
  simp

/-- A paragraph with an element in it and text behind that. -/
def emphasis : Node :=
  .mk ⟨some "t", [], some "Send ", some "\n"⟩
    [.mk ⟨some "em", [], some "one ", some " at a time."⟩
      [.mk ⟨some "tt", [], some "Ping", none⟩ []]]

theorem inline_leaf (tag : Tag) : Inline (.mk tag []) :=
  ⟨by simp, by simp⟩

theorem inline_single (kind : Kind) (tag : Tag) (prose : kind ∈ proseKinds)
    (named : n.name = some (tagName kind)) (within : Inline n) : Inline (.mk tag [n]) := by
  refine ⟨?_, by simpa using within⟩
  rw [forall_mem_singleton]
  exact ⟨kind, prose, named⟩

theorem text_of_line_emphasis :
    ∃ e, read .t emphasis = .ok e ∧ allText e = inside emphasis ∧ Whole .t emphasis ∧
      InPlace .t emphasis := by
  have prose : Inline emphasis :=
    inline_single .em _ (by decide) rfl
      (inline_single .tt _ (by decide) rfl (inline_leaf _))
  have found := text_of_line_iff .t emphasis _ (by decide) prose rfl
  exact ⟨_, rfl, rfl, found.1.mp rfl⟩

/-- A title with a marked letter, and its width behind that. -/
def markedTitle : Node :=
  .mk ⟨some "dt", [], some "Version ", none⟩
    [.mk ⟨some "em", [], some "x", some ": 4 bits"⟩ []]

/-- Not every line of prose is kept: this one loses the width, and has its letter in front. -/
theorem markedTitle_loses_width :
    ¬ ∀ (kind : Kind) (n : Node) (e : Element), kind ∈ lineKinds → Inline n → read kind n = .ok e →
      allText e = inside n := by
  intro all
  have prose : Inline markedTitle := inline_single .em _ (by decide) rfl (inline_leaf _)
  obtain ⟨e, own, text⟩ : ∃ e, read .dt markedTitle = .ok e ∧ allText e = "xVersion ".toList :=
    ⟨_, rfl, rfl⟩
  have same := all .dt markedTitle e (by decide) prose own
  rw [text] at same
  cases same

end PacketDraft.Markup
