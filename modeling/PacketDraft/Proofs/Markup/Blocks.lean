import PacketDraft.Proofs.Markup.Children

/-!
# Blocks in list items, descriptions, cells and quotations

These elements hold blocks, or text and inline elements. A description with both is refused, and
white space around its blocks does not count. The others look at one text only, count it even if it
is blank, and leave the blocks out without notice when there is anything inline. So they keep their
blocks just when there is nothing inline and that one text is missing altogether.
-/

namespace PacketDraft.Markup

open Document List

variable {kind : Kind} {n : Node} {cs : List Child} {e : Element}

/-! ## What is in an element -/

/-- The kinds of elements that hold blocks or inline content. -/
def variantKinds : List Kind :=
  [.li, .dd, .td, .th, .blockQuote]

theorem mem_variantKinds : kind ∈ variantKinds ↔
    kind = .li ∨ kind = .dd ∨ kind = .td ∨ kind = .th ∨ kind = .blockQuote := by
  simp [variantKinds]

/-- The inline kinds in an element of a kind. -/
def inlineOf : Kind → List Kind
  | .td | .th => inlineKinds ++ [.br]
  | _ => inlineKinds

/-- The children that are blocks. -/
def blocksOf (n : Node) : List (Kind × Node) :=
  childrenNamed blockKinds n.children

/-- Whether there is text that is not blank. -/
def hasText (text : Option String) : Bool :=
  (unlessBlank text).isSome

/-- There is an inline element, or text that is not blank before or behind a child. -/
def HasInline (kind : Kind) (n : Node) : Prop :=
  childrenNamed (inlineOf kind) n.children ≠ [] ∨ hasText n.tag.text = true ∨
    ∃ c ∈ n.children, hasText c.tag.tail = true

/-- An element keeps its blocks: it has no content but them, or is refused if there is anything
inline. White space around them changes nothing. -/
structure KeepsBlocks (kind : Kind) (n : Node) : Prop where
  kept : ∀ e, read kind n = .ok e → blocksOf n ≠ [] →
    ∃ blocks, readings blockKinds n.children = .ok blocks ∧ e.items? = some blocks
  refused : blocksOf n ≠ [] → HasInline kind n → ∃ fault, read kind n = .error fault
  spaced : blocksOf n ≠ [] → ¬ HasInline kind n →
    ∀ blocks, readings blockKinds n.children = .ok blocks → ∃ e, read kind n = .ok e

/-- The one text that an element other than a description looks at: that of a quotation is inside
its last child. -/
def textLookedAt (kind : Kind) (n : Node) : Option String :=
  if kind = .blockQuote then n.children.getLast?.bind (·.tag.text) else n.tag.text

/-- All kinds of children that are read. -/
def contentKinds (kind : Kind) : List Kind :=
  blockKinds ++ inlineOf kind

/-- A block or an inline element in an element is refused itself. -/
def ChildRefused (kind : Kind) (n : Node) : Prop :=
  ∃ p ∈ childrenNamed (contentKinds kind) n.children, ∃ fault, read p.1 p.2 = .error fault

/-! ## Reading -/

theorem inlineOf_sublist (kind : Kind) : (inlineOf kind).Sublist (inlineKinds ++ [Kind.br]) := by
  unfold inlineOf
  split
  · exact List.Sublist.refl _
  · exact List.Sublist.refl _
  · exact sublist_append_left ..

theorem names_contentKinds (kind : Kind) : ((contentKinds kind).map tagName).Nodup := by
  have all : ((blockKinds ++ (inlineKinds ++ [Kind.br])).map tagName).Nodup := by decide
  exact all.sublist (((inlineOf_sublist kind).append_left blockKinds).map tagName)

theorem disjoint_contentKinds (kind : Kind) : blockKinds.Disjoint (inlineOf kind) :=
  disjoint_of_nodup_append (List.Nodup.of_map _ (names_contentKinds kind))

/-- The inline content, for the children that were read. -/
def inlineContent (kind : Kind) (tag : Tag) (cs : List Child) : List Element :=
  match kind with
  | .dd => mixedContent tag inlineKinds cs
  | .blockQuote => childrenOf inlineKinds cs ++ textElements (cs.getLast?.bind (·.tag.text))
  | kind => childrenOf (inlineOf kind) cs ++ textElements tag.text

theorem read_eq (mem : kind ∈ variantKinds) (n : Node) :
    read kind n = (do
      let cs ← n.children.mapM (readChild (contentKinds kind))
      let parts ← readParts (shape kind) n.tag true cs
      withSettings kind n.tag parts) := by
  obtain ⟨tag, children⟩ := n
  have reaches : reach (shape kind) children = (contentKinds kind, children.length) := by
    rcases mem_variantKinds.mp mem with rfl | rfl | rfl | rfl | rfl <;> rfl
  rw [read, reaches, ← readChildren_length]
  simp [Node.children, Node.tag]

theorem readParts_eq (mem : kind ∈ variantKinds) (tag : Tag)
    (blocks : childrenOf blockKinds cs ≠ []) :
    readParts (shape kind) tag true cs =
      if inlineContent kind tag cs = [] then .ok [.many (childrenOf blockKinds cs)]
      else if kind = .dd then .error .requirement
      else .ok [.many (inlineContent kind tag cs)] := by
  have present : someOf (childrenOf blockKinds cs) = .ok (childrenOf blockKinds cs) := if_neg blocks
  rcases mem_variantKinds.mp mem with rfl | rfl | rfl | rfl | rfl
  case inr.inl =>
    simp [shape, readParts, inlineContent, present, blocks, bind, Except.bind, pure, Except.pure]
  case inr.inr.inr.inr =>
    have children : cs ≠ [] := by
      rintro rfl
      exact blocks rfl
    simp [shape, readParts, inlineContent, present, List.getLast?_eq_some_getLast children, bind,
      Except.bind, pure, Except.pure]
  all_goals
    simp [shape, readParts, inlineContent, inlineOf, present, bind, Except.bind, pure, Except.pure]

/-- These kinds can do without any of their settings. -/
theorem exists_withSettings (mem : kind ∈ variantKinds) (tag : Tag) (items : List Element) :
    ∃ e, withSettings kind tag [.many items] = .ok e ∧ e.items? = some items := by
  have free : ∀ kind ∈ variantKinds, ∀ p ∈ kind.settings, isRequired p.2 = false := by decide
  obtain ⟨settings, made⟩ := withSettings_of_free (free kind mem) tag [.many items]
  refine ⟨_, made, ?_⟩
  rcases mem_variantKinds.mp mem with rfl | rfl | rfl | rfl | rfl <;> rfl

theorem textElements_eq_nil_iff {text : Option String} : textElements text = [] ↔ text = none := by
  cases text <;> simp [textElements]

theorem mem_textElements {text : Option String} :
    e ∈ textElements text ↔ ∃ s, text = some s ∧ e = .plain s := by
  cases text <;> simp [textElements]

theorem not_hasInline_iff :
    ¬ HasInline kind n ↔ childrenNamed (inlineOf kind) n.children = [] ∧
      hasText n.tag.text = false ∧ ∀ c ∈ n.children, hasText c.tag.tail = false := by
  simp [HasInline]

theorem mixedContent_eq_nil_iff {tag : Tag} {kinds : List Kind} :
    mixedContent tag kinds cs = [] ↔ childrenOf kinds cs = [] ∧
      hasText tag.text = false ∧ ∀ c ∈ cs, hasText c.tag.tail = false := by
  simp only [mixedContent, childrenOf, hasText, append_eq_nil_iff, flatMap_eq_nil_iff,
    filterMap_eq_nil_iff, textElements_eq_nil_iff, Option.toList_eq_nil_iff,
    Option.isSome_eq_false_iff, Option.isNone_iff_eq_none, forall_and]
  exact and_left_comm

theorem isKind_unique {kind' : Kind} (own : e.isKind kind = true) (also : e.isKind kind' = true) :
    kind = kind' := by
  cases e with
  | text content => cases own
  | node k parts settings =>
    exact (of_decide_eq_true own).symm.trans (of_decide_eq_true also)

/-! ## Children that can be read -/

section Inside

variable (mem : kind ∈ variantKinds)
  (inside : n.children.mapM (readChild (contentKinds kind)) = .ok cs)

include mem inside

theorem read_of_parts {items : List Element}
    (made : readParts (shape kind) n.tag true cs = .ok [.many items]) :
    ∃ e, read kind n = .ok e ∧ e.items? = some items := by
  obtain ⟨e, own, same⟩ := exists_withSettings mem n.tag items
  refine ⟨e, ?_, same⟩
  rw [read_eq mem, inside]
  show readParts (shape kind) n.tag true cs >>= _ = _
  rw [made]
  exact own

/-- Where nothing counts as inline, the content is made of the blocks. -/
theorem read_blocks (blocks : childrenOf blockKinds cs ≠ [])
    (empty : inlineContent kind n.tag cs = []) :
    ∃ e, read kind n = .ok e ∧ e.items? = some (childrenOf blockKinds cs) := by
  apply read_of_parts mem inside
  rw [readParts_eq mem n.tag blocks, if_pos empty]

/-- Where something counts as inline, a description is refused. -/
theorem read_refused (blocks : childrenOf blockKinds cs ≠ [])
    (running : inlineContent kind n.tag cs ≠ []) (description : kind = .dd) :
    read kind n = .error .requirement := by
  rw [read_eq mem, inside]
  show readParts (shape kind) n.tag true cs >>= _ = _
  rw [readParts_eq mem n.tag blocks, if_neg running, if_pos description]
  rfl

/-- Where something counts as inline, the other elements hold nothing else. -/
theorem read_inline (blocks : childrenOf blockKinds cs ≠ [])
    (running : inlineContent kind n.tag cs ≠ []) (other : kind ≠ .dd) :
    ∃ e, read kind n = .ok e ∧ e.items? = some (inlineContent kind n.tag cs) := by
  apply read_of_parts mem inside
  rw [readParts_eq mem n.tag blocks, if_neg running, if_neg other]

end Inside

/-! ## What counts as inline -/

section Counting

variable (inside : n.children.mapM (readChild (contentKinds kind)) = .ok cs)

include inside

theorem readings_blocks : readings blockKinds n.children = .ok (childrenOf blockKinds cs) :=
  readings_eq (names_contentKinds kind) (sublist_append_left ..) inside

theorem childrenOf_blocks_ne_nil (blocks : blocksOf n ≠ []) : childrenOf blockKinds cs ≠ [] :=
  mt (childrenOf_eq_nil_iff (names_contentKinds kind) (sublist_append_left ..) inside).mp blocks

theorem childrenOf_inline_eq_nil_iff :
    childrenOf (inlineOf kind) cs = [] ↔ childrenNamed (inlineOf kind) n.children = [] :=
  childrenOf_eq_nil_iff (names_contentKinds kind) (sublist_append_right ..) inside

/-- Apart from descriptions, what counts as inline are the inline elements and the one text. -/
theorem inlineContent_eq (other : kind ≠ .dd) :
    inlineContent kind n.tag cs
      = childrenOf (inlineOf kind) cs ++ textElements (textLookedAt kind n) := by
  unfold inlineContent
  split
  · exact absurd rfl other
  · have text : cs.getLast?.bind (·.tag.text) = n.children.getLast?.bind (·.tag.text) := by
      have last := congrArg (Option.bind · Tag.text) (getLast?_tag inside)
      rwa [Option.bind_map, Option.bind_map] at last
    rw [textLookedAt, if_pos rfl, text]
    rfl
  · next noQuotation =>
    rw [textLookedAt, if_neg noQuotation]

theorem inlineContent_eq_nil_iff (other : kind ≠ .dd) :
    inlineContent kind n.tag cs = [] ↔
      childrenNamed (inlineOf kind) n.children = [] ∧ textLookedAt kind n = none := by
  rw [inlineContent_eq inside other, append_eq_nil_iff, childrenOf_inline_eq_nil_iff inside,
    textElements_eq_nil_iff]

/-- In a description blank text does not count. -/
theorem inlineContent_dd_eq_nil_iff (description : kind = .dd) :
    inlineContent kind n.tag cs = [] ↔ ¬ HasInline kind n := by
  have elements := childrenOf_inline_eq_nil_iff inside
  have tails := forall_tag_iff inside (p := fun tag => hasText tag.tail = false)
  subst description
  rw [not_hasInline_iff, ← elements, ← tails]
  exact mixedContent_eq_nil_iff

/-- Nothing that counts as inline is a block. -/
theorem inlineContent_ne_blocks (other : kind ≠ .dd) (running : inlineContent kind n.tag cs ≠ []) :
    inlineContent kind n.tag cs ≠ childrenOf blockKinds cs := by
  intro same
  obtain ⟨e, mem⟩ := exists_mem_of_ne_nil _ running
  obtain ⟨block, isBlock, own⟩ := exists_isKind_of_mem_childrenOf inside (same ▸ mem)
  rw [inlineContent_eq inside other, mem_append] at mem
  rcases mem with element | text
  · obtain ⟨inline, isInline, also⟩ := exists_isKind_of_mem_childrenOf inside element
    exact disjoint_contentKinds kind isBlock (isKind_unique own also ▸ isInline)
  · obtain ⟨s, -, rfl⟩ := mem_textElements.mp text
    cases own

end Counting

/-! ## Refused children -/

theorem not_childRefused_iff :
    ¬ ChildRefused kind n ↔ ∃ cs, n.children.mapM (readChild (contentKinds kind)) = .ok cs := by
  rw [exists_mapM_readChild, ChildRefused]
  push Not
  refine forall₂_congr fun p _ => ?_
  cases read p.1 p.2 <;> simp

/-- Where there is nothing inline, no child is refused if the blocks can be read. -/
theorem not_childRefused_of_blocks {blocks : List Element}
    (empty : childrenNamed (inlineOf kind) n.children = [])
    (own : readings blockKinds n.children = .ok blocks) : ¬ ChildRefused kind n := by
  rw [not_childRefused_iff, exists_mapM_readChild]
  intro p named
  have names := names_contentKinds kind
  obtain ⟨mem, known⟩ := mem_childrenNamed.mp named
  obtain ⟨belongs, name⟩ := (kindAmong?_eq_some_iff names).mp known
  rw [contentKinds, map_append] at names
  rcases mem_append.mp belongs with block | inline
  · have found := (kindAmong?_eq_some_iff names.of_append_left).mpr ⟨block, name⟩
    obtain ⟨e, made⟩ := exists_ok_of_mem own (mem_childrenNamed.mpr ⟨mem, found⟩)
    exact ⟨e, made⟩
  · have found := (kindAmong?_eq_some_iff names.of_append_right).mpr ⟨inline, name⟩
    have inlineChild := mem_childrenNamed.mpr ⟨mem, found⟩
    rw [empty] at inlineChild
    cases inlineChild

/-- An element with a child that is refused is refused as well. -/
theorem read_of_childRefused (mem : kind ∈ variantKinds) (refused : ChildRefused kind n) :
    ∃ fault, read kind n = .error fault := by
  cases own : read kind n with
  | error fault => exact ⟨fault, rfl⟩
  | ok e =>
    rw [read_eq mem] at own
    obtain ⟨cs, inside, -⟩ := exceptBind_eq_ok.mp own
    exact absurd refused (not_childRefused_iff.mpr ⟨cs, inside⟩)

/-! ## Keeping blocks -/

theorem keepsBlocks_of_childRefused (mem : kind ∈ variantKinds) (refused : ChildRefused kind n) :
    KeepsBlocks kind n where
  kept e own _ := by
    obtain ⟨fault, fails⟩ := read_of_childRefused mem refused
    rw [own] at fails
    cases fails
  refused _ _ := read_of_childRefused mem refused
  spaced _ clear blocks own := by
    have empty := (not_hasInline_iff.mp clear).1
    exact absurd refused (not_childRefused_of_blocks empty own)

section Keeping

variable (mem : kind ∈ variantKinds) (blocks : blocksOf n ≠ [])
  (inside : n.children.mapM (readChild (contentKinds kind)) = .ok cs)

include mem blocks inside

theorem keepsBlocks_of_clear (clear : ¬ HasInline kind n)
    (empty : inlineContent kind n.tag cs = []) : KeepsBlocks kind n := by
  obtain ⟨e, own, held⟩ := read_blocks mem inside (childrenOf_blocks_ne_nil inside blocks) empty
  constructor
  case kept =>
    intro e' own' _
    cases own.symm.trans own'
    exact ⟨_, readings_blocks inside, held⟩
  case refused =>
    intro _ inline
    exact absurd inline clear
  case spaced =>
    intro _ _ _ _
    exact ⟨e, own⟩

theorem keepsBlocks_description (description : kind = .dd) : KeepsBlocks kind n := by
  have counted := inlineContent_dd_eq_nil_iff inside description
  by_cases empty : inlineContent kind n.tag cs = []
  · exact keepsBlocks_of_clear mem blocks inside (counted.mp empty) empty
  · have fails := read_refused mem inside (childrenOf_blocks_ne_nil inside blocks) empty description
    constructor
    case kept =>
      intro e own _
      cases own.symm.trans fails
    case refused =>
      intro _ _
      exact ⟨_, fails⟩
    case spaced =>
      intro _ clear
      exact absurd (counted.mpr clear) empty

theorem not_keepsBlocks (other : kind ≠ .dd) (running : inlineContent kind n.tag cs ≠ []) :
    ¬ KeepsBlocks kind n := by
  intro keeps
  have present := childrenOf_blocks_ne_nil inside blocks
  obtain ⟨e, own, held⟩ := read_inline mem inside present running other
  obtain ⟨items, read, also⟩ := keeps.kept e own blocks
  cases read.symm.trans (readings_blocks inside)
  exact inlineContent_ne_blocks inside other running (Option.some.inj (held.symm.trans also))

theorem keepsBlocks_other_iff (other : kind ≠ .dd) :
    KeepsBlocks kind n ↔ ¬ HasInline kind n ∧ textLookedAt kind n = none := by
  have counted := inlineContent_eq_nil_iff inside other
  constructor
  · intro keeps
    have empty : inlineContent kind n.tag cs = [] := by
      by_contra running
      exact not_keepsBlocks mem blocks inside other running keeps
    refine ⟨fun inline => ?_, (counted.mp empty).2⟩
    obtain ⟨e, own, -⟩ := read_blocks mem inside (childrenOf_blocks_ne_nil inside blocks) empty
    obtain ⟨fault, fails⟩ := keeps.refused blocks inline
    cases own.symm.trans fails
  · rintro ⟨clear, text⟩
    have empty := counted.mpr ⟨(not_hasInline_iff.mp clear).1, text⟩
    exact keepsBlocks_of_clear mem blocks inside clear empty

end Keeping

/-- Descriptions keep their blocks. A list item, a cell or a quotation with blocks that can be read
keeps them just when there is nothing inline and the one text that it looks at is missing, not only
blank. -/
theorem keepsBlocks_iff (mem : kind ∈ variantKinds) (n : Node) :
    KeepsBlocks kind n ↔ kind = .dd ∨ blocksOf n = [] ∨ ChildRefused kind n ∨
      (¬ HasInline kind n ∧ textLookedAt kind n = none) := by
  by_cases blocks : blocksOf n = []
  · have keeps : KeepsBlocks kind n :=
      ⟨fun _ _ present => absurd blocks present, fun present => absurd blocks present,
        fun present => absurd blocks present⟩
    exact iff_of_true keeps (.inr (.inl blocks))
  by_cases refused : ChildRefused kind n
  · exact iff_of_true (keepsBlocks_of_childRefused mem refused) (.inr (.inr (.inl refused)))
  obtain ⟨cs, inside⟩ := not_childRefused_iff.mp refused
  by_cases description : kind = .dd
  · exact iff_of_true (keepsBlocks_description mem blocks inside description) (.inl description)
  · simp [keepsBlocks_other_iff mem blocks inside description, description, blocks, refused]

/-- A quotation written over several lines, which ends with a list. -/
def quotation : Node :=
  .mk ⟨some "blockquote", [], some "\n  ", none⟩
    [.mk ⟨some "t", [], some "First.", some "\n  "⟩ [],
      .mk ⟨some "ul", [], none, some "\n"⟩ [.mk ⟨some "li", [], some "Second.", none⟩ []]]

theorem keepsBlocks_quotation :
    .blockQuote ∈ variantKinds ∧ blocksOf quotation ≠ [] ∧ KeepsBlocks .blockQuote quotation := by
  have mem : .blockQuote ∈ variantKinds := by decide
  refine ⟨mem, by decide, (keepsBlocks_iff mem quotation).mpr ?_⟩
  refine .inr (.inr (.inr ⟨?_, rfl⟩))
  rw [not_hasInline_iff]
  decide

/-- A list item with a paragraph on a line of its own. -/
def spacedItem : Node :=
  .mk ⟨some "li", [], some "\n   ", none⟩ [.mk ⟨some "t", [], some "First.", none⟩ []]

/-- Not every element keeps its blocks: the item holds the white space in place of the paragraph. -/
theorem spacedItem_drops_block : ¬ ∀ kind ∈ variantKinds, ∀ n, KeepsBlocks kind n := by
  intro all
  have mem : .li ∈ variantKinds := by decide
  obtain ⟨cs, inside⟩ : ∃ cs, spacedItem.children.mapM (readChild (contentKinds .li)) = .ok cs :=
    ⟨_, rfl⟩
  have iff := keepsBlocks_other_iff mem (by decide : blocksOf spacedItem ≠ []) inside (by decide)
  cases (iff.mp (all .li mem spacedItem)).2

end PacketDraft.Markup
