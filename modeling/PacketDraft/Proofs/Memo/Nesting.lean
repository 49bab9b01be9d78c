import Mathlib.Data.List.Nodup
import Mathlib.Data.List.Perm.Basic
import PacketDraft.Proofs.Memo.Outline

/-!
# Sections and their depths

An outline holds every section once, at the depth of its heading, however the depths jump back. The
sections are counted level by level: those that lie directly in the sections of one depth are the
sections of the next depth. What is known of sequences in pre-order is in `outline_preorder`.
-/

namespace PacketDraft.Memo

open Document List

variable {depth : Int} {depths : List Int}

/-! ## Listings -/

mutual

/-- A section and those that lie in it, in pre-order. Each comes with the depth at which it is found
and without the sections in it. -/
def listing : Int → Element → List Headed
  | depth, .text content => [(depth, .text content)]
  | depth, .node kind parts settings =>
    (depth, (Element.node kind parts settings).setPart "sections" (.many []))
      :: listingOfParts (depth + 1) parts

def listingOfParts : Int → List (String × Document.Part Element) → List Headed
  | _, [] => []
  | depth, (name, part) :: parts =>
    (if name = "sections" then listingOfPart depth part else []) ++ listingOfParts depth parts

def listingOfPart : Int → Document.Part Element → List Headed
  | depth, .many es => listingOfAll depth es
  | _, _ => []

def listingOfAll : Int → List Element → List Headed
  | _, [] => []
  | depth, e :: es => listing depth e ++ listingOfAll depth es

end

/-- A section in which no other lies. -/
def IsLeaf (e : Element) : Prop :=
  ∃ (heading content : Document.Part Element) (settings : List (String × Setting)),
    e = .node .section [("name", heading), ("content", content), ("sections", .many [])] settings

theorem listingOfAll_eq (depth : Int) (es : List Element) :
    listingOfAll depth es = es.flatMap (listing depth) := by
  induction es with
  | nil => rfl
  | cons e es ih => rw [listingOfAll, ih, flatMap_cons]

/-- The sections that are put into a leaf follow it, one level below. -/
theorem IsLeaf.listing_addSections {e : Element} (leaf : IsLeaf e) (depth : Int)
    (inner : List Element) :
    listing depth (addSections e inner) = (depth, e) :: inner.flatMap (listing (depth + 1)) := by
  obtain ⟨heading, content, settings, rfl⟩ := leaf
  simp [addSections, Element.part?, Element.setPart, lookup_cons, listing, listingOfParts,
    listingOfPart, listingOfAll_eq]

/-- Trees that are made of leaves are listed as they stand. -/
theorem flatMap_listing_build (f : Forest Element) (leaves : ∀ p ∈ f.preorder depth, IsLeaf p.2) :
    (f.build addSections).flatMap (listing depth) = f.preorder depth := by
  induction f generalizing depth with
  | none => rfl
  | tree root inner rest ihInner ihRest =>
    rw [Forest.preorder, forall_mem_cons, forall_mem_append] at leaves
    obtain ⟨own, below, behind⟩ := leaves
    rw [Forest.build, flatMap_cons, own.listing_addSections, ihInner below, ihRest behind,
      Forest.preorder, cons_append]

/-! ## Sections that lie in none -/

/-- There is a section below the first level and none before it in which it could lie. -/
def HasOrphan (sections : List Headed) : Prop :=
  ∃ (before : List Headed) (depth : Int) (own : Element) (after : List Headed),
    sections = before ++ (depth, own) :: after ∧ 1 < depth ∧ ∀ p ∈ before, p.1 ≠ depth - 1

theorem parentIndex?_eq_none_iff {j : Nat} (own : depths[j]? = some depth) :
    parentIndex? depths j = none ↔ ∀ k < j, depths[k]? ≠ some (depth - 1) := by
  unfold parentIndex?
  simp only [own, Option.bind_eq_bind, Option.bind_some, List.find?_eq_none]
  simp

theorem hasOrphan_iff {sections : List Headed} :
    HasOrphan sections ↔ ∃ (j : Nat) (depth : Int), (sections.map (·.1))[j]? = some depth ∧
      1 < depth ∧ parentIndex? (sections.map (·.1)) j = none := by
  constructor
  · rintro ⟨before, depth, own, after, rfl, deep, alone⟩
    have here : ((before ++ (depth, own) :: after).map (·.1))[before.length]? = some depth := by
      rw [List.getElem?_map, List.getElem?_append_right (Nat.le_refl _), Nat.sub_self]
      rfl
    refine ⟨before.length, depth, here, deep, (parentIndex?_eq_none_iff here).mpr ?_⟩
    intro k lt found
    rw [List.getElem?_map, List.getElem?_append_left lt, List.getElem?_eq_getElem lt] at found
    exact alone before[k] (getElem_mem lt) (Option.some.inj found)
  · rintro ⟨j, depth, here, deep, alone⟩
    rw [parentIndex?_eq_none_iff here] at alone
    rw [List.getElem?_map, Option.map_eq_some_iff] at here
    obtain ⟨⟨_, own⟩, found, rfl⟩ := here
    obtain ⟨lt, at_⟩ := List.getElem?_eq_some_iff.mp found
    refine ⟨sections.take j, _, own, sections.drop (j + 1), ?_, deep, ?_⟩
    · rw [← at_, getElem_cons_drop, take_append_drop]
    · intro p mem same
      obtain ⟨k, below, rfl⟩ := getElem_of_mem mem
      rw [length_take] at below
      refine alone k (by omega) ?_
      rw [List.getElem?_map, List.getElem?_eq_getElem (by omega), ← same, getElem_take]
      rfl

variable {sections : List Headed}

/-- Where no section is an orphan, every deeper one lies in another. -/
theorem parented_of_not_hasOrphan (noOrphan : ¬ HasOrphan sections) :
    Parented (sections.map (·.1)) := by
  intro j depth own deep
  rw [← Option.ne_none_iff_isSome]
  intro alone
  exact noOrphan (hasOrphan_iff.mpr ⟨j, depth, own, deep, alone⟩)

/-- A first section that is no orphan has depth 1. -/
theorem first_depth (noOrphan : ¬ HasOrphan sections) (pos : ∀ p ∈ sections, 1 ≤ p.1)
    (nonempty : sections ≠ []) : (sections.map (·.1))[0]? = some 1 := by
  match sections, nonempty with
  | (depth, own) :: after, _ =>
    have least : 1 ≤ depth := pos _ mem_cons_self
    have notDeep : ¬ 1 < depth := fun deep =>
      noOrphan ⟨[], depth, own, after, rfl, deep, by simp⟩
    obtain rfl : depth = 1 := by omega
    rfl

/-- There is no outline of nothing, or around an orphan. -/
theorem outline_eq_error (missing : sections = [] ∨ HasOrphan sections) :
    outline sections = .error .notFound := by
  rcases missing with rfl | orphan
  · rfl
  · obtain ⟨j, depth, own, deep, alone⟩ := hasOrphan_iff.mp orphan
    have lt := (List.getElem?_eq_some_iff.mp own).1
    unfold outline
    refine if_pos (any_eq_true.mpr ⟨j, mem_range.mpr lt, ?_⟩)
    simp only [own, alone]
    simpa using deep

/-! ## Levels -/

/-- Grouping by keys loses nothing when each key is there once. -/
theorem perm_groups {α κ : Type} [DecidableEq κ] (keys : List κ) (key : α → κ) (items : List α)
    (once : keys.Nodup) (known : ∀ a ∈ items, key a ∈ keys) :
    (keys.flatMap fun k => items.filter fun a => key a = k).Perm items := by
  induction items with
  | nil => simp
  | cons a items ih =>
    rw [forall_mem_cons] at known
    obtain ⟨before, after, rfl⟩ := append_of_mem known.1
    have others : ∀ k ∈ before ++ after, key a ≠ k := by
      rintro k mem rfl
      exact (nodup_middle.mp once).notMem mem
    have same : ∀ ks : List κ, (∀ k ∈ ks, key a ≠ k) →
        (ks.flatMap fun k => (a :: items).filter fun a => key a = k)
          = ks.flatMap fun k => items.filter fun a => key a = k := by
      intro ks differ
      refine flatMap_congr fun k mem => ?_
      rw [filter_cons_of_neg (by simpa using differ k mem)]
    rw [forall_mem_append] at others
    have rest := ih known.2
    rw [flatMap_append, flatMap_cons] at rest ⊢
    rw [same before others.1, same after others.2, filter_cons_of_pos (by simp)]
    exact perm_middle.trans (rest.cons a)

theorem mem_placesOf {j : Nat} :
    j ∈ placesOf depths depth 0 depths.length ↔ depths[j]? = some depth := by
  rw [placesOf, mem_filter, mem_range'_1, beq_iff_eq]
  constructor
  · exact fun both => both.2
  · intro own
    have lt := (List.getElem?_eq_some_iff.mp own).1
    exact ⟨by omega, own⟩

theorem nodup_placesOf (depths : List Int) (depth : Int) (start size : Nat) :
    (placesOf depths depth start size).Nodup :=
  (nodup_range' (n := size)).filter _

/-- In the sections of one depth lie those of the next. -/
theorem perm_children (lies : Parented depths) (pos : 1 ≤ depth) :
    ((placesOf depths depth 0 depths.length).flatMap (childIndices depths)).Perm
      (placesOf depths (depth + 1) 0 depths.length) := by
  have grouped := perm_groups ((placesOf depths depth 0 depths.length).map some)
    (parentIndex? depths) (placesOf depths (depth + 1) 0 depths.length)
    ((nodup_placesOf ..).map fun _ _ same => Option.some.inj same) ?_
  · rw [flatMap_map] at grouped
    refine List.Perm.trans (.of_eq (flatMap_congr fun i mem => ?_)) grouped
    have own := mem_placesOf.mp mem
    show (List.range depths.length).filter (isChild depths i) = _
    rw [placesOf, filter_filter, range_eq_range']
    refine filter_congr fun j range => ?_
    have present : j < depths.length := by
      have := mem_range'_1.mp range
      omega
    have there := List.getElem?_eq_getElem present
    rw [Bool.eq_iff_iff, isChild_iff there, Bool.and_eq_true, decide_eq_true_iff, beq_iff_eq,
      parentIndex?_eq_some_iff there, own, there]
    grind
  · intro j mem
    have own := mem_placesOf.mp mem
    obtain ⟨i, parent⟩ := Option.isSome_iff_exists.mp (lies own (by omega))
    have above := ((parentIndex?_eq_some_iff own).mp parent).1
    rw [parent]
    exact mem_map_of_mem (mem_placesOf.mpr (by simpa using above))

/-- What is nested at a place, listed. -/
def listingAt (sections : List Headed) (levels : Nat) (depth : Int) (i : Nat) : List Headed :=
  (nest sections levels i).toList.flatMap (listing depth)

theorem flatMap_filterMap_nest (levels : Nat) (depth : Int) (places : List Nat) :
    (places.filterMap (nest sections levels)).flatMap (listing depth)
      = places.flatMap (listingAt sections levels depth) := by
  rw [filterMap_eq_flatMap_toList, flatMap_assoc]
  rfl

theorem listingAt_succ {i : Nat} {own : Element} (here : sections[i]? = some (depth, own))
    (leaf : IsLeaf own) (levels : Nat) :
    listingAt sections (levels + 1) depth i = (depth, own) ::
      (childIndices (sections.map (·.1)) i).flatMap (listingAt sections levels (depth + 1)) := by
  have nested : nest sections (levels + 1) i = some (addSections own
      ((childIndices (sections.map (·.1)) i).filterMap (nest sections levels))) := by
    rw [nest, here]
    rfl
  rw [listingAt, nested, Option.toList_some, flatMap_singleton, leaf.listing_addSections,
    flatMap_filterMap_nest]

theorem filterMap_getElem?_range {α : Type} (as : List α) :
    (List.range as.length).filterMap (as[·]?) = as := by
  induction as with
  | nil => rfl
  | cons a as ih =>
    rw [length_cons, range_succ_eq_map, filterMap_cons, filterMap_map]
    exact congrArg (a :: ·) ih

/-- The sections of a depth, from their places. -/
theorem filterMap_placesOf (depth : Int) :
    (placesOf (sections.map (·.1)) depth 0 sections.length).filterMap (sections[·]?)
      = sections.filter fun p => p.1 = depth := by
  rw [placesOf, ← range_eq_range', filterMap_filter]
  conv_rhs => rw [← filterMap_getElem?_range sections, filter_filterMap]
  refine filterMap_congr fun i _ => ?_
  cases here : sections[i]? with
  | none => simp
  | some p => simp [here, Option.filter]

/-- The sections of a depth and of the next ones below, level by level. -/
theorem perm_levels (leaves : ∀ p ∈ sections, IsLeaf p.2) (lies : Parented (sections.map (·.1)))
    (levels : Nat) (pos : 1 ≤ depth) :
    ((placesOf (sections.map (·.1)) depth 0 sections.length).flatMap
      (listingAt sections levels depth)).Perm
        ((List.range levels).flatMap fun k : Nat => sections.filter fun p => p.1 = depth + k) := by
  induction levels generalizing depth with
  | zero => simp [listingAt, nest]
  | succ levels ih =>
    let places := placesOf (sections.map (·.1)) depth 0 sections.length
    let below := listingAt sections levels (depth + 1)
    have split : places.flatMap (listingAt sections (levels + 1) depth) = places.flatMap fun i =>
        sections[i]?.toList ++ (childIndices (sections.map (·.1)) i).flatMap below := by
      refine flatMap_congr fun i mem => ?_
      have own : (sections.map (·.1))[i]? = some depth := beq_iff_eq.mp (mem_filter.mp mem).2
      rw [List.getElem?_map, Option.map_eq_some_iff] at own
      obtain ⟨⟨_, own⟩, here, rfl⟩ := own
      rw [listingAt_succ here (leaves _ (mem_of_getElem? here)), here]
      rfl
    have children := perm_children lies pos
    rw [length_map] at children
    have next : (List.range (levels + 1)).flatMap
          (fun k : Nat => sections.filter fun p => p.1 = depth + k)
        = sections.filter (fun p => p.1 = depth) ++ (List.range levels).flatMap
          fun k : Nat => sections.filter fun p => p.1 = depth + 1 + k := by
      rw [range_succ_eq_map, flatMap_cons, flatMap_map]
      simp [Int.add_assoc, Int.add_comm 1]
    rw [split, next, ← filterMap_placesOf depth, filterMap_eq_flatMap_toList]
    refine (flatMap_append_perm places _ _).symm.trans (List.Perm.append_left _ ?_)
    rw [← flatMap_assoc]
    exact (children.flatMap_right below).trans (ih (by omega))

/-- Above a section there is one of each smaller depth, all before it. -/
theorem depth_le (lies : Parented depths) {j : Nat} (own : depths[j]? = some depth) :
    depth ≤ j + 1 := by
  induction j using Nat.strong_induction_on generalizing depth with
  | _ j ih =>
    by_cases deep : 1 < depth
    · obtain ⟨i, parent⟩ := Option.isSome_iff_exists.mp (lies own deep)
      obtain ⟨above, lt, -⟩ := (parentIndex?_eq_some_iff own).mp parent
      have bound := ih i lt above
      omega
    · omega

/-- Sections without an orphan among them have an outline, which holds each once at its depth. -/
theorem exists_outline (nonempty : sections ≠ []) (noOrphan : ¬ HasOrphan sections)
    (pos : ∀ p ∈ sections, 1 ≤ p.1) (leaves : ∀ p ∈ sections, IsLeaf p.2) :
    ∃ trees, outline sections = .ok trees ∧ (trees.flatMap (listing 1)).Perm sections := by
  have lies := parented_of_not_hasOrphan noOrphan
  refine ⟨_, outline_eq (first_depth noOrphan pos nonempty) lies, ?_⟩
  rw [flatMap_filterMap_nest]
  refine (perm_levels leaves lies (sections.length + 1) (Int.le_refl 1)).trans ?_
  have grouped := perm_groups ((List.range (sections.length + 1)).map fun k : Nat => 1 + (k : Int))
    (·.1) sections (nodup_range.map fun _ _ same => by omega) ?_
  · rwa [flatMap_map] at grouped
  · intro p mem
    obtain ⟨j, lt, rfl⟩ := getElem_of_mem mem
    have least := pos _ mem
    have most : sections[j].1 ≤ j + 1 := depth_le lies (j := j) (by simp [lt])
    exact mem_map.mpr ⟨(sections[j].1 - 1).toNat, mem_range.mpr (by omega), by omega⟩

/-- Sections that go down by one level at a time have an outline that lists them as they come. -/
theorem exists_outline_preorder (first : (sections.map (·.1)).head? = some 1)
    (steps : Stepwise (sections.map (·.1))) (pos : ∀ p ∈ sections, 1 ≤ p.1)
    (leaves : ∀ p ∈ sections, IsLeaf p.2) :
    ∃ trees, outline sections = .ok trees ∧ trees.flatMap (listing 1) = sections := by
  obtain ⟨f, order⟩ := exists_preorder Prod.fst sections 1 steps
    (fun p head => by
      rw [List.head?_map, Option.mem_def.mp head] at first
      exact Option.some.inj first) pos
  have same : (f.map Prod.snd).preorder 1 = sections := by
    rw [Forest.preorder_map, order, map_map]
    exact map_id' sections
  have nonempty : (f.map Prod.snd).preorder 1 ≠ [] := by
    rw [same]
    rintro rfl
    cases first
  have made := outline_preorder nonempty (by rwa [same])
  have listed := flatMap_listing_build (f.map Prod.snd) (same ▸ leaves)
  rw [same] at made listed
  exact ⟨_, made, listed⟩

/-- There is an outline of sections unless there are none or one of them is an orphan. It holds each
section once, at the depth of its heading. Where the first depth is 1 and no depth is left out on
the way down, the sections stand in the order in which they come. -/
theorem outline_at_depths (sections : List Headed)
    (leaves : ∀ p ∈ sections, 1 ≤ p.1 ∧ IsLeaf p.2) :
    (outline sections = .error .notFound ↔ sections = [] ∨ HasOrphan sections) ∧
    (¬ (sections = [] ∨ HasOrphan sections) →
      ∃ trees, outline sections = .ok trees ∧ (trees.flatMap (listing 1)).Perm sections) ∧
    ((sections.map (·.1)).head? = some 1 → Stepwise (sections.map (·.1)) →
      ∃ trees, outline sections = .ok trees ∧ trees.flatMap (listing 1) = sections) := by
  have pos : ∀ p ∈ sections, 1 ≤ p.1 := fun p mem => (leaves p mem).1
  have leaves : ∀ p ∈ sections, IsLeaf p.2 := fun p mem => (leaves p mem).2
  have present : ¬ (sections = [] ∨ HasOrphan sections) →
      ∃ trees, outline sections = .ok trees ∧ (trees.flatMap (listing 1)).Perm sections := by
    intro fine
    rw [not_or] at fine
    exact exists_outline fine.1 fine.2 pos leaves
  refine ⟨⟨fun failed => ?_, outline_eq_error⟩, present,
    fun first steps => exists_outline_preorder first steps pos leaves⟩
  by_contra fine
  obtain ⟨trees, made, -⟩ := present fine
  rw [made] at failed
  cases failed

/-- A section with nothing but a title. -/
def titled (title : String) : Element :=
  .node .section [("name", .absent), ("content", .many []), ("sections", .many [])]
    [("title", .text title)]

/-- The last section goes back below the first one, behind which another has started. -/
def jumpingBack : List Headed :=
  [(1, titled "Scope"), (2, titled "Terms"), (1, titled "Wire"), (3, titled "Octet")]

theorem outline_at_depths_jumping :
    (∀ p ∈ jumpingBack, 1 ≤ p.1 ∧ IsLeaf p.2) ∧
    ∃ trees, outline jumpingBack = .ok trees ∧ (trees.flatMap (listing 1)).Perm jumpingBack := by
  have leaves : ∀ p ∈ jumpingBack, 1 ≤ p.1 ∧ IsLeaf p.2 := by
    simp [jumpingBack, titled, IsLeaf]
  have fine : ¬ (jumpingBack = [] ∨ HasOrphan jumpingBack) := by
    rw [hasOrphan_iff]
    rintro (empty | ⟨j, depth, own, deep, alone⟩)
    · cases empty
    · have all : ∀ j < 4, (jumpingBack.map (·.1))[j]? = some 1 ∨
          parentIndex? (jumpingBack.map (·.1)) j ≠ none := by decide
      rcases all j (List.getElem?_eq_some_iff.mp own).1 with top | within
      · rw [top] at own
        cases own
        cases deep
      · exact within alone
  exact ⟨leaves, (outline_at_depths jumpingBack leaves).2.1 fine⟩

end PacketDraft.Memo
