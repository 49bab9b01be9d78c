import Mathlib.Data.List.Chain
import PacketDraft.Memo.Outline

/-!
# Outlines and trees

Trees one after the other are written down in pre-order, each root with its depth. The main
statement is `outline_preorder`: the outline of such a sequence is made of the same trees. Every
sequence that starts at depth 1 and goes down by one level at a time is the pre-order of some trees
(`exists_preorder`).
-/

namespace PacketDraft.Memo

open Document List Nat Option

/-! ## Trees -/

/-- Trees one after the other: a root with the trees in it, and the trees behind it. -/
inductive Forest (α : Type) where
  | none
  | tree (root : α) (inner rest : Forest α)

namespace Forest

variable {α β : Type}

/-- Roots before what lies in them, each with its depth. -/
def preorder : Forest α → Int → List (Int × α)
  | .none, _ => []
  | .tree root inner rest, depth =>
    (depth, root) :: (inner.preorder (depth + 1) ++ rest.preorder depth)

/-- The same trees with other roots. -/
def map (g : α → β) : Forest α → Forest β
  | .none => .none
  | .tree root inner rest => .tree (g root) (inner.map g) (rest.map g)

/-- Values made from those of the inner trees. -/
def build (node : α → List β → β) : Forest α → List β
  | .none => []
  | .tree root inner rest => node root (inner.build node) :: rest.build node

theorem preorder_map (g : α → β) (f : Forest α) (depth : Int) :
    (f.map g).preorder depth = (f.preorder depth).map fun p => (p.1, g p.2) := by
  induction f generalizing depth with
  | none => rfl
  | tree root inner rest ihInner ihRest =>
    rw [map, preorder, ihInner, ihRest, preorder, map_cons, map_append]

theorem build_map {γ : Type} (g : α → β) (node : β → List γ → γ) (f : Forest α) :
    (f.map g).build node = f.build fun a inner => node (g a) inner := by
  induction f with
  | none => rfl
  | tree root inner rest ihInner ihRest => rw [map, build, ihInner, ihRest, build]

theorem le_of_mem_preorder (f : Forest α) {depth : Int} {p : Int × α}
    (mem : p ∈ f.preorder depth) : depth ≤ p.1 := by
  induction f generalizing depth with
  | none => cases mem
  | tree root inner rest ihInner ihRest =>
    rcases mem_cons.mp mem with rfl | later
    · exact Int.le_refl depth
    · rcases mem_append.mp later with inside | behind
      · have deeper := ihInner inside
        omega
      · exact ihRest behind

theorem head?_preorder (f : Forest α) (depth : Int) :
    ∀ p ∈ (f.preorder depth).head?, p.1 = depth := by
  cases f with
  | none => rintro p ⟨⟩
  | tree root inner rest =>
    rintro p ⟨⟩
    rfl

end Forest

/-! ## Depths -/

/-- Depths that grow by one at most from each section to the next. -/
abbrev Stepwise (depths : List Int) : Prop :=
  depths.IsChain fun d e => e ≤ d + 1

theorem Stepwise.le {depths : List Int} (steps : Stepwise depths) {j : Nat} {x y : Int}
    (here : depths[j]? = some x) (next : depths[j + 1]? = some y) : y ≤ x + 1 := by
  obtain ⟨_, rfl⟩ := List.getElem?_eq_some_iff.mp here
  obtain ⟨lt, rfl⟩ := List.getElem?_eq_some_iff.mp next
  exact steps.getElem j lt

/-- On the way to a depth every depth above it is met. -/
theorem exists_between {depths : List Int} (steps : Stepwise depths) {a j : Nat} {x y v : Int}
    (start : depths[a]? = some x) (above : x ≤ v) (le : a ≤ j) (target : depths[j]? = some y)
    (deeper : v < y) : ∃ k, a ≤ k ∧ k < j ∧ depths[k]? = some v := by
  induction j generalizing y with
  | zero =>
    obtain rfl : a = 0 := le_zero.mp le
    obtain rfl : x = y := some.inj (start.symm.trans target)
    omega
  | succ j ih =>
    by_cases same : a = j + 1
    · subst same
      obtain rfl : x = y := some.inj (start.symm.trans target)
      omega
    · have lt : j + 1 < depths.length := (List.getElem?_eq_some_iff.mp target).1
      have here : depths[j]? = some depths[j] := List.getElem?_eq_getElem (by omega)
      have step := steps.le here target
      by_cases found : depths[j] = v
      · exact ⟨j, by omega, by omega, by rw [here, found]⟩
      · obtain ⟨k, ge, lt, depth⟩ := ih (by omega) here (by omega)
        exact ⟨k, ge, by omega, depth⟩

/-- The last number below a bound with a property. -/
theorem find?_reverse_range {p : Nat → Bool} {n i : Nat} :
    (List.range n).reverse.find? p = some i
      ↔ p i = true ∧ i < n ∧ ∀ k, i < k → k < n → p k = false := by
  induction n with
  | zero => simp
  | succ n ih =>
    rw [range_succ, reverse_append, reverse_singleton, singleton_append]
    cases last : p n with
    | true =>
      rw [List.find?_cons_of_pos last]
      constructor
      · rintro ⟨⟩
        exact ⟨last, lt_succ_self _, fun k above below => by omega⟩
      · rintro ⟨fits, below, later⟩
        by_cases same : i = n
        · rw [same]
        · have no := later n (by omega) (lt_succ_self n)
          rw [last] at no
          cases no
    | false =>
      rw [List.find?_cons_of_neg (by simp [last]), ih]
      constructor
      · rintro ⟨fits, below, later⟩
        refine ⟨fits, by omega, fun k above upTo => ?_⟩
        by_cases same : k = n
        · rw [same, last]
        · exact later k above (by omega)
      · rintro ⟨fits, below, later⟩
        have other : i ≠ n := by
          rintro rfl
          rw [last] at fits
          cases fits
        exact ⟨fits, by omega, fun k above upTo => later k above (by omega)⟩

theorem parentIndex?_eq_some_iff {depths : List Int} {i j : Nat} {depth : Int}
    (own : depths[j]? = some depth) : parentIndex? depths j = some i
      ↔ depths[i]? = some (depth - 1) ∧ i < j
        ∧ ∀ k, i < k → k < j → depths[k]? ≠ some (depth - 1) := by
  unfold parentIndex?
  simp only [own, bind_eq_bind, bind_some, find?_reverse_range]
  simp

/-- The places from `start` on, `size` of them, where a depth is found. -/
def placesOf (depths : List Int) (depth : Int) (start size : Nat) : List Nat :=
  (List.range' start size).filter fun j => depths[j]? == some depth

/-- What stands at a place with `size` deeper places behind it, up to one that is not deeper. -/
structure Encloses (depths : List Int) (place size : Nat) (depth : Int) : Prop where
  own : depths[place]? = some depth
  inner : ∀ j, place < j → j ≤ place + size → ∃ x, depths[j]? = some x ∧ depth < x
  behind : ∀ x, depths[place + size + 1]? = some x → x ≤ depth

/-- Behind a place of some depth, no other of this depth is found among what it encloses. -/
theorem Encloses.placesOf_eq {depths : List Int} {place size : Nat} {depth : Int}
    (enc : Encloses depths place size depth) (more : Nat) :
    placesOf depths depth place (size + more + 1)
      = place :: placesOf depths depth (place + 1 + size) more := by
  have inside : (List.range' (place + 1) size).filter (fun j => depths[j]? == some depth) = [] := by
    refine filter_eq_nil_iff.mpr fun j mem same => ?_
    have range := mem_range'_1.mp mem
    obtain ⟨x, found, deeper⟩ := enc.inner j (by omega) (by omega)
    have := some.inj (found.symm.trans (beq_iff_eq.mp same))
    omega
  have own : (depths[place]? == some depth) = true := by
    rw [enc.own]
    exact beq_self_eq_true _
  unfold placesOf
  rw [List.range'_succ, filter_cons, if_pos own, ← List.range'_append_1, filter_append,
    inside, nil_append]

/-- Whether a section lies directly in the one at a place. -/
def isChild (depths : List Int) (place j : Nat) : Bool :=
  (match depths[j]? with | some d => 1 < d | none => false) && parentIndex? depths j == some place

theorem isChild_iff {depths : List Int} {place j : Nat} {x : Int} (own : depths[j]? = some x) :
    isChild depths place j = true ↔ 1 < x ∧ depths[place]? = some (x - 1) ∧ place < j
      ∧ ∀ k, place < k → k < j → depths[k]? ≠ some (x - 1) := by
  unfold isChild
  rw [own, Bool.and_eq_true, beq_iff_eq, parentIndex?_eq_some_iff own, decide_eq_true_iff]

namespace Encloses

variable {depths : List Int} {place size : Nat} {depth : Int}

theorem lt_length (enc : Encloses depths place size depth) : place + size < depths.length := by
  cases size with
  | zero => exact (List.getElem?_eq_some_iff.mp enc.own).1
  | succ size =>
    obtain ⟨x, last, -⟩ := enc.inner (place + (size + 1)) (by omega) (Nat.le_refl _)
    exact (List.getElem?_eq_some_iff.mp last).1

/-- Of what a section encloses, that of the next depth lies directly in it. -/
theorem isChild_inner (enc : Encloses depths place size depth) (pos : 1 ≤ depth) {j : Nat}
    (above : place < j) (below : j ≤ place + size) :
    isChild depths place j = (depths[j]? == some (depth + 1)) := by
  obtain ⟨x, own, deeper⟩ := enc.inner j above below
  rw [Bool.eq_iff_iff, isChild_iff own, own, enc.own, beq_iff_eq]
  constructor
  · rintro ⟨-, parent, -⟩
    have := some.inj parent
    rw [this]
    simp
  · intro next
    have next := some.inj next
    refine ⟨by omega, by rw [next]; simp, above, fun k after before same => ?_⟩
    obtain ⟨y, other, deeper⟩ := enc.inner k after (by omega)
    have := some.inj (other.symm.trans same)
    omega

/-- What comes behind all that a section encloses is deeper by one only below another of its
depth. -/
theorem isChild_behind (enc : Encloses depths place size depth) (steps : Stepwise depths) {j : Nat}
    (present : j < depths.length) (behind : place + size < j) :
    ¬ isChild depths place j = true := by
  intro child
  have own := List.getElem?_eq_getElem present
  obtain ⟨-, parent, -, nearest⟩ := (isChild_iff own).mp child
  have depth_eq := some.inj (enc.own.symm.trans parent)
  have next := List.getElem?_eq_getElem (l := depths) (i := place + size + 1) (by omega)
  obtain ⟨k, ge, lt, same⟩ :=
    exists_between steps next (enc.behind _ next) behind own (by omega : depth < depths[j])
  exact nearest k (by omega) lt (by rw [same, depth_eq])

end Encloses

/-- Directly in a section lie those of the next depth before the next section that is not deeper. -/
theorem childIndices_eq {depths : List Int} (steps : Stepwise depths) {place size : Nat}
    {depth : Int} (enc : Encloses depths place size depth) (pos : 1 ≤ depth) :
    childIndices depths place = placesOf depths (depth + 1) (place + 1) size := by
  have bound := enc.lt_length
  obtain ⟨more, length⟩ : ∃ more, depths.length = (place + 1) + (size + more) :=
    ⟨depths.length - (place + 1 + size), by omega⟩
  have before : (List.range' 0 (place + 1)).filter (isChild depths place) = [] := by
    refine filter_eq_nil_iff.mpr fun j mem => ?_
    have range := mem_range'_1.mp mem
    intro child
    have later := ((isChild_iff (List.getElem?_eq_getElem (by omega))).mp child).2.2.1
    omega
  have inside : (List.range' (place + 1) size).filter (isChild depths place)
      = placesOf depths (depth + 1) (place + 1) size := by
    refine filter_congr fun j mem => ?_
    have range := mem_range'_1.mp mem
    exact enc.isChild_inner pos (by omega) (by omega)
  have after : (List.range' (place + 1 + size) more).filter (isChild depths place) = [] := by
    refine filter_eq_nil_iff.mpr fun j mem => ?_
    have range := mem_range'_1.mp mem
    exact enc.isChild_behind steps (by omega) (by omega)
  have range : List.range depths.length = List.range' 0 (place + 1)
      ++ (List.range' (place + 1) size ++ List.range' (place + 1 + size) more) := by
    have whole := List.range'_append_1 (s := 0) (m := place + 1) (n := size + more)
    rw [Nat.zero_add] at whole
    rw [List.range'_append_1, whole, ← length, range_eq_range']
  show (List.range depths.length).filter (isChild depths place) = _
  rw [range, filter_append, filter_append, before, inside, after, append_nil,
    nil_append]

/-! ## Nesting -/

theorem getElem?_append_add {α : Type} (before l : List α) (k : Nat) :
    (before ++ l)[before.length + k]? = l[k]? := by
  rw [List.getElem?_append_right (Nat.le_add_right ..), Nat.add_sub_cancel_left]

/-- A root encloses the trees in it. -/
theorem encloses_preorder {α : Type} {root : α} {inner : Forest α} {depth : Int}
    {before after : List (Int × α)} (behind : ∀ p ∈ after.head?, p.1 ≤ depth) :
    Encloses ((before ++ (depth, root) :: (inner.preorder (depth + 1) ++ after)).map (·.1))
      before.length (inner.preorder (depth + 1)).length depth := by
  refine ⟨?_, fun j above below => ?_, fun x next => ?_⟩
  · rw [List.getElem?_map, List.getElem?_append_right (Nat.le_refl _), Nat.sub_self]
    rfl
  · obtain ⟨k, rfl⟩ : ∃ k, j = before.length + (k + 1) := ⟨j - before.length - 1, by omega⟩
    have lt : k < (inner.preorder (depth + 1)).length := by omega
    rw [List.getElem?_map, getElem?_append_add, List.getElem?_cons_succ,
      List.getElem?_append_left lt, List.getElem?_eq_getElem lt]
    have deeper := inner.le_of_mem_preorder (getElem_mem lt)
    exact ⟨_, rfl, Int.lt_of_add_one_le deeper⟩
  · rw [List.getElem?_map, Nat.add_assoc, getElem?_append_add, List.getElem?_cons_succ,
      List.getElem?_append_right (Nat.le_refl _), Nat.sub_self, ← List.head?_eq_getElem?,
      Option.map_eq_some_iff] at next
    obtain ⟨p, first, rfl⟩ := next
    exact behind p first

/-- Where trees stand in a sequence of sections, what is nested at their roots. -/
theorem nest_roots {sections : List Headed} (steps : Stepwise (sections.map (·.1)))
    (f : Forest Element) {depth : Int} (pos : 1 ≤ depth) {before after : List Headed}
    (place : sections = before ++ (f.preorder depth ++ after))
    (behind : ∀ p ∈ after.head?, p.1 ≤ depth) {levels : Nat}
    (enough : (f.preorder depth).length < levels) :
    (placesOf (sections.map (·.1)) depth before.length (f.preorder depth).length).filterMap
      (nest sections levels) = f.build addSections := by
  induction f generalizing depth before after levels with
  | none => rfl
  | tree root inner rest ihInner ihRest =>
    rw [Forest.preorder, length_cons, length_append] at enough ⊢
    rw [Forest.preorder, cons_append, append_assoc] at place
    have siblings : ∀ p ∈ (rest.preorder depth ++ after).head?, p.1 ≤ depth := by
      intro p first
      rw [List.head?_append, mem_def, or_eq_some_iff] at first
      rcases first with next | ⟨-, next⟩
      · exact Int.le_of_eq (rest.head?_preorder depth p next)
      · exact behind p next
    have enc : Encloses (sections.map (·.1)) before.length (inner.preorder (depth + 1)).length
        depth := place ▸ encloses_preorder siblings
    obtain ⟨fewer, rfl⟩ : ∃ fewer, levels = fewer + 1 := ⟨levels - 1, by omega⟩
    have own : nest sections (fewer + 1) before.length
        = some (addSections root (inner.build addSections)) := by
      have here : sections[before.length]? = some (depth, root) := by
        rw [place]
        exact getElem?_append_add before _ 0
      have next : sections = (before ++ [(depth, root)])
          ++ (inner.preorder (depth + 1) ++ (rest.preorder depth ++ after)) := by
        rw [place, append_assoc, singleton_append]
      have fuel : (inner.preorder (depth + 1)).length < fewer := by omega
      have inside := ihInner (by omega) next
        (fun p first => Int.le_trans (siblings p first) (by omega)) fuel
      rw [length_append, length_singleton, ← childIndices_eq steps enc pos] at inside
      rw [nest, here, ← inside]
      rfl
    have later : (placesOf (sections.map (·.1)) depth
        (before.length + 1 + (inner.preorder (depth + 1)).length)
        (rest.preorder depth).length).filterMap (nest sections (fewer + 1))
        = rest.build addSections := by
      have next : sections = (before ++ (depth, root) :: inner.preorder (depth + 1))
          ++ (rest.preorder depth ++ after) := by
        rw [place, append_assoc, cons_append]
      have start : (before ++ (depth, root) :: inner.preorder (depth + 1)).length
          = before.length + 1 + (inner.preorder (depth + 1)).length := by
        rw [length_append, length_cons]
        omega
      have fuel : (rest.preorder depth).length < fewer + 1 := by omega
      rw [← start]
      exact ihRest pos next behind fuel
    rw [enc.placesOf_eq, filterMap_cons_some own, later]
    rfl

/-- Every section below the first level lies in another. -/
def Parented (depths : List Int) : Prop :=
  ∀ ⦃j : Nat⦄ ⦃depth : Int⦄, depths[j]? = some depth → 1 < depth →
    (parentIndex? depths j).isSome = true

theorem parented_of_stepwise {depths : List Int} (steps : Stepwise depths)
    (first : depths[0]? = some 1) : Parented depths := by
  intro j depth own deep
  obtain ⟨k, -, below, found⟩ :=
    exists_between steps first (by omega : (1 : Int) ≤ depth - 1) (zero_le j) own (by omega)
  unfold parentIndex?
  simp only [own, bind_eq_bind, bind_some, List.find?_isSome]
  exact ⟨k, by simpa using below, by simp [found]⟩

/-- The outline when there is a first section of depth 1 and every deeper one lies in another. -/
theorem outline_eq {sections : List Headed} (first : (sections.map (·.1))[0]? = some 1)
    (lies : Parented (sections.map (·.1))) :
    outline sections = .ok ((placesOf (sections.map (·.1)) 1 0 sections.length).filterMap
      (nest sections (sections.length + 1))) := by
  have top : (List.range (sections.map (·.1)).length).any
      (fun i => (sections.map (·.1))[i]? == some 1) = true := by
    have pos := (List.getElem?_eq_some_iff.mp first).1
    exact any_eq_true.mpr ⟨0, mem_range.mpr pos, by rw [first]; rfl⟩
  unfold outline
  refine (if_neg (ne_true_of_eq_false (any_eq_false.mpr fun i _ outside => ?_))).trans ?_
  · rw [Bool.and_eq_true] at outside
    cases own : (sections.map (·.1))[i]? with
    | none =>
      simp only [own] at outside
      cases outside.1
    | some d =>
      simp only [own] at outside
      have within := lies own (of_decide_eq_true outside.1)
      rw [← not_isSome, within] at outside
      cases outside.2
  · rw [top, placesOf, ← range_eq_range', length_map]
    rfl

/-- The outline of trees in pre-order is made of the trees. -/
theorem outline_preorder {f : Forest Element} (nonempty : f.preorder 1 ≠ [])
    (steps : Stepwise ((f.preorder 1).map (·.1))) :
    outline (f.preorder 1) = .ok (f.build addSections) := by
  have first : ((f.preorder 1).map (·.1))[0]? = some 1 := by
    rw [← List.head?_eq_getElem?, List.head?_map, List.head?_eq_some_head nonempty, map_some,
      f.head?_preorder 1 _ (List.head?_eq_some_head nonempty)]
  have whole : f.preorder 1 = [] ++ (f.preorder 1 ++ []) := by
    rw [append_nil, nil_append]
  have roots := nest_roots steps f (Int.le_refl 1) whole (by simp) (lt_succ_self _)
  rw [outline_eq first (parented_of_stepwise steps first)]
  exact congrArg Except.ok roots

/-! ## Sequences -/

/-- Depths that go down by one level at a time are those of trees in pre-order. -/
theorem exists_preorder {α : Type} (depthOf : α → Int) (as : List α) (depth : Int)
    (steps : Stepwise (as.map depthOf)) (first : ∀ a ∈ as.head?, depthOf a = depth)
    (deep : ∀ a ∈ as, depth ≤ depthOf a) :
    ∃ f : Forest α, f.preorder depth = as.map fun a => (depthOf a, a) := by
  match as with
  | [] => exact ⟨.none, rfl⟩
  | root :: later =>
    obtain rfl : depthOf root = depth := first root rfl
    let isInner := fun a => decide (depthOf root < depthOf a)
    have split : later.takeWhile isInner ++ later.dropWhile isInner = later :=
      takeWhile_append_dropWhile
    have deeper : ∀ a ∈ later.takeWhile isInner, depthOf root + 1 ≤ depthOf a := by
      intro a mem
      exact of_decide_eq_true (all_eq_true.mp all_takeWhile a mem)
    rw [map_cons] at steps
    obtain ⟨down, chain⟩ := isChain_cons.mp steps
    have firstInner : ∀ a ∈ (later.takeWhile isInner).head?, depthOf a = depthOf root + 1 := by
      intro a head
      have below := deeper a (mem_of_mem_head? head)
      have whole : later.head? = some a := by
        rw [← split, List.head?_append, mem_def.mp head]
        rfl
      have above := down (depthOf a) (by rw [List.head?_map, whole]; rfl)
      omega
    have firstRest : ∀ a ∈ (later.dropWhile isInner).head?, depthOf a = depthOf root := by
      intro a head
      have stop := List.head?_dropWhile_not isInner later
      rw [mem_def.mp head] at stop
      have least := deep a (mem_cons_of_mem root
        ((dropWhile_sublist isInner).subset (mem_of_mem_head? head)))
      have above := of_decide_eq_false stop
      omega
    rw [← split, map_append] at chain
    obtain ⟨chainInner, chainRest, -⟩ := isChain_append.mp chain
    obtain ⟨inner, innerEq⟩ := exists_preorder depthOf (later.takeWhile isInner) (depthOf root + 1)
      chainInner firstInner deeper
    obtain ⟨rest, restEq⟩ := exists_preorder depthOf (later.dropWhile isInner) (depthOf root)
      chainRest firstRest fun a mem => deep a (mem_cons_of_mem root
        ((dropWhile_sublist isInner).subset mem))
    refine ⟨.tree root inner rest, ?_⟩
    rw [Forest.preorder, innerEq, restEq, ← map_append, split, map_cons]
termination_by as.length
decreasing_by
  · exact lt_succ_of_le (takeWhile_sublist isInner).length_le
  · exact lt_succ_of_le (dropWhile_sublist isInner).length_le

end PacketDraft.Memo
