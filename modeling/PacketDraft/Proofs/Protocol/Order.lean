import Mathlib.Data.List.Induction
import Mathlib.Data.List.Perm.Subperm
import PacketDraft.Proofs.Protocol.Graph

/-!
# The dependency order

Types are visited depth first, without a record of what has been visited, and a name is added behind
the names of all parts of its type. `Ordered` says this of every occurrence of a name; it holds step
by step and is kept when only first occurrences stay.
-/

namespace PacketDraft.Protocol.Store

open List

variable {s : Store} {t : TypeRef}
variable {names : List String} {path : List Nat} {name : String}

/-! ## Depth -/

/-- Types nest at most this deep in a type. -/
def Nests (s : Store) : Nat → TypeRef → Prop
  | 0, t => s.entryOf t = none
  | depth + 1, t => ∀ c ∈ s.components t, s.Nests depth c

theorem length_le_of_nodup (nodup : path.Nodup) (bounded : ∀ m ∈ path, m < s.entries.length) :
    path.length ≤ s.entries.length := by
  have subset : path ⊆ List.range s.entries.length := by
    intro m mem
    exact mem_range.mpr (bounded m mem)
  simpa using (subperm_of_subset nodup subset).length_le

/-- Different types of the store that a type is a part of. -/
structure Trail (s : Store) (path : List Nat) (t : TypeRef) : Prop where
  nodup : path.Nodup
  bounded : ∀ m ∈ path, m < s.entries.length
  above : ∀ m ∈ path, Relation.TransGen s.PartOf t (.id m)

/-- A type of the store is none of those that it is a part of. -/
theorem Trail.nodup_cons {n : Nat} (trail : Trail s path (.id n)) (acyclic : s.Acyclic)
    (reachable : s.Reachable (.id n)) : (n :: path).Nodup := by
  refine List.nodup_cons.mpr ⟨?_, trail.nodup⟩
  intro mem
  exact acyclic (.id n) reachable (trail.above n mem)

theorem Trail.bounded_cons {n : Nat} (trail : Trail s path (.id n)) (bound : n < s.entries.length) :
    ∀ m ∈ n :: path, m < s.entries.length := by
  intro m mem
  rcases mem_cons.mp mem with rfl | mem
  · exact bound
  · exact trail.bounded m mem

theorem Trail.above_cons {n : Nat} {c : TypeRef} (trail : Trail s path (.id n))
    (part : s.PartOf c (.id n)) : ∀ m ∈ n :: path, Relation.TransGen s.PartOf c (.id m) := by
  intro m mem
  rcases mem_cons.mp mem with rfl | mem
  · exact .single part
  · exact .head part (trail.above m mem)

/-- Below a trail only as many levels are left as there are other types. -/
theorem nests_of_trail (acyclic : s.Acyclic) {depth : Nat} (trail : Trail s path t)
    (reachable : s.Reachable t) (enough : s.entries.length ≤ depth + path.length) :
    s.Nests depth t := by
  induction depth generalizing t path with
  | zero =>
    cases entry : s.entryOf t with
    | none => exact entry
    | some e =>
      obtain ⟨n, rfl, bound⟩ := entryOf_eq_some entry
      have longer := length_le_of_nodup (trail.nodup_cons acyclic reachable)
        (trail.bounded_cons bound)
      rw [length_cons] at longer
      omega
  | succ depth ih =>
    intro c part
    obtain ⟨name, e, entry, -⟩ := exists_lists_of_partOf part
    obtain ⟨n, rfl, bound⟩ := entryOf_eq_some entry
    have next : Trail s (n :: path) c :=
      ⟨trail.nodup_cons acyclic reachable, trail.bounded_cons bound, trail.above_cons part⟩
    refine ih next (reachable.part part) ?_
    rw [length_cons]
    omega

/-- Where no type is part of itself, types nest no deeper than there are types. -/
theorem nests_of_acyclic (acyclic : s.Acyclic) (reachable : s.Reachable t) :
    s.Nests (s.entries.length + 1) t := by
  have trail : Trail s [] t := ⟨nodup_nil, by simp, by simp⟩
  exact nests_of_trail acyclic trail reachable (by simp)

/-! ## Visiting -/

/-- How the parts of a type of some form are visited: a function leaves out those that are named. -/
def visitPart (s : Store) (depth : Nat) (form : Form) (names : List String) (c : TypeRef) :
    List String :=
  match form with
  | .function _ _ => if s.unseen names c then s.namesWithin depth names c else names
  | _ => s.namesWithin depth names c

theorem namesWithin_listed (depth : Nat) (seen : List String) {e : Entry}
    (entry : s.entryOf t = some e) (listed : e.form.isListed = true) :
    s.namesWithin (depth + 1) seen t
      = (s.components t).foldl (s.visitPart depth e.form) seen ++ [e.shownName] := by
  unfold namesWithin components
  simp only [entry]
  cases form : e.form <;> simp_all [Form.isListed] <;> rfl

theorem namesWithin_unlisted (depth : Nat) (seen : List String)
    (unlisted : ∀ name, ¬ s.Lists t name) : s.namesWithin depth seen t = seen := by
  cases depth with
  | zero => rfl
  | succ depth =>
    unfold namesWithin
    cases entry : s.entryOf t with
    | none => rfl
    | some e =>
      have no : e.form.isListed ≠ true := fun yes => unlisted e.shownName ⟨e, entry, yes, rfl⟩
      cases form : e.form <;> simp_all [Form.isListed]

/-- Every name is that of a listed type that is needed, and stands behind the names of the parts of
that type wherever it occurs. -/
structure Ordered (s : Store) (names : List String) : Prop where
  needed : ∀ name ∈ names, ∃ t, s.Reachable t ∧ s.Lists t name
  behind : ∀ {front back : List String} {name : String}, names = front ++ name :: back →
    ∀ {t c : TypeRef} {part : String}, s.Reachable t → s.Lists t name → s.PartOf c t →
      s.Lists c part → part ∈ front

theorem Ordered.nil : s.Ordered [] :=
  ⟨by simp, fun split => absurd split (by simp)⟩

/-- The parts of a type whose name occurs are named. -/
theorem Ordered.part_mem (ordered : s.Ordered names) {c : TypeRef} {part : String}
    (mem : name ∈ names) (reachable : s.Reachable t) (lists : s.Lists t name) (partOf : s.PartOf c t)
    (listsPart : s.Lists c part) : part ∈ names := by
  obtain ⟨front, back, rfl⟩ := append_of_mem mem
  exact mem_append_left _ (ordered.behind rfl reachable lists partOf listsPart)

/-- A name can be added once the parts of its type are named. -/
theorem Ordered.snoc (ordered : s.Ordered names) (unambiguous : s.Unambiguous)
    (reachable : s.Reachable t) (lists : s.Lists t name)
    (parts : ∀ c ∈ s.components t, ∀ part, s.Lists c part → part ∈ names) :
    s.Ordered (names ++ [name]) := by
  refine ⟨?_, ?_⟩
  · intro other mem
    rcases mem_append.mp mem with mem | mem
    · exact ordered.needed other mem
    · rw [mem_singleton] at mem
      exact ⟨t, reachable, mem ▸ lists⟩
  · intro front back other split u c part reachableU listsU partOf listsPart
    rcases eq_nil_or_concat' back with rfl | ⟨back, last, rfl⟩
    · obtain ⟨rfl, same⟩ := append_inj' split rfl
      cases same
      have sameType := unambiguous u t name reachableU reachable listsU lists
      subst sameType
      exact parts c partOf part listsPart
    · rw [← cons_append, ← append_assoc] at split
      obtain ⟨rfl, -⟩ := append_inj' split rfl
      exact ordered.behind rfl reachableU listsU partOf listsPart

/-- What a visit does to the names: it adds some behind them, that of the visited type among them,
and keeps the order. -/
structure Visited (s : Store) (seen names : List String) (t : TypeRef) : Prop where
  grows : seen <+: names
  ordered : s.Ordered names
  named : ∀ name, s.Lists t name → name ∈ names

/-- Visiting parts one after the other names all of them. -/
theorem visit_parts {visit : List String → TypeRef → List String} {parts : List TypeRef}
    {seen : List String} (ordered : s.Ordered seen)
    (each : ∀ c ∈ parts, ∀ names, s.Ordered names → s.Visited names (visit names c) c) :
    seen <+: parts.foldl visit seen ∧ s.Ordered (parts.foldl visit seen) ∧
      ∀ c ∈ parts, ∀ name, s.Lists c name → name ∈ parts.foldl visit seen := by
  induction parts generalizing seen with
  | nil => exact ⟨prefix_rfl, ordered, by simp⟩
  | cons c parts ih =>
    have first := each c mem_cons_self seen ordered
    obtain ⟨grows, orderedAll, named⟩ :=
      ih first.ordered (fun d mem => each d (mem_cons_of_mem c mem))
    rw [foldl_cons]
    refine ⟨first.grows.trans grows, orderedAll, ?_⟩
    intro d mem name lists
    rcases mem_cons.mp mem with rfl | mem
    · exact grows.subset (first.named name lists)
    · exact named d mem name lists

/-- A type that a function leaves out is named already. -/
theorem visited_of_seen (ordered : s.Ordered names) (seen : s.unseen names t = false) :
    s.Visited names names t := by
  refine ⟨prefix_rfl, ordered, ?_⟩
  rintro name ⟨e, entry, listed, rfl⟩
  have notPrimitive : e.form.isPrimitive = false := by
    cases form : e.form <;> simp_all [Form.isListed, Form.isPrimitive]
  simpa [unseen, entry, notPrimitive] using seen

/-- A visit with enough depth for all that nests in the type. -/
theorem visited_namesWithin (unambiguous : s.Unambiguous) {depth : Nat} {seen : List String}
    (reachable : s.Reachable t) (nests : s.Nests depth t) (ordered : s.Ordered seen) :
    s.Visited seen (s.namesWithin depth seen t) t := by
  induction depth generalizing seen t with
  | zero =>
    refine ⟨prefix_rfl, ordered, ?_⟩
    rintro name ⟨e, entry, -⟩
    exact absurd entry (by simp [show s.entryOf t = none from nests])
  | succ depth ih =>
    by_cases unlisted : ∀ name, ¬ s.Lists t name
    · rw [namesWithin_unlisted (depth + 1) seen unlisted]
      exact ⟨prefix_rfl, ordered, fun name lists => absurd lists (unlisted name)⟩
    · simp only [not_forall, not_not] at unlisted
      obtain ⟨name, lists⟩ := unlisted
      obtain ⟨e, entry, listed, rfl⟩ := lists
      rw [namesWithin_listed depth seen entry listed]
      have each : ∀ c ∈ s.components t, ∀ names, s.Ordered names →
          s.Visited names (s.visitPart depth e.form names c) c := by
        intro c part names orderedNames
        have visit := (ih (reachable.part part) (nests c part) orderedNames)
        unfold visitPart
        split
        · split
          · exact visit
          · next seen => exact visited_of_seen orderedNames (by simpa using seen)
        · exact visit
      obtain ⟨grows, orderedParts, named⟩ := visit_parts ordered each
      refine ⟨grows.trans (prefix_append _ _), ?_, ?_⟩
      · exact orderedParts.snoc unambiguous reachable ⟨e, entry, listed, rfl⟩ named
      · intro name lists
        rw [lists.name_unique ⟨e, entry, listed, rfl⟩]
        exact mem_append_right _ (mem_singleton.mpr rfl)

/-! ## First occurrences -/

theorem firstOccurrences_snoc (names : List String) (name : String) :
    firstOccurrences (names ++ [name]) = if name ∈ firstOccurrences names
      then firstOccurrences names else firstOccurrences names ++ [name] := by
  simp [firstOccurrences]

theorem mem_firstOccurrences : name ∈ firstOccurrences names ↔ name ∈ names := by
  induction names using List.reverseRecOn with
  | nil => rfl
  | append_singleton names last ih =>
    rw [firstOccurrences_snoc]
    by_cases present : last ∈ firstOccurrences names
    · rw [if_pos present, ih, mem_append, mem_singleton]
      constructor
      · exact Or.inl
      · rintro (mem | rfl)
        · exact mem
        · exact ih.mp present
    · rw [if_neg present, mem_append, mem_append, ih]

theorem nodup_firstOccurrences (names : List String) : (firstOccurrences names).Nodup := by
  induction names using List.reverseRecOn with
  | nil => exact nodup_nil
  | append_singleton names last ih =>
    rw [firstOccurrences_snoc]
    by_cases present : last ∈ firstOccurrences names
    · rw [if_pos present]
      exact ih
    · rw [if_neg present]
      refine nodup_append.mpr ⟨ih, by simp, ?_⟩
      intro a mem b single equal
      rw [mem_singleton] at single
      exact present (single ▸ equal ▸ mem)

theorem Ordered.init {last : String} (ordered : s.Ordered (names ++ [last])) : s.Ordered names := by
  refine ⟨fun name mem => ordered.needed name (mem_append_left _ mem), ?_⟩
  intro front back name split t c part reachable lists partOf listsPart
  have whole : names ++ [last] = front ++ name :: (back ++ [last]) := by
    rw [split, append_assoc, cons_append]
  exact ordered.behind whole reachable lists partOf listsPart

/-- What comes before a name comes before its first occurrence. -/
theorem Ordered.firstOccurrences (ordered : s.Ordered names) (unambiguous : s.Unambiguous) :
    s.Ordered (firstOccurrences names) := by
  induction names using List.reverseRecOn with
  | nil => exact ordered
  | append_singleton names last ih =>
    rw [firstOccurrences_snoc]
    by_cases present : last ∈ Store.firstOccurrences names
    · rw [if_pos present]
      exact ih ordered.init
    · rw [if_neg present]
      obtain ⟨t, reachable, lists⟩ := ordered.needed last (by simp)
      refine (ih ordered.init).snoc unambiguous reachable lists ?_
      intro c partOf part listsPart
      exact mem_firstOccurrences.mpr (ordered.behind rfl reachable lists partOf listsPart)

/-! ## The order -/

/-- The order of names before repetitions are taken out. -/
theorem visited_roots (acyclic : s.Acyclic) (unambiguous : s.Unambiguous) :
    s.Ordered (s.roots.foldl s.namesFrom []) ∧
      ∀ t ∈ s.roots, ∀ name, s.Lists t name → name ∈ s.roots.foldl s.namesFrom [] := by
  have each : ∀ t ∈ s.roots, ∀ names, s.Ordered names →
      s.Visited names (s.namesFrom names t) t := by
    intro t mem names ordered
    have reachable : s.Reachable t := .root mem
    exact visited_namesWithin unambiguous reachable (nests_of_acyclic acyclic reachable) ordered
  exact (visit_parts Ordered.nil each).2

theorem ordered_dependencyOrder (acyclic : s.Acyclic) (unambiguous : s.Unambiguous) :
    s.Ordered s.dependencyOrder :=
  (visited_roots acyclic unambiguous).1.firstOccurrences unambiguous

/-- The order names all listed types that are needed. -/
theorem mem_dependencyOrder (acyclic : s.Acyclic) (unambiguous : s.Unambiguous)
    (reachable : s.Reachable t) (lists : s.Lists t name) : name ∈ s.dependencyOrder := by
  obtain ⟨ordered, named⟩ := visited_roots acyclic unambiguous
  refine mem_firstOccurrences.mpr ?_
  induction reachable generalizing name with
  | root mem => exact named _ mem name lists
  | part reachable partOf ih =>
    obtain ⟨whole, listsWhole⟩ := exists_lists_of_partOf partOf
    exact ordered.part_mem (ih listsWhole) reachable listsWhole partOf lists

theorem Ordered.idxOf_lt (ordered : s.Ordered names) (nodup : names.Nodup) {c : TypeRef}
    {part : String} (mem : name ∈ names) (reachable : s.Reachable t) (lists : s.Lists t name)
    (partOf : s.PartOf c t) (listsPart : s.Lists c part) : names.idxOf part < names.idxOf name := by
  obtain ⟨front, back, rfl⟩ := append_of_mem mem
  have before := ordered.behind rfl reachable lists partOf listsPart
  have notBefore : name ∉ front := by
    intro again
    exact (nodup_append.mp nodup).2.2 name again name mem_cons_self rfl
  rw [idxOf_append_of_mem before, idxOf_append_of_notMem notBefore]
  have := idxOf_lt_length_of_mem before
  omega

/-- The dependency order names every listed type that is needed exactly once, behind all listed
types that it is made of. -/
theorem dependencyOrder_topological (s : Store) (acyclic : s.Acyclic)
    (unambiguous : s.Unambiguous) :
    s.dependencyOrder.Nodup ∧
      (∀ name, name ∈ s.dependencyOrder ↔ ∃ t, s.Reachable t ∧ s.Lists t name) ∧
      ∀ t c name part, s.Reachable t → s.Lists t name → s.PartOf c t → s.Lists c part →
        s.dependencyOrder.idxOf part < s.dependencyOrder.idxOf name := by
  have ordered := ordered_dependencyOrder acyclic unambiguous
  have nodup : s.dependencyOrder.Nodup := nodup_firstOccurrences _
  refine ⟨nodup, ?_, ?_⟩
  · intro name
    constructor
    · exact ordered.needed name
    · rintro ⟨t, reachable, lists⟩
      exact mem_dependencyOrder acyclic unambiguous reachable lists
  · intro t c name part reachable lists partOf listsPart
    have mem := mem_dependencyOrder acyclic unambiguous reachable lists
    exact ordered.idxOf_lt nodup mem reachable lists partOf listsPart

/-- Names mean one type each if no two listed types of the store share theirs. -/
theorem unambiguous_of_pairwise (different : s.entries.Pairwise fun e e' =>
      e.form.isListed = true → e'.form.isListed = true → e.shownName ≠ e'.shownName) :
    s.Unambiguous := by
  have apart : ∀ {m n : Nat} {e e' : Entry}, m < n → s.entries[m]? = some e →
      s.entries[n]? = some e' → e.form.isListed = true → e'.form.isListed = true →
      e.shownName ≠ e'.shownName := by
    intro m n e e' less entry entry'
    obtain ⟨bound, rfl⟩ := List.getElem?_eq_some_iff.mp entry
    obtain ⟨bound', rfl⟩ := List.getElem?_eq_some_iff.mp entry'
    exact pairwise_iff_getElem.mp different m n bound bound' less
  rintro t u name - - ⟨e, entry, listed, rfl⟩ ⟨e', entry', listed', same⟩
  obtain ⟨m, rfl, -⟩ := entryOf_eq_some entry
  obtain ⟨n, rfl, -⟩ := entryOf_eq_some entry'
  rcases Nat.lt_trichotomy m n with less | rfl | less
  · exact absurd same.symm (apart less entry entry' listed listed')
  · rfl
  · exact absurd same (apart less entry' entry listed' listed)

/-- A packet with a field of a type that its array field shares. -/
theorem dependencyOrder_topological_shared :
    let always : Expr := .const .boolean (.flag true)
    let s : Store :=
      { entries :=
          [{ form := .number, name := none, group := 0 },
           { form := .boolean, name := none, group := 1 },
           { form := .nothing, name := none, group := 2 },
           { form := .protocol, name := some "Protocol", group := 3 },
           { form := .context, name := some "Context", group := 4 },
           { form := .bitString, name := some "Octet", group := 5 },
           { form := .array (.id 5) none, name := some "Octets", group := 6 },
           { form := .struct, name := some "Packet", group := 7 }]
        groups :=
          [{}, {}, {}, {}, { slots := [("data_size", .id 0)] }, {}, {},
           { fields := [⟨"tail", .id 6, always⟩, ⟨"check", .id 5, always⟩] }]
        types := [("Context", .id 4), ("Octet", .id 5), ("Octets", .id 6), ("Packet", .id 7)]
        pdus := ["Packet"] }
    s.Acyclic ∧ s.Unambiguous ∧
      s.dependencyOrder = ["Octet", "Octets", "Packet", "Context"] ∧
      s.dependencyOrder.idxOf "Octet" < s.dependencyOrder.idxOf "Packet" := by
  intro always s
  let places := (List.range 8).map TypeRef.id
  have smaller : ∀ n < 8, ∀ c ∈ s.components (.id n),
      places.idxOf c < places.idxOf (.id n) := by decide
  have acyclic : s.Acyclic := by
    refine acyclic_of_rank (fun t => places.idxOf t) ?_
    intro t c _ part
    obtain ⟨name, e, entry, -⟩ := exists_lists_of_partOf part
    obtain ⟨n, rfl, bound⟩ := entryOf_eq_some entry
    exact smaller n bound c part
  have different : s.entries.Pairwise fun e e' =>
      e.form.isListed = true → e'.form.isListed = true → e.shownName ≠ e'.shownName := by decide
  have unambiguous : s.Unambiguous := unambiguous_of_pairwise different
  refine ⟨acyclic, unambiguous, by decide, ?_⟩
  have packet : s.Reachable (.id 7) := .root (by decide)
  exact (dependencyOrder_topological s acyclic unambiguous).2.2 (.id 7) (.id 5) "Packet" "Octet"
    packet ⟨_, rfl, rfl, rfl⟩ (by unfold PartOf; decide) ⟨_, rfl, rfl, rfl⟩

end PacketDraft.Protocol.Store
