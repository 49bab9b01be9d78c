import PacketDraft.Proofs.Markup.Children

/-!
# Terms and their descriptions

The terms and descriptions of a list are read in their order, and other children do not count. A
description belongs to the term right before it, and is refused if there is none. But nothing asks
whether a term has a description: a term with another term behind it, or with nothing, is read and
then left out without notice. So everything pairs up just when there is no such term, or the list is
refused anyway.
-/

namespace PacketDraft.Markup

open Document List

/-! ## Rows of terms and descriptions -/

/-- The kinds of entries in a list of definitions. -/
def entryKinds : List Kind :=
  [.dt, .dd]

theorem mem_entryKinds {kind : Kind} : kind ∈ entryKinds ↔ kind = .dt ∨ kind = .dd := by
  simp [entryKinds]

/-- Some description has no term of its own: it comes first, or right behind a description. -/
def LacksTerm (row : List Kind) : Prop :=
  [.dd] <+: row ∨ [.dd, .dd] <:+: row

/-- Some term has no description of its own: it comes last, or right before a term. -/
def LacksDescription (row : List Kind) : Prop :=
  [.dt] <:+ row ∨ [.dt, .dt] <:+: row

section Kinds

variable {row : List Kind}

theorem not_lacksTerm_nil : ¬ LacksTerm [] := by
  simp [LacksTerm]

theorem not_lacksTerm_term : ¬ LacksTerm [.dt] := by
  simp [LacksTerm, infix_cons_iff]

theorem lacksTerm_description : LacksTerm (.dd :: row) :=
  .inl ⟨row, rfl⟩

theorem lacksTerm_terms : LacksTerm (.dt :: .dt :: row) ↔ LacksTerm (.dt :: row) := by
  simp [LacksTerm, infix_cons_iff]

theorem lacksTerm_pair : LacksTerm (.dt :: .dd :: row) ↔ LacksTerm row := by
  simp [LacksTerm, infix_cons_iff]

theorem lacksDescription_term : LacksDescription [.dt] :=
  .inl (suffix_refl _)

theorem lacksDescription_terms : LacksDescription (.dt :: .dt :: row) :=
  .inr ⟨[], row, rfl⟩

theorem lacksDescription_pair : LacksDescription (.dt :: .dd :: row) ↔ LacksDescription row := by
  simp [LacksDescription, infix_cons_iff, suffix_cons_iff]

end Kinds

section Rows

variable {α β : Type} {row : List (Kind × α)} {pairs : List (α × α)} {t d : α}

/-- Pairs as a row in which terms and descriptions take turns. -/
def alternating (pairs : List (α × α)) : List (Kind × α) :=
  pairs.flatMap fun p => [(.dt, p.1), (.dd, p.2)]

/-- The descriptions right behind a term, each with this term. -/
def described (row : List (Kind × α)) : List (α × α) :=
  (row.zip row.tail).filterMap fun p =>
    if p.1.1 = .dt ∧ p.2.1 = .dd then some (p.1.2, p.2.2) else none

theorem alternating_cons (p : α × α) (pairs : List (α × α)) :
    alternating (p :: pairs) = (.dt, p.1) :: (.dd, p.2) :: alternating pairs := rfl

theorem described_cons_cons (p q : Kind × α) (row : List (Kind × α)) :
    described (p :: q :: row) =
      if p.1 = .dt ∧ q.1 = .dd then (p.2, q.2) :: described (q :: row) else described (q :: row) := by
  by_cases pair : p.1 = .dt ∧ q.1 = .dd <;> simp [described, pair]

theorem described_description : described ((.dd, d) :: row) = described row := by
  cases row with
  | nil => rfl
  | cons q row => simp [described_cons_cons]

theorem described_terms {t' : α} :
    described ((.dt, t) :: (.dt, t') :: row) = described ((.dt, t') :: row) := by
  simp [described_cons_cons]

theorem described_pair : described ((.dt, t) :: (.dd, d) :: row) = (t, d) :: described row := by
  simp [described_cons_cons, described_description]

theorem described_alternating (pairs : List (α × α)) : described (alternating pairs) = pairs := by
  induction pairs with
  | nil => rfl
  | cons p pairs ih => rw [alternating_cons, described_pair, ih]

theorem not_lacks_alternating (pairs : List (α × α)) :
    ¬ LacksTerm ((alternating pairs).map Prod.fst) ∧
      ¬ LacksDescription ((alternating pairs).map Prod.fst) := by
  induction pairs with
  | nil => simp [alternating, LacksTerm, LacksDescription]
  | cons p pairs ih => simpa [alternating_cons, lacksTerm_pair, lacksDescription_pair] using ih

/-- Where nothing lacks its counterpart, terms and descriptions take turns. -/
theorem alternating_described (row : List (Kind × α)) (entries : ∀ p ∈ row, p.1 ∈ entryKinds)
    (terms : ¬ LacksTerm (row.map Prod.fst)) (descriptions : ¬ LacksDescription (row.map Prod.fst)) :
    alternating (described row) = row := by
  match row with
  | [] => rfl
  | [(kind, a)] =>
    rcases mem_entryKinds.mp (entries _ mem_cons_self) with rfl | rfl
    · exact absurd lacksDescription_term descriptions
    · exact absurd lacksTerm_description terms
  | (kind, a) :: (kind', b) :: row =>
    rw [forall_mem_cons, forall_mem_cons] at entries
    obtain ⟨first, second, rest⟩ := entries
    rcases mem_entryKinds.mp first with rfl | rfl
    · rcases mem_entryKinds.mp second with rfl | rfl
      · exact absurd lacksDescription_terms descriptions
      · have terms := mt lacksTerm_pair.mpr terms
        have descriptions := mt lacksDescription_pair.mpr descriptions
        rw [described_pair, alternating_cons, alternating_described row rest terms descriptions]
    · exact absurd lacksTerm_description terms

/-- Rows that agree entry by entry have the same pairs. -/
theorem forall₂_described {R : Kind → α → β → Prop} {row' : List (Kind × β)}
    (related : List.Forall₂ (fun p q => p.1 = q.1 ∧ R p.1 p.2 q.2) row row') :
    List.Forall₂ (fun p q => R .dt p.1 q.1 ∧ R .dd p.2 q.2) (described row) (described row') := by
  induction related with
  | nil => exact .nil
  | cons first rest ih =>
    cases rest with
    | nil => exact .nil
    | cons second rest =>
      rw [described_cons_cons, described_cons_cons, ← first.1, ← second.1]
      split
      · next pair =>
        rw [pair.1] at first
        rw [pair.2] at second
        exact .cons ⟨first.2, second.2⟩ ih
      · exact ih

end Rows

/-! ## Children in turn -/

section Children

variable {n : Node} {ns : List Node} {cs : List Child} {e : Element}

/-- The terms and descriptions among the children of an element. -/
def entriesOf (n : Node) : List (Kind × Node) :=
  childrenNamed entryKinds n.children

/-- The kinds of the entries, in their order. -/
def rowOf (n : Node) : List Kind :=
  (entriesOf n).map Prod.fst

/-- Some entry is refused itself. -/
def EntryRefused (n : Node) : Prop :=
  ∃ p ∈ entriesOf n, ∃ fault, read p.1 p.2 = .error fault

theorem childrenNamed_cons (kinds : List Kind) (n : Node) (ns : List Node) :
    childrenNamed kinds (n :: ns)
      = ((kindAmong? kinds n.name).map fun kind => (kind, n)).toList ++ childrenNamed kinds ns := by
  rw [childrenNamed, filterMap_cons]
  cases kindAmong? kinds n.name <;> rfl

theorem kindAmong?_entryKinds (n : Node) :
    kindAmong? entryKinds n.name
      = if isElement .dt n then some .dt else if isElement .dd n then some .dd else none := by
  by_cases term : isElement .dt n = true <;> by_cases description : isElement .dd n = true <;>
    simp_all [kindAmong?, entryKinds, isElement]

/-- The children up to a description without a term are all children just if there is no such
description. -/
theorem pairedLength_eq_length_iff (waits : Bool) (ns : List Node) :
    pairedLength waits ns = ns.length ↔
      ¬ LacksTerm ((if waits then [.dt] else []) ++ (childrenNamed entryKinds ns).map Prod.fst) := by
  induction ns generalizing waits with
  | nil => cases waits <;> simp [pairedLength, childrenNamed, not_lacksTerm_nil, not_lacksTerm_term]
  | cons n ns ih =>
    rw [pairedLength, childrenNamed_cons, kindAmong?_entryKinds]
    by_cases term : isElement .dt n = true
    · cases waits <;> simp [term, ih, lacksTerm_terms]
    · by_cases description : isElement .dd n = true
      · cases waits <;> simp [term, description, ih, lacksTerm_pair, lacksTerm_description]
      · cases waits <;> simp [term, description, ih]

/-- The entries among the children that were read. -/
def entriesRead (cs : List Child) : List (Kind × Element) :=
  cs.filterMap (·.read?)

theorem mem_entryKinds_of_mem_rowOf {kind : Kind} (mem : kind ∈ rowOf n) : kind ∈ entryKinds := by
  obtain ⟨p, named, rfl⟩ := mem_map.mp mem
  exact ((kindAmong?_eq_some_iff (by decide)).mp (mem_childrenNamed.mp named).2).1

/-- What is read are the entries. -/
theorem forall₂_entriesRead (inside : ns.mapM (readChild entryKinds) = .ok cs) :
    List.Forall₂ (fun p q => p.1 = q.1 ∧ read p.1 p.2 = .ok q.2) (childrenNamed entryKinds ns)
      (entriesRead cs) := by
  have related := mapM_eq_ok_iff.mp inside
  clear inside
  induction related with
  | nil => exact .nil
  | @cons n c ns cs own _ ih =>
    rw [childrenNamed_cons]
    cases known : kindAmong? entryKinds n.name with
    | none =>
      rw [readChild_other known] at own
      cases own
      exact ih
    | some kind =>
      obtain ⟨e, made, rfl⟩ := (readChild_known known).mp own
      exact .cons ⟨rfl, made⟩ ih

theorem map_fst_entriesRead (inside : n.children.mapM (readChild entryKinds) = .ok cs) :
    (entriesRead cs).map Prod.fst = rowOf n := by
  rw [← forall₂_eq_eq_eq, rowOf, forall₂_map_left_iff, forall₂_map_right_iff]
  exact (forall₂_entriesRead inside).flip.imp fun _ _ own => own.1.symm

theorem pairsFrom_term (term : Option Element) (tag : Tag) (e : Element) (cs : List Child) :
    pairsFrom term (⟨tag, some (.dt, e)⟩ :: cs) = pairsFrom (some e) cs := by
  cases term <;> rfl

theorem pairsFrom_description (t : Element) (tag : Tag) (e : Element) (cs : List Child) :
    pairsFrom (some t) (⟨tag, some (.dd, e)⟩ :: cs)
      = pairsFrom none cs >>= fun rest => .ok ((t, e) :: rest) := rfl

/-- Where each description has a term, the pairs are those that touch. -/
theorem pairsFrom_eq (term : Option Element) (entries : ∀ p ∈ entriesRead cs, p.1 ∈ entryKinds)
    (terms : ¬ LacksTerm ((term.map fun _ => Kind.dt).toList ++ (entriesRead cs).map Prod.fst)) :
    pairsFrom term cs
      = .ok (described ((term.map fun t => (Kind.dt, t)).toList ++ entriesRead cs)) := by
  induction cs generalizing term with
  | nil => cases term <;> rfl
  | cons c cs ih =>
    obtain ⟨tag, _ | ⟨kind, e⟩⟩ := c
    · exact ih term entries terms
    · have rest : ∀ p ∈ entriesRead cs, p.1 ∈ entryKinds :=
        fun p mem => entries p (mem_cons_of_mem _ mem)
      rcases mem_entryKinds.mp (entries (kind, e) mem_cons_self) with rfl | rfl
      · have terms : ¬ LacksTerm (.dt :: (entriesRead cs).map Prod.fst) := by
          cases term with
          | none => exact terms
          | some t => exact mt lacksTerm_terms.mpr terms
        rw [pairsFrom_term, ih (some e) rest terms]
        cases term with
        | none => rfl
        | some t => exact congrArg Except.ok described_terms.symm
      · cases term with
        | none => exact absurd lacksTerm_description terms
        | some t =>
          rw [pairsFrom_description, ih none rest (mt lacksTerm_pair.mpr terms)]
          exact congrArg Except.ok described_pair.symm

/-! ## Reading a list -/

/-- A term and its description. -/
def readPair (p : Node × Node) : Except Fault (Element × Element) := do
  let term ← read .dt p.1
  let description ← read .dd p.2
  return (term, description)

theorem readPair_eq_ok_iff {p : Node × Node} {q : Element × Element} :
    readPair p = .ok q ↔ read .dt p.1 = .ok q.1 ∧ read .dd p.2 = .ok q.2 := by
  simp only [readPair, exceptBind_eq_ok]
  constructor
  · rintro ⟨t, term, d, description, same⟩
    cases same
    exact ⟨term, description⟩
  · intro both
    exact ⟨_, both.1, _, both.2, rfl⟩

theorem not_entryRefused_iff :
    ¬ EntryRefused n ↔ ∃ cs, n.children.mapM (readChild entryKinds) = .ok cs := by
  rw [exists_mapM_readChild, EntryRefused]
  push Not
  refine forall₂_congr fun p _ => ?_
  cases read p.1 p.2 <;> simp

theorem read_dl (n : Node) :
    read .dl n = (do
      let cs ← readChildren entryKinds (pairedLength false n.children) n.children
      let pairs ← pairsFrom none cs
      if pairedLength false n.children = n.children.length then withSettings .dl n.tag [.pairs pairs]
      else .error .requirement) := by
  obtain ⟨tag, children⟩ := n
  rw [read]
  apply bind_congr
  intro cs
  simp only [shape, readParts, Node.children, Node.tag]
  cases pairsFrom none cs with
  | error fault => rfl
  | ok pairs =>
    by_cases complete : pairedLength false children = children.length
    · simp [complete, bind, Except.bind, pure, Except.pure]
    · simp [complete, bind, Except.bind, throw, throwThe, MonadExceptOf.throw]

/-- A list with a description that has no term is refused. -/
theorem read_dl_of_lacksTerm (lacks : LacksTerm (rowOf n)) : ∃ fault, read .dl n = .error fault := by
  have short : pairedLength false n.children ≠ n.children.length := by
    intro complete
    exact (pairedLength_eq_length_iff false n.children).mp complete lacks
  rw [read_dl]
  cases readChildren entryKinds (pairedLength false n.children) n.children with
  | error fault => exact ⟨fault, rfl⟩
  | ok cs =>
    show ∃ fault, pairsFrom none cs >>= _ = _
    cases pairsFrom none cs with
    | error fault => exact ⟨fault, rfl⟩
    | ok pairs => exact ⟨.requirement, if_neg short⟩

/-- Where each description has a term, all entries are read and the pairs are those that touch. -/
theorem read_dl_of_not_lacksTerm (terms : ¬ LacksTerm (rowOf n)) :
    read .dl n = (do
      let cs ← n.children.mapM (readChild entryKinds)
      withSettings .dl n.tag [.pairs (described (entriesRead cs))]) := by
  have complete := (pairedLength_eq_length_iff false n.children).mpr terms
  rw [read_dl, complete, readChildren_length]
  cases inside : n.children.mapM (readChild entryKinds) with
  | error fault => rfl
  | ok cs =>
    have kinds := map_fst_entriesRead inside
    have entries : ∀ p ∈ entriesRead cs, p.1 ∈ entryKinds := by
      intro p mem
      apply mem_entryKinds_of_mem_rowOf
      rw [← kinds]
      exact mem_map_of_mem mem
    have paired := pairsFrom_eq none entries (kinds ▸ terms)
    show pairsFrom none cs >>= _ = _
    rw [paired]
    exact if_pos rfl

/-- A list is read just when all entries can be, and each description has a term. -/
theorem exists_read_dl_iff :
    (∃ e, read .dl n = .ok e) ↔ ¬ EntryRefused n ∧ ¬ LacksTerm (rowOf n) := by
  by_cases lacks : LacksTerm (rowOf n)
  · obtain ⟨fault, refused⟩ := read_dl_of_lacksTerm lacks
    simp [refused, lacks]
  · rw [read_dl_of_not_lacksTerm lacks, not_entryRefused_iff]
    constructor
    · rintro ⟨e, own⟩
      obtain ⟨cs, inside, -⟩ := exceptBind_eq_ok.mp own
      exact ⟨⟨cs, inside⟩, lacks⟩
    · rintro ⟨⟨cs, inside⟩, -⟩
      have free : ∀ p ∈ Kind.settings .dl, isRequired p.2 = false := by decide
      obtain ⟨settings, made⟩ :=
        withSettings_of_free free n.tag [.pairs (described (entriesRead cs))]
      exact ⟨_, exceptBind_eq_ok.mpr ⟨cs, inside, made⟩⟩

/-- A list that is read holds the descriptions that stand right behind a term, each with this
term. -/
theorem pairs_of_read_dl (own : read .dl n = .ok e) :
    ∃ items, (described (entriesOf n)).mapM readPair = .ok items ∧
      e.part? "content" = some (.pairs items) := by
  have fine := exists_read_dl_iff.mp ⟨e, own⟩
  rw [read_dl_of_not_lacksTerm fine.2] at own
  obtain ⟨cs, inside, made⟩ := exceptBind_eq_ok.mp own
  obtain ⟨settings, -, made⟩ := exceptBind_eq_ok.mp made
  cases made
  refine ⟨described (entriesRead cs), ?_, rfl⟩
  rw [mapM_eq_ok_iff]
  apply (forall₂_described (R := fun kind n e => read kind n = .ok e)
    (forall₂_entriesRead inside)).imp
  intro p q both
  exact readPair_eq_ok_iff.mpr both

/-! ## Pairing up -/

/-- Terms and descriptions pair up: a list is read only if they take turns, and then it holds them
all, term by term with its description. -/
structure PairsUp (n : Node) : Prop where
  complete : ∀ e, read .dl n = .ok e → ∃ pairs items, entriesOf n = alternating pairs ∧
    pairs.mapM readPair = .ok items ∧ e.part? "content" = some (.pairs items)
  refused : (¬ ∃ pairs, entriesOf n = alternating pairs) → ∃ fault, read .dl n = .error fault
  accepted : ∀ pairs items, entriesOf n = alternating pairs → pairs.mapM readPair = .ok items →
    ∃ e, read .dl n = .ok e

theorem alternates_iff :
    (∃ pairs, entriesOf n = alternating pairs) ↔
      ¬ LacksTerm (rowOf n) ∧ ¬ LacksDescription (rowOf n) := by
  constructor
  · rintro ⟨pairs, turns⟩
    rw [rowOf, turns]
    exact not_lacks_alternating pairs
  · rintro ⟨terms, descriptions⟩
    have entries : ∀ p ∈ entriesOf n, p.1 ∈ entryKinds := by
      intro p mem
      exact mem_entryKinds_of_mem_rowOf (mem_map_of_mem mem)
    exact ⟨_, (alternating_described _ entries terms descriptions).symm⟩

theorem not_entryRefused_of_pairs {pairs : List (Node × Node)} {items : List (Element × Element)}
    (turns : entriesOf n = alternating pairs) (each : pairs.mapM readPair = .ok items) :
    ¬ EntryRefused n := by
  rintro ⟨p, mem, fault, fails⟩
  rw [turns] at mem
  obtain ⟨pair, listed, mem⟩ := mem_flatMap.mp mem
  obtain ⟨q, own⟩ := exists_ok_of_mem each listed
  have both := readPair_eq_ok_iff.mp own
  rcases mem_pair.mp mem with rfl | rfl
  · cases both.1.symm.trans fails
  · cases both.2.symm.trans fails

/-- A list of definitions is read just when every entry can be read and every description stands right
behind a term; it then holds these descriptions, each with this term. So terms and descriptions pair
up just when the list is refused or no term lacks a description. -/
theorem definitions_pair_up_iff (n : Node) :
    ((∃ e, read .dl n = .ok e) ↔ ¬ EntryRefused n ∧ ¬ LacksTerm (rowOf n)) ∧
    (∀ e, read .dl n = .ok e → ∃ items, (described (entriesOf n)).mapM readPair = .ok items ∧
      e.part? "content" = some (.pairs items)) ∧
    (PairsUp n ↔ EntryRefused n ∨ LacksTerm (rowOf n) ∨ ¬ LacksDescription (rowOf n)) := by
  refine ⟨exists_read_dl_iff, fun e own => pairs_of_read_dl own, ?_, ?_⟩
  · intro up
    by_contra! not
    obtain ⟨e, own⟩ := exists_read_dl_iff.mpr ⟨not.1, not.2.1⟩
    obtain ⟨pairs, -, turns, -⟩ := up.complete e own
    exact (alternates_iff.mp ⟨pairs, turns⟩).2 not.2.2
  · intro either
    have turns : (∃ e, read .dl n = .ok e) → ∃ pairs, entriesOf n = alternating pairs := by
      intro accepted
      have fine := exists_read_dl_iff.mp accepted
      exact alternates_iff.mpr ⟨fine.2, (either.resolve_left fine.1).resolve_left fine.2⟩
    constructor
    case complete =>
      intro e own
      obtain ⟨pairs, same⟩ := turns ⟨e, own⟩
      obtain ⟨items, each, held⟩ := pairs_of_read_dl own
      rw [same, described_alternating] at each
      exact ⟨pairs, items, same, each, held⟩
    case refused =>
      intro uneven
      cases own : read .dl n with
      | error fault => exact ⟨fault, rfl⟩
      | ok e => exact absurd (turns ⟨e, own⟩) uneven
    case accepted =>
      intro pairs items turns each
      apply exists_read_dl_iff.mpr
      exact ⟨not_entryRefused_of_pairs turns each, (alternates_iff.mp ⟨pairs, turns⟩).1⟩

/-- Two terms in a row, as for two fields that share a description. -/
def sharedDescription : Node :=
  .mk ⟨some "dl", [], none, none⟩
    [.mk ⟨some "dt", [], some "Type", none⟩ [], .mk ⟨some "dt", [], some "Length", none⟩ [],
      .mk ⟨some "dd", [], some "One octet.", none⟩ []]

/-- Not every list pairs up: the first of two terms in a row is left out. -/
theorem sharedDescription_loses_term : ¬ ∀ n, PairsUp n := by
  intro all
  obtain ⟨e, own⟩ : ∃ e, read .dl sharedDescription = .ok e := ⟨_, rfl⟩
  obtain ⟨pairs, -, turns, -⟩ := (all sharedDescription).complete e own
  have lacks : LacksDescription (rowOf sharedDescription) := .inr ⟨[], [.dd], rfl⟩
  exact (alternates_iff.mp ⟨pairs, turns⟩).2 lacks

end Children

end PacketDraft.Markup
