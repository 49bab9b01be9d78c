import Mathlib.Data.List.Nodup
import PacketDraft.Markup.Reading
import PacketDraft.Proofs.Sequence

/-!
# Reading the children of an element

The children of an element are read one by one, each on its own. Of the children that are read, those
of some kinds give the elements that the nodes with these names are read as, in their order.
-/

namespace PacketDraft.Markup

open Document List

variable {kinds some_ : List Kind} {kind : Kind} {n : Node} {ns : List Node} {c : Child}
  {cs : List Child} {e : Element}

/-! ## Names -/

/-- Where no two kinds have one name, a kind is found by its name. -/
theorem kindAmong?_eq_some_iff (names : (kinds.map tagName).Nodup) {name : Option String} :
    kindAmong? kinds name = some kind ↔ kind ∈ kinds ∧ name = some (tagName kind) := by
  constructor
  · intro found
    exact ⟨mem_of_find?_eq_some found, by simpa using List.find?_some found⟩
  · rintro ⟨mem, rfl⟩
    cases found : kindAmong? kinds (some (tagName kind)) with
    | none => simpa using List.find?_eq_none.mp found kind mem
    | some other =>
      have named : tagName kind = tagName other := by simpa using List.find?_some found
      rw [inj_on_of_nodup_map names mem (mem_of_find?_eq_some found) named]

/-- Looking among some of the kinds only. -/
theorem kindAmong?_sublist (names : (kinds.map tagName).Nodup) (sub : some_.Sublist kinds)
    (name : Option String) :
    kindAmong? some_ name = (kindAmong? kinds name).filter fun kind => some_.contains kind := by
  have fewer : (some_.map tagName).Nodup := names.sublist (sub.map tagName)
  ext kind
  rw [Option.filter_eq_some_iff, kindAmong?_eq_some_iff names, kindAmong?_eq_some_iff fewer,
    contains_iff_mem]
  constructor
  · intro here
    exact ⟨⟨sub.subset here.1, here.2⟩, here.1⟩
  · intro here
    exact ⟨here.2, here.1.2⟩

/-! ## Children one by one -/

/-- A child with the element it is read as, if its kind belongs there. -/
def readChild (kinds : List Kind) (n : Node) : Except Fault Child :=
  match kindAmong? kinds n.name with
  | some kind => do
    let e ← read kind n
    return ⟨n.tag, some (kind, e)⟩
  | none => .ok ⟨n.tag, none⟩

theorem readChildren_length (kinds : List Kind) (ns : List Node) :
    readChildren kinds ns.length ns = ns.mapM (readChild kinds) := by
  induction ns with
  | nil => rfl
  | cons n ns ih =>
    rw [length_cons, readChildren, ih, mapM_cons, readChild]
    cases kindAmong? kinds n.name with
    | none => rfl
    | some kind =>
      dsimp only
      cases read kind n <;> rfl

theorem readChild_known (known : kindAmong? kinds n.name = some kind) :
    readChild kinds n = .ok c ↔ ∃ e, read kind n = .ok e ∧ c = ⟨n.tag, some (kind, e)⟩ := by
  rw [readChild, known]
  dsimp only
  cases read kind n with
  | error fault => simp [bind, Except.bind]
  | ok e => simp [bind, Except.bind, pure, Except.pure, eq_comm]

theorem readChild_other (other : kindAmong? kinds n.name = none) :
    readChild kinds n = .ok ⟨n.tag, none⟩ := by
  rw [readChild, other]

theorem readChild_tag (own : readChild kinds n = .ok c) : c.tag = n.tag := by
  cases known : kindAmong? kinds n.name with
  | none =>
    rw [readChild_other known] at own
    cases own
    rfl
  | some kind =>
    obtain ⟨e, -, rfl⟩ := (readChild_known known).mp own
    rfl

theorem map_tag (inside : ns.mapM (readChild kinds) = .ok cs) :
    cs.map (·.tag) = ns.map Node.tag := by
  rw [← forall₂_eq_eq_eq, forall₂_map_left_iff, forall₂_map_right_iff]
  exact (mapM_eq_ok_iff.mp inside).flip.imp fun _ _ own => readChild_tag own

theorem forall_tag_iff (inside : ns.mapM (readChild kinds) = .ok cs) {p : Tag → Prop} :
    (∀ c ∈ cs, p c.tag) ↔ ∀ n ∈ ns, p n.tag := by
  rw [← forall_mem_map (f := Child.tag), map_tag inside, forall_mem_map]

theorem getLast?_tag (inside : ns.mapM (readChild kinds) = .ok cs) :
    cs.getLast?.map (·.tag) = ns.getLast?.map Node.tag := by
  rw [← List.getLast?_map, ← List.getLast?_map, map_tag inside]

/-! ## Children of some kinds -/

theorem ofKinds?_known (tag : Tag) (kind : Kind) (e : Element) :
    Child.ofKinds? some_ ⟨tag, some (kind, e)⟩ = if some_.contains kind then some e else none :=
  rfl

/-- The children with the names of some kinds. -/
def childrenNamed (kinds : List Kind) (ns : List Node) : List (Kind × Node) :=
  ns.filterMap fun n => (kindAmong? kinds n.name).map fun kind => (kind, n)

/-- What the children with the names of some kinds are read as, one after the other. -/
def readings (kinds : List Kind) (ns : List Node) : Except Fault (List Element) :=
  (childrenNamed kinds ns).mapM fun p => read p.1 p.2

theorem mem_childrenNamed {p : Kind × Node} :
    p ∈ childrenNamed kinds ns ↔ p.2 ∈ ns ∧ kindAmong? kinds p.2.name = some p.1 := by
  simp only [childrenNamed, mem_filterMap, Option.map_eq_some_iff]
  constructor
  · rintro ⟨n, mem, kind, known, rfl⟩
    exact ⟨mem, known⟩
  · intro both
    exact ⟨p.2, both.1, p.1, both.2, rfl⟩

/-- Children can be read if those with a name that belongs there can. -/
theorem exists_mapM_readChild :
    (∃ cs, ns.mapM (readChild kinds) = .ok cs) ↔
      ∀ p ∈ childrenNamed kinds ns, ∃ e, read p.1 p.2 = .ok e := by
  constructor
  · rintro ⟨cs, inside⟩ p named
    obtain ⟨mem, known⟩ := mem_childrenNamed.mp named
    obtain ⟨c, made⟩ := exists_ok_of_mem inside mem
    obtain ⟨e, own, -⟩ := (readChild_known known).mp made
    exact ⟨e, own⟩
  · intro each
    apply exists_mapM
    intro n mem
    cases known : kindAmong? kinds n.name with
    | none => exact ⟨_, readChild_other known⟩
    | some kind =>
      obtain ⟨e, own⟩ := each (kind, n) (mem_childrenNamed.mpr ⟨mem, known⟩)
      exact ⟨_, (readChild_known known).mpr ⟨e, own, rfl⟩⟩

/-- The elements of some kinds among the children are what the nodes with their names are read as. -/
theorem readings_eq (names : (kinds.map tagName).Nodup) (sub : some_.Sublist kinds)
    (inside : ns.mapM (readChild kinds) = .ok cs) :
    readings some_ ns = .ok (childrenOf some_ cs) := by
  have related := mapM_eq_ok_iff.mp inside
  rw [readings, mapM_eq_ok_iff]
  clear inside
  induction related with
  | nil => exact .nil
  | @cons n c ns cs own _ ih =>
    have among := kindAmong?_sublist names sub n.name
    rw [childrenNamed, childrenOf, filterMap_cons, filterMap_cons, among]
    cases known : kindAmong? kinds n.name with
    | none =>
      rw [readChild_other known] at own
      cases own
      exact ih
    | some kind =>
      obtain ⟨e, read, rfl⟩ := (readChild_known known).mp own
      rw [ofKinds?_known, Option.filter_some]
      by_cases belongs : some_.contains kind = true
      · rw [if_pos belongs, if_pos belongs]
        exact .cons read ih
      · rw [if_neg belongs, if_neg belongs]
        exact ih

theorem childrenOf_eq_nil_iff (names : (kinds.map tagName).Nodup) (sub : some_.Sublist kinds)
    (inside : ns.mapM (readChild kinds) = .ok cs) :
    childrenOf some_ cs = [] ↔ childrenNamed some_ ns = [] := by
  have length := (mapM_eq_ok_iff.mp (readings_eq names sub inside)).length_eq
  rw [← length_eq_zero_iff, ← length, length_eq_zero_iff]

/-! ## Kinds -/

/-- What is read as a kind has this kind. -/
theorem isKind_of_read (own : read kind n = .ok e) : e.isKind kind = true := by
  obtain ⟨tag, children⟩ := n
  rw [read] at own
  obtain ⟨cs, -, own⟩ := exceptBind_eq_ok.mp own
  obtain ⟨parts, -, own⟩ := exceptBind_eq_ok.mp own
  obtain ⟨settings, -, own⟩ := exceptBind_eq_ok.mp own
  cases own
  simp [Element.ofKind, Element.isKind]

theorem exists_isKind_of_mem_childrenOf (inside : ns.mapM (readChild kinds) = .ok cs)
    (mem : e ∈ childrenOf some_ cs) : ∃ kind ∈ some_, e.isKind kind = true := by
  obtain ⟨c, child, own⟩ := mem_filterMap.mp mem
  obtain ⟨n, -, made⟩ := exists_of_mem_mapM inside child
  cases known : kindAmong? kinds n.name with
  | none =>
    rw [readChild_other known] at made
    cases made
    cases own
  | some kind =>
    obtain ⟨e', read, rfl⟩ := (readChild_known known).mp made
    rw [ofKinds?_known, Option.ite_none_right_eq_some] at own
    obtain ⟨belongs, same⟩ := own
    cases same
    exact ⟨kind, contains_iff_mem.mp belongs, isKind_of_read read⟩

/-! ## Settings -/

/-- Whether a setting has to be there. -/
def isRequired : Source → Bool
  | .required _ => true
  | _ => false

theorem exists_readSetting {source : Source} (free : isRequired source = false)
    (attributes : List (String × String)) :
    ∃ setting, readSetting attributes source = .ok setting := by
  cases source with
  | optional key => cases found : attributes.lookup key <;> simp [readSetting, found]
  | withDefault key value => exact ⟨_, rfl⟩
  | isTrue key => exact ⟨_, rfl⟩
  | isNotFalse key => exact ⟨_, rfl⟩
  | required key => cases free

/-- A kind that can do without any of its settings is made of whatever parts there are. -/
theorem withSettings_of_free (free : ∀ p ∈ kind.settings, isRequired p.2 = false) (tag : Tag)
    (parts : List (Document.Part Element)) :
    ∃ settings, withSettings kind tag parts = .ok (.ofKind kind parts settings) := by
  obtain ⟨settings, known⟩ := exists_mapM fun p own =>
    exists_readSetting (free p own) tag.attributes
  refine ⟨settings, ?_⟩
  rw [withSettings, readSettings, exceptBind_eq_ok]
  exact ⟨settings, known, rfl⟩

end PacketDraft.Markup
