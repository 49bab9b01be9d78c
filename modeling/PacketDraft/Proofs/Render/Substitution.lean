import Mathlib.Data.List.Chain
import Mathlib.Data.List.Count
import PacketDraft.Proofs.Render.Placement
import PacketDraft.Proofs.Text.Occurrence

/-!
# References in the checks of constraints

The condition of a check comes from the text of a constraint without its references, by replacing the
names of the fields one after the other. This puts the values where the references were, if the names
stand nowhere else; but a field that is referred to again is replaced again.
-/

namespace PacketDraft.Render.Rust

open Protocol Text List

/-- The text of pieces, with what is written for each reference. -/
def written (write : List Char → List Char) : Piece → List Char
  | .char c => [c]
  | .ref name => write name

/-- The text with something written for each of its references. -/
def substituted (write : String → String) (text : String) : String :=
  String.ofList ((pieces text).flatMap (written fun name => (write (String.ofList name)).toList))

/-- Whether a piece ends with a character of a word when references are resolved. -/
def Piece.endsWord : Piece → Bool
  | .char c => isWordChar c
  | .ref _ => true

/-- No word is continued by a reference to a field. -/
def Apart (field : List Char) (ps : List Piece) : Prop :=
  ps.IsChain fun p q => q = .ref field → p.endsWord = false

/-! ## One name after the other -/

/-- The members of values, so many deep. -/
def members (depth : Nat) : List Char :=
  (List.replicate depth ['.', '0']).flatten

/-- What stands for a reference when the names `done` are replaced. -/
def stage (current : List Char) (done : List (List Char)) (name : List Char) : List Char :=
  if name = current then if name ∈ done then ['o', '.', '0'] else name
  else name ++ members (done.count name)

/-- A name whose occurrences can be told: a small letter, and at least one more character. -/
structure Telling (name : List Char) : Prop where
  word : ∀ c ∈ name, isWordChar c = true
  start : ∃ c d rest, name = c :: d :: rest ∧ c ≠ '0'

section Stages

variable {current name w : List Char} {done : List (List Char)} {ps rest : List Piece} {p : Piece}

theorem prefix_append_cases {xs ys zs : List Char} (start : xs <+: ys ++ zs) :
    xs <+: ys ∨ ∃ more, xs = ys ++ more ∧ more <+: zs := by
  rcases prefix_or_prefix_of_prefix start (prefix_append ys zs) with start' | ⟨more, rfl⟩
  · exact .inl start'
  · exact .inr ⟨more, rfl, (prefix_append_right_inj ys).mp start⟩

/-- A word cannot go beyond a dot. -/
theorem prefix_of_dot {xs ys : List Char} (word : ∀ c ∈ w, isWordChar c = true)
    (start : w <+: xs ++ '.' :: ys) : w <+: xs := by
  rcases prefix_append_cases start with inside | ⟨more, rfl, beyond⟩
  · exact inside
  · cases more with
    | nil => rw [append_nil]
    | cons c more =>
      obtain rfl := (cons_prefix_cons.mp beyond).1
      exact absurd (word '.' (by simp)) (by decide +kernel)

theorem stage_nil (current : List Char) : stage current [] = id := by
  funext name
  simp [stage, members]

theorem members_succ (depth : Nat) : members (depth + 1) = '.' :: '0' :: members depth := rfl

/-- A word that begins in a name ends in what follows the name without the members. -/
theorem prefix_past_members {xs ys zs : List Char} {depth : Nat}
    (word : ∀ c ∈ w, isWordChar c = true)
    (later : ∀ v, (∀ c ∈ v, isWordChar c = true) → v <+: ys → v <+: zs)
    (start : w <+: xs ++ (members depth ++ ys)) : w <+: xs ++ zs := by
  cases depth with
  | zero =>
    rcases prefix_append_cases start with inside | ⟨more, rfl, beyond⟩
    · exact inside.trans (prefix_append xs zs)
    · refine (prefix_append_right_inj xs).mpr (later more (fun c mem => word c ?_) beyond)
      exact mem_append_right xs mem
  | succ depth => exact (prefix_of_dot word start).trans (prefix_append xs zs)

/-- What continues a word in the text where some names are replaced, continues it in the text where
none is. -/
theorem prefix_of_stage (apart : Apart current (p :: ps)) (ends : p.endsWord = true)
    (word : ∀ c ∈ w, isWordChar c = true)
    (start : w <+: ps.flatMap (written (stage current done))) :
    w <+: ps.flatMap (written id) := by
  induction ps generalizing p w with
  | nil => exact start
  | cons q ps ih =>
    obtain ⟨first, apart⟩ := isChain_cons_cons.mp apart
    rw [flatMap_cons] at start ⊢
    cases q with
    | char c =>
      rcases w with _ | ⟨d, w⟩
      · exact nil_prefix
      · rw [written, singleton_append, cons_prefix_cons] at start ⊢
        rw [forall_mem_cons] at word
        obtain ⟨rfl, start⟩ := start
        exact ⟨rfl, ih apart word.1 word.2 start⟩
    | ref name =>
      have other : name ≠ current := by
        rintro rfl
        rw [first rfl] at ends
        cases ends
      rw [written, stage, if_neg other, append_assoc] at start
      exact prefix_past_members word (fun v word start => ih apart rfl word start) start

theorem Telling.ne_nil (telling : Telling name) : name ≠ [] := by
  obtain ⟨c, d, more, rfl, -⟩ := telling.start
  simp

/-- A name does not start in members. -/
theorem Telling.free_members (telling : Telling name) (depth : Nat) (ys : List Char) :
    Free name (members depth) ys := by
  obtain ⟨c, d, more, rfl, other⟩ := telling.start
  have dot : c ≠ '.' := by
    rintro rfl
    exact absurd (telling.word '.' (by simp)) (by decide +kernel)
  refine free_of_head fun e mem => ?_
  obtain ⟨m, own, mem⟩ := mem_flatten.mp mem
  obtain rfl := eq_of_mem_replicate own
  simp only [mem_cons, not_mem_nil, or_false] at mem
  rcases mem with rfl | rfl
  · exact dot.symm
  · exact other.symm

/-- A name does not start in the value that has just been parsed. -/
theorem Telling.free_value (telling : Telling name) (ys : List Char) :
    Free name ['o', '.', '0'] ys := by
  refine free_cons.mpr ⟨fun start => ?_, telling.free_members 1 ys⟩
  have inside : name <+: ['o'] := prefix_of_dot telling.word start
  obtain ⟨c, d, more, rfl, -⟩ := telling.start
  simp at inside

/-- A name that starts in no other piece of the text does so neither when some names are replaced. -/
theorem Telling.free_stage (telling : Telling name) (apart : Apart current (p :: rest))
    (other : p ≠ .ref name) (free : Free name (written id p) (rest.flatMap (written id))) :
    Free name (written (stage current done) p) (rest.flatMap (written (stage current done))) := by
  cases p with
  | char c =>
    obtain ⟨own, -⟩ := free_cons.mp free
    refine free_cons.mpr ⟨fun start => own ?_, free_nil⟩
    have word := telling.word
    obtain ⟨d, e, more, rfl, -⟩ := telling.start
    obtain ⟨rfl, later⟩ := cons_prefix_cons.mp start
    rw [forall_mem_cons] at word
    exact cons_prefix_cons.mpr ⟨rfl, prefix_of_stage apart word.1 word.2 later⟩
  | ref field =>
    have named : ∀ depth, Free name (field ++ members depth)
        (rest.flatMap (written (stage current done))) := by
      intro depth
      refine free_append.mpr ⟨fun x some suffix start => ?_, telling.free_members depth _⟩
      exact free x some suffix (prefix_past_members telling.word
        (fun v word start => prefix_of_stage apart rfl word start) start)
    rw [written, stage]
    split
    · split
      · exact telling.free_value _
      · have plain := named 0
        rwa [members, replicate_zero, flatten_nil, append_nil] at plain
    · exact named _

/-- Replacing one name more. -/
theorem Telling.replace_stage (telling : Telling name) (apart : Apart current ps)
    (free : ∀ p rest, p :: rest <:+ ps → p ≠ .ref name →
      Free name (written id p) (rest.flatMap (written id))) :
    replace name (if name = current then ['o', '.', '0'] else name ++ ['.', '0'])
        (ps.flatMap (written (stage current done)))
      = ps.flatMap (written (stage current (name :: done))) := by
  refine replace_flatMap telling.ne_nil fun p rest suffix => ?_
  by_cases own : p = .ref name
  · subst own
    by_cases value : name = current
    · by_cases before : name ∈ done
      · exact ⟨_, telling.free_value _, .inl ⟨by simp [written, stage, value, value ▸ before],
          by simp [written, stage, value]⟩⟩
      · exact ⟨[], free_nil, .inr ⟨by simp [written, stage, value, value ▸ before],
          by simp [written, stage, value]⟩⟩
    · exact ⟨_, telling.free_members (done.count name) _, .inr ⟨by simp [written, stage, value],
        by simp [written, stage, value, members_succ]⟩⟩
  · have kept : written (stage current (name :: done)) p = written (stage current done) p := by
      cases p with
      | char c => rfl
      | ref field =>
        have other : field ≠ name := fun same => own (same ▸ rfl)
        simp [written, stage, other, other.symm]
    exact ⟨_, telling.free_stage (apart.suffix suffix) own (free p rest suffix own),
      .inl ⟨rfl, kept⟩⟩

/-! ## Names that stand nowhere else -/

theorem count_le_occurrences (some : name ≠ []) :
    ps.count (.ref name) ≤ occurrences name (ps.flatMap (written id)) := by
  induction ps with
  | nil => exact Nat.le_refl 0
  | cons p ps ih =>
    rw [flatMap_cons]
    by_cases own : p = .ref name
    · subst own
      rw [count_cons_self]
      exact (Nat.add_le_add_right ih 1).trans (occurrences_part_append some)
    · rw [count_cons_of_ne own]
      exact ih.trans occurrences_le_append

/-- If a name occurs as often as it is referred to, it starts in no other piece. -/
theorem free_of_occurrences (some : name ≠ [])
    (same : occurrences name (ps.flatMap (written id)) = ps.count (.ref name)) :
    ∀ p rest, p :: rest <:+ ps → p ≠ .ref name →
      Free name (written id p) (rest.flatMap (written id)) := by
  induction ps with
  | nil =>
    intro p rest suffix
    simp at suffix
  | cons q ps ih =>
    have below : ps.count (.ref name) ≤ occurrences name (ps.flatMap (written id)) :=
      count_le_occurrences some
    rw [flatMap_cons] at same
    have kept : occurrences name (ps.flatMap (written id)) = ps.count (.ref name) ∧
        (q ≠ .ref name → Free name (written id q) (ps.flatMap (written id))) := by
      by_cases own : q = .ref name
      · subst own
        rw [count_cons_self] at same
        have more : occurrences name (ps.flatMap (written id)) + 1
            ≤ occurrences name (written id (.ref name) ++ ps.flatMap (written id)) :=
          occurrences_part_append some
        exact ⟨by omega, fun other => absurd rfl other⟩
      · rw [count_cons_of_ne own] at same
        have more : occurrences name (ps.flatMap (written id))
            ≤ occurrences name (written id q ++ ps.flatMap (written id)) := occurrences_le_append
        have equal : occurrences name (ps.flatMap (written id)) = ps.count (.ref name) := by omega
        exact ⟨equal, fun _ => free_of_occurrences_eq (same.trans equal.symm)⟩
    intro p rest suffix other
    rcases suffix_cons_iff.mp suffix with first | later
    · cases first
      exact kept.2 other
    · exact ih kept.1 p rest later other

end Stages

/-! ## All names -/

section Conditions

variable {current text : String}

theorem toList_resolved : (resolved "" text).toList = (pieces text).flatMap (written id) := by
  rw [resolved, String.toList_ofList]
  refine flatMap_congr fun p _ => ?_
  cases p with
  | char c => rfl
  | ref name => simp [written]

theorem count_references (name : String) :
    (references text).count name = (pieces text).count (.ref name.toList) := by
  rw [references]
  induction pieces text with
  | nil => rfl
  | cons p ps ih =>
    cases p with
    | char c => simpa using ih
    | ref other =>
      have same : (String.ofList other == name) = (Piece.ref other == .ref name.toList) := by
        rw [Bool.eq_iff_iff, beq_iff_eq, beq_iff_eq, Piece.ref.injEq]
        constructor
        · rintro rfl
          rw [String.toList_ofList]
        · rintro rfl
          rw [String.ofList_toList]
      rw [filterMap_cons, count_cons, count_cons, ih, same]

theorem mem_references {name : List Char} (mem : .ref name ∈ pieces text) :
    String.ofList name ∈ references text := by
  rw [← count_pos_iff, count_references, String.toList_ofList]
  exact count_pos_iff.mpr mem

/-- The names of fields that a text refers to can be told. -/
theorem telling_of_mem_references {name : String} (mem : name ∈ references text)
    (named : isMemberName name = true) : Telling name.toList := by
  refine ⟨isWordChar_of_mem_references mem, ?_⟩
  unfold isMemberName isNameFrom at named
  split at named
  · cases named
  · next c cs chars =>
    simp only [Bool.and_eq_true] at named
    cases cs with
    | nil => simp [dropFinalNewline] at named
    | cons d rest =>
      refine ⟨c, d, rest, chars, ?_⟩
      rintro rfl
      exact absurd named.1.1.1 (by decide)

/-- Replacing the names of fields in their order. -/
theorem foldl_replaced {fields : List String} {done : List (List Char)} {ps : List Piece}
    (apart : Apart current.toList ps)
    (alone : ∀ f ∈ fields, Telling f.toList ∧
      occurrences f.toList (ps.flatMap (written id)) = ps.count (.ref f.toList)) :
    fields.foldl
        (fun text field => replaced field (if field = current then "o.0" else field ++ ".0") text)
        (String.ofList (ps.flatMap (written (stage current.toList done))))
      = String.ofList (ps.flatMap
        (written (stage current.toList ((fields.map String.toList).reverse ++ done)))) := by
  induction fields generalizing done with
  | nil => rfl
  | cons f fields ih =>
    rw [forall_mem_cons] at alone
    obtain ⟨⟨telling, same⟩, later⟩ := alone
    have value : (if f = current then "o.0" else f ++ ".0").toList
        = if f.toList = current.toList then ['o', '.', '0'] else f.toList ++ ['.', '0'] := by
      simp only [String.toList_inj]
      split <;> simp
    rw [foldl_cons, replaced, String.toList_ofList, value,
      telling.replace_stage apart (free_of_occurrences telling.ne_nil same), ih later, map_cons,
      reverse_cons, append_assoc]
    rfl

end Conditions

/-! ## Checks -/

/-- What is written for a reference: the value that has just been parsed, or a field and members so
many deep. -/
def valueOf (current : String) (depth : String → Nat) (field : String) : String :=
  if field = current then "o.0" else field ++ String.join (List.replicate (depth field) ".0")

section Checks

variable {current text : String}

theorem between_inj {before after a b : String} :
    before ++ a ++ after = before ++ b ++ after ↔ a = b := by
  rw [String.append_left_inj, String.append_right_inj]

theorem checkOf_inj {a b : String} : checkOf text a = checkOf text b ↔ a = b :=
  between_inj

theorem condition_ofText
    (named : ∀ f ∈ references text, isMemberName f = true)
    (alone : ∀ f ∈ references text,
      occurrences f.toList (resolved "" text).toList = (references text).count f)
    (apart : Apart current.toList (pieces text)) :
    (Constraint.ofText text).condition current
      = substituted (valueOf current fun f => (references text).count f) text := by
  have start : resolved "" text
      = String.ofList ((pieces text).flatMap (written (stage current.toList []))) := by
    rw [stage_nil, ← toList_resolved, String.ofList_toList]
  rw [Constraint.condition, Constraint.ofText, start, foldl_replaced apart, substituted]
  · congr 1
    refine flatMap_congr fun p mem => ?_
    cases p with
    | char c => rfl
    | ref name =>
      have mem := mem_references mem
      have there : name ∈ (references text).map String.toList :=
        mem_map.mpr ⟨_, mem, String.toList_ofList⟩
      have often : ((references text).map String.toList).count name
          = (references text).count (String.ofList name) := by
        rw [← count_map_of_injective _ _ fun _ _ => String.toList_injective, String.toList_ofList]
      by_cases value : String.ofList name = current
      · subst value
        simp [written, stage, valueOf, there]
      · have other : name ≠ current.toList := by
          rintro rfl
          exact value String.ofList_toList
        simp [written, stage, valueOf, value, other, often, members, flatMap_replicate]
  · intro f mem
    refine ⟨telling_of_mem_references mem (named f mem), ?_⟩
    rw [← toList_resolved, ← count_references]
    exact alone f mem

theorem length_flatMap_le {α : Type} {f g : α → List Char} {xs : List α}
    (le : ∀ x ∈ xs, (f x).length ≤ (g x).length) :
    (xs.flatMap f).length ≤ (xs.flatMap g).length := by
  induction xs with
  | nil => exact Nat.le_refl 0
  | cons x xs ih =>
    rw [forall_mem_cons] at le
    have rest := ih le.2
    simp only [flatMap_cons, length_append]
    omega

/-- Texts that are as long as longer ones are so piece by piece. -/
theorem length_eq_of_flatMap {α : Type} {f g : α → List Char} {xs : List α}
    (le : ∀ x ∈ xs, (f x).length ≤ (g x).length)
    (same : (xs.flatMap f).length = (xs.flatMap g).length) :
    ∀ x ∈ xs, (f x).length = (g x).length := by
  induction xs with
  | nil => simp
  | cons x xs ih =>
    rw [forall_mem_cons] at le ⊢
    have rest := length_flatMap_le le.2
    simp only [flatMap_cons, length_append] at same
    exact ⟨by omega, ih le.2 (by omega)⟩

theorem length_valueOf (current field : String) (depth : String → Nat) :
    (valueOf current depth field).toList.length
      = if field = current then 3 else field.toList.length + 2 * depth field := by
  unfold valueOf
  split
  · rfl
  · simp [flatMap_replicate, Nat.mul_comm]

/-- Values that are at least one member deep are all one member deep, if the text is as if they were:
no piece can make up for another. -/
theorem substituted_eq_iff {depth : String → Nat} (deep : ∀ f ∈ references text, 1 ≤ depth f) :
    substituted (valueOf current depth) text = substituted (valueOf current fun _ => 1) text ↔
      ∀ f ∈ references text, f ≠ current → depth f = 1 := by
  rw [substituted, substituted, String.ofList_inj]
  constructor
  · intro same f mem other
    have le : ∀ p ∈ pieces text,
        (written (fun name => (valueOf current (fun _ => 1) (String.ofList name)).toList) p).length
          ≤ (written (fun name => (valueOf current depth (String.ofList name)).toList) p).length := by
      intro p mem
      cases p with
      | char c => exact Nat.le_refl 1
      | ref name =>
        have one := deep _ (mem_references mem)
        simp only [written, length_valueOf]
        split <;> omega
    have own : .ref f.toList ∈ pieces text := by
      rw [← count_pos_iff, ← count_references]
      exact count_pos_iff.mpr mem
    have equal := length_eq_of_flatMap le (congrArg List.length same.symm) _ own
    simp only [written, length_valueOf, String.ofList_toList, if_neg other] at equal
    omega
  · intro once
    refine flatMap_congr fun p mem => ?_
    cases p with
    | char c => rfl
    | ref name =>
      by_cases value : String.ofList name = current
      · simp only [written, valueOf, if_pos value]
      · simp only [written, valueOf, if_neg value, once _ (mem_references mem) value]

/-- Names of fields that stand in the text of a constraint only where it refers to them, and that
continue no word, are replaced just there. The field of the arm becomes the value that has been
parsed, and any other one as many members deep as it is referred to. So the check is the constraint
with the values of its fields exactly if it refers to no other field twice. -/
theorem check_substitutes (current text : String)
    (named : ∀ f ∈ references text, isMemberName f = true)
    (alone : ∀ f ∈ references text,
      occurrences f.toList (resolved "" text).toList = (references text).count f)
    (apart : Apart current.toList (pieces text)) :
    checkCode current (.ofText text) = checkOf (resolved "" text)
        (substituted (valueOf current fun f => (references text).count f) text) ∧
      (checkCode current (.ofText text)
          = checkOf (resolved "" text) (substituted (valueOf current fun _ => 1) text) ↔
        ∀ f ∈ references text, f ≠ current → (references text).count f = 1) := by
  have code : checkCode current (.ofText text) = checkOf (resolved "" text)
      (substituted (valueOf current fun f => (references text).count f) text) := by
    rw [← condition_ofText named alone apart]
    rfl
  refine ⟨code, ?_⟩
  rw [code, checkOf_inj]
  exact substituted_eq_iff fun f mem => count_pos_iff.mpr mem

/-- The type of a packet may be referred to twice in its own arm. -/
theorem check_substitutes_type :
    checkCode "type" (.ofText "((self(code) > self(type)) && (self(type) > 1))")
      = checkOf "((code > type) && (type > 1))" "((code.0 > o.0) && (o.0 > 1))" := by
  have check := (check_substitutes "type" "((self(code) > self(type)) && (self(type) > 1))"
    (by decide +kernel) (by decide +kernel) (by unfold Apart; decide +kernel)).2.mpr
    (by decide +kernel)
  rw [check]
  decide +kernel

/-- A name within another one is replaced there, too. -/
theorem check_of_subcode :
    checkCode "subcode" (.ofText "(self(code) == self(subcode))")
        = checkOf "(code == subcode)" "(code.0 == o.0.0)" ∧
      substituted (valueOf "subcode" fun _ => 1) "(self(code) == self(subcode))"
        = "(code.0 == o.0)" := by
  decide +kernel

end Checks

end PacketDraft.Render.Rust
