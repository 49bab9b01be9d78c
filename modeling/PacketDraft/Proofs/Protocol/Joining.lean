import PacketDraft.Proofs.Protocol.Growth
import PacketDraft.Proofs.Protocol.Shift

/-!
# Runs behind another protocol

What succeeds on a protocol also succeeds on that protocol behind another one, with all references
shifted, as long as the names that it adds are free there (`Mirror.Follows`). This is shown for each
change of a type, and from these for making whole types, with their traits, fields and constraints.
-/

namespace PacketDraft.Attempt

variable {σ α β γ δ : Type}
variable {name : String}

/-- Pictures of states, for two runs of which the second goes from picture to picture. The states are
sound, and the picture of a state is meant only where the state is clear. -/
structure Mirror (σ : Type) where
  sound : σ → Prop
  before : σ → σ → Prop
  clear : σ → Prop
  image : σ → σ
  refl : ∀ s, before s s
  trans : ∀ {s t u}, before s t → before t u → before s u
  clear_of_before : ∀ {s t}, before s t → clear t → clear s

namespace Mirror

variable (m : Mirror σ)

/-- When the first attempt succeeds and leaves a clear state, the second one succeeds on the picture,
and leaves the picture. Its result is `f` of the first one's. -/
def Follows (f : α → β) (x : Attempt σ α) (y : Attempt σ β) : Prop :=
  ∀ s a s', m.sound s → x s = (.ok a, s') →
    m.sound s' ∧ m.before s s' ∧ (m.clear s' → y (m.image s) = (.ok (f a), m.image s'))

variable {m} {f : α → β} {g : γ → δ}

theorem follows_pure (f : α → β) (a : α) : m.Follows f (pure a) (pure (f a)) := by
  intro s b s' sound outcome
  obtain ⟨rfl, rfl⟩ := pure_eq_ok.mp outcome
  exact ⟨sound, m.refl s, fun _ => rfl⟩

theorem follows_fail (e : Fault) (y : Attempt σ β) : m.Follows f (fail e) y :=
  fun _ _ _ _ outcome => absurd outcome fail_ne_ok

theorem follows_ask {q : σ → Except Fault α} {q' : σ → Except Fault β}
    (answers : ∀ s a, m.sound s → m.clear s → q s = .ok a → q' (m.image s) = .ok (f a)) :
    m.Follows f (ask q) (ask q') := by
  intro s a s' sound outcome
  obtain ⟨answer, rfl⟩ := ask_eq_ok.mp outcome
  refine ⟨sound, m.refl s, fun clear => ?_⟩
  exact ask_eq_ok.mpr ⟨answers s a sound clear answer, rfl⟩

theorem follows_read {q : σ → α} {q' : σ → β}
    (answers : ∀ s, m.sound s → m.clear s → q' (m.image s) = f (q s)) :
    m.Follows f (read q) (read q') :=
  follows_ask fun s _ sound clear answer =>
    Except.ok.inj answer ▸ congrArg Except.ok (answers s sound clear)

theorem follows_ofExcept {x : Except Fault α} {y : Except Fault β}
    (answers : ∀ a, x = .ok a → y = .ok (f a)) : m.Follows f (ofExcept x) (ofExcept y) :=
  follows_ask fun _ a _ _ answer => answers a answer

theorem follows_update {u u' : σ → σ}
    (changes : ∀ s, m.sound s → m.sound (u s) ∧ m.before s (u s) ∧
      (m.clear (u s) → u' (m.image s) = m.image (u s))) :
    m.Follows id (update u) (update u') := by
  intro s a s' sound outcome
  obtain rfl := update_eq_ok.mp outcome
  obtain ⟨sound', before, image⟩ := changes s sound
  exact ⟨sound', before, fun clear => update_eq_ok.mpr (image clear)⟩

theorem follows_read_fail {ι : Type} {q : σ → ι} {e : ι → Fault} {h : ι → γ → Attempt σ α}
    (y : Attempt σ β) :
    m.Follows f (read q >>= fun i => (fail (e i) : Attempt σ γ) >>= h i) y := by
  intro s a s' _ outcome
  cases outcome

/-- What the first attempt has found out on a sound state may be used in what comes next. -/
theorem Follows.bind_of {x : Attempt σ α} {y : Attempt σ β} {h : α → Attempt σ γ}
    {h' : β → Attempt σ δ} (first : m.Follows f x y)
    (rest : ∀ s a t, m.sound s → x s = (.ok a, t) → m.Follows g (h a) (h' (f a))) :
    m.Follows g (x >>= h) (y >>= h') := by
  intro s c s' sound outcome
  obtain ⟨a, t, start, last⟩ := bind_eq_ok.mp outcome
  obtain ⟨sound', before, image⟩ := first s a t sound start
  obtain ⟨sound'', before', image'⟩ := rest s a t sound start t c s' sound' last
  refine ⟨sound'', m.trans before before', fun clear => ?_⟩
  exact bind_eq_ok.mpr ⟨_, _, image (m.clear_of_before before' clear), image' clear⟩

theorem Follows.bind {x : Attempt σ α} {y : Attempt σ β} {h : α → Attempt σ γ}
    {h' : β → Attempt σ δ} (first : m.Follows f x y) (rest : ∀ a, m.Follows g (h a) (h' (f a))) :
    m.Follows g (x >>= h) (y >>= h') :=
  first.bind_of fun _ a _ _ _ => rest a

theorem Follows.ite {c : Prop} [Decidable c] {x x' : Attempt σ α} {y y' : Attempt σ β}
    (yes : m.Follows f x y) (no : m.Follows f x' y') :
    m.Follows f (if c then x else x') (if c then y else y') := by
  split
  · exact yes
  · exact no

theorem Follows.each {h : α → Attempt σ Unit} {h' : β → Attempt σ Unit} (as : List α)
    (one : ∀ a ∈ as, m.Follows id (h a) (h' (f a))) :
    m.Follows id (Attempt.each h as) (Attempt.each h' (as.map f)) := by
  induction as with
  | nil => exact follows_pure id ()
  | cons a as ih =>
    exact (one a List.mem_cons_self).bind fun _ =>
      ih fun b mem => one b (List.mem_cons_of_mem a mem)

end Mirror

end PacketDraft.Attempt

namespace PacketDraft.Protocol

open Attempt List

/-! ## Changes of types -/

section Lists

variable {α : Type}

/-- A change behind the front of a list is a change of what was put there. -/
theorem modify_behind {k n : Nat} {front : List α} {g f f' : α → α} (xs : List α)
    (length : front.length = 6 + k) (own : 6 ≤ n) (commutes : ∀ x, f' (g x) = g (f x)) :
    (front ++ (xs.drop 6).map g).modify (n + k) f' = front ++ ((xs.modify n f).drop 6).map g := by
  refine ext_getElem? fun i => ?_
  rw [List.getElem?_modify]
  rcases Nat.lt_or_ge i front.length with old | new
  · have other : n + k ≠ i := by omega
    simp [List.getElem?_append_left old, other]
  · rw [List.getElem?_append_right new, List.getElem?_append_right new, List.getElem?_map,
      List.getElem?_map, List.getElem?_drop, List.getElem?_drop, List.getElem?_modify]
    by_cases here : n + k = i
    · subst here
      rw [show 6 + (n + k - front.length) = n by omega]
      cases xs[n]? with
      | none => rfl
      | some x => simp [commutes]
    · have other : n ≠ 6 + (i - front.length) := by omega
      simp [here, other]

/-- A change of the front of a list. -/
theorem modify_front {n : Nat} {front : List α} (back : List α) (bound : n < front.length)
    (f : α → α) : (front ++ back).modify n f = front.modify n f ++ back := by
  induction front generalizing n with
  | nil => exact absurd bound (Nat.not_lt_zero n)
  | cons x xs ih =>
    cases n with
    | zero => rfl
    | succ n =>
      rw [cons_append, modify_succ_cons, modify_succ_cons, cons_append,
        ih (Nat.lt_of_succ_lt_succ bound)]

end Lists

namespace Store

variable {base s : Store} {n : Nat}

theorem Rooted.traits_modify (rooted : s.Rooted) {f : Members → Members}
    (traits : ∀ ms : Members, ∀ trait ∈ (f ms).traits, trait ∈ ms.traits ∨ trait ∈ Trait.builtIn)
    (g : Nat) : ∀ ms ∈ s.groups.modify g f, ∀ trait ∈ ms.traits, trait ∈ Trait.builtIn := by
  intro ms mem trait of
  obtain ⟨i, found⟩ := mem_iff_getElem?.mp mem
  rw [List.getElem?_modify] at found
  obtain ⟨ms', there, rfl⟩ := Option.map_eq_some_iff.mp found
  have known := rooted.traits ms' (mem_of_getElem? there)
  by_cases here : g = i
  · simp only [here, if_true] at of
    exact (traits ms' trait of).elim (known trait) id
  · simp only [here, if_false] at of
    exact known trait of

section Changes

variable (based : base.Rooted) (rooted : s.Rooted) (own : 6 ≤ n)

include rooted own

theorem Rooted.modifyEntry {f : Entry → Entry} (extends_ : ∀ e : Entry, e.Extends (f e)) :
    (s.modifyEntry (.id n) f).Rooted where
  regular := rooted.regular.modifyEntry fun e _ => extends_ e
  basic i bound other := by
    show (s.entries.modify n f)[i]? = _
    rw [List.getElem?_modify_ne _ _ (by omega), rooted.basic i bound other]
  protocol := by
    obtain ⟨name, entry⟩ := rooted.protocol
    refine ⟨name, ?_⟩
    show (s.entries.modify n f)[3]? = _
    rw [List.getElem?_modify_ne _ _ (by omega), entry]
  types := rooted.types
  slots := rooted.slots
  traits := rooted.traits

theorem contextSlots_modifyMembers (f : Members → Members) :
    (s.modifyMembers (.id n) f).contextSlots = s.contextSlots := by
  cases entry : s.entryOf (.id n) with
  | none => rw [modifyMembers_of_entryOf_none f entry]
  | some e =>
    rw [contextSlots, rooted.regular.membersAt_modifyMembers f entry, contextSlots, if_neg]
    simp
    omega

theorem Rooted.modifyMembers {f : Members → Members}
    (extends_ : ∀ ms : Members, ms.Extends (f ms))
    (traits : ∀ ms : Members, ∀ trait ∈ (f ms).traits, trait ∈ ms.traits ∨ trait ∈ Trait.builtIn) :
    (s.modifyMembers (.id n) f).Rooted where
  regular := rooted.regular.modifyMembers extends_
  basic := by
    rw [entries_modifyMembers]
    exact rooted.basic
  protocol := by
    rw [entries_modifyMembers]
    exact rooted.protocol
  types := by
    rw [types_modifyMembers]
    exact rooted.types
  slots := by
    rw [contextSlots_modifyMembers rooted own]
    exact rooted.slots
  traits := by
    unfold Store.modifyMembers
    cases s.entryOf (.id n) with
    | none => exact rooted.traits
    | some e => exact rooted.traits_modify traits e.group

include based

omit rooted in
theorem modifyEntry_onto {f f' : Entry → Entry}
    (commutes : ∀ e : Entry, f' (e.shift base.offset) = (f e).shift base.offset) :
    (base.onto s).modifyEntry ((TypeRef.id n).shift base.offset) f'
      = base.onto (s.modifyEntry (.id n) f) := by
  have after := modify_behind s.entries based.length_eq own commutes
  show Store.mk ((base.onto s).entries.modify (shiftId base.offset n) f') _ _ _ = .mk _ _ _ _
  rw [shiftId_own own]
  exact congrArg (Store.mk · _ _ _) after

theorem modifyMembers_onto {f f' : Members → Members}
    (commutes : ∀ ms : Members, f' (ms.shift base.offset) = (f ms).shift base.offset) :
    (base.onto s).modifyMembers ((TypeRef.id n).shift base.offset) f'
      = base.onto (s.modifyMembers (.id n) f) := by
  have other : TypeRef.id n ≠ .protocol := by
    rintro ⟨⟩
    omega
  have there := entryOf_onto based rooted other
  have slots := contextSlots_modifyMembers rooted own f
  cases entry : s.entryOf (.id n) with
  | none =>
    rw [entry, Option.map_none] at there
    rw [modifyMembers_of_entryOf_none f entry, modifyMembers_of_entryOf_none f' there]
  | some e =>
    rw [entry, Option.map_some] at there
    have group : e.group = n := rooted.regular.group n e entry
    have front : (base.groups.modify 4 fun ms => { ms with
        slots := ms.slots ++ shiftTypes base.offset (s.contextSlots.drop 1) }).length
          = 6 + base.offset := by
      rw [length_modify, based.regular.aligned, based.length_eq]
    have after := modify_behind s.groups front own commutes
    have before : s.modifyMembers (.id n) f = { s with groups := s.groups.modify n f } := by
      simp only [Store.modifyMembers, entry, group]
    rw [before] at slots ⊢
    simp only [Store.modifyMembers, there]
    show Store.mk _ ((base.onto s).groups.modify (shiftId base.offset e.group) f') _ _ = _
    rw [group, shiftId_own own]
    refine (congrArg (Store.mk _ · _ _) after).trans ?_
    unfold onto
    rw [slots]

end Changes

/-! ## Runs -/

/-- A protocol is pictured behind another one. Names are only added to it. -/
def behind (base : Store) : Mirror Store where
  sound := Rooted
  before s s' := s.types <+: s'.types ∧ s.contextSlots <+: s'.contextSlots
  clear := base.Clear
  image := base.onto
  refl _ := ⟨prefix_rfl, prefix_rfl⟩
  trans first second := ⟨first.1.trans second.1, first.2.trans second.2⟩
  clear_of_before before clear := by
    refine ⟨fun name inBase found => clear.types name inBase ?_,
      fun name inBase found => clear.slots name inBase ?_⟩
    · obtain ⟨t, known⟩ := Option.isSome_iff_exists.mp found
      rw [lookup_of_isPrefix before.1 known]
      rfl
    · obtain ⟨t, known⟩ := Option.isSome_iff_exists.mp found
      rw [lookup_of_isPrefix before.2 known]
      rfl

end Store

open Store Mirror

variable {base : Store} (based : base.Rooted) {n : Nat}

include based

section Edits

variable (own : 6 ≤ n)

include own

theorem follows_modifyEntry {f f' : Entry → Entry} (extends_ : ∀ e : Entry, e.Extends (f e))
    (commutes : ∀ e : Entry, f' (e.shift base.offset) = (f e).shift base.offset) :
    base.behind.Follows id (update (·.modifyEntry (.id n) f))
      (update (·.modifyEntry ((TypeRef.id n).shift base.offset) f')) :=
  follows_update fun _ rooted =>
    ⟨rooted.modifyEntry own extends_, ⟨prefix_rfl, prefix_rfl⟩,
      fun _ => modifyEntry_onto based own commutes⟩

theorem follows_modifyMembers {f f' : Members → Members}
    (extends_ : ∀ ms : Members, ms.Extends (f ms))
    (traits : ∀ ms : Members, ∀ trait ∈ (f ms).traits, trait ∈ ms.traits ∨ trait ∈ Trait.builtIn)
    (commutes : ∀ ms : Members, f' (ms.shift base.offset) = (f ms).shift base.offset) :
    base.behind.Follows id (update (·.modifyMembers (.id n) f))
      (update (·.modifyMembers ((TypeRef.id n).shift base.offset) f')) := by
  refine follows_update fun s rooted => ⟨rooted.modifyMembers own extends_ traits, ⟨?_, ?_⟩,
    fun _ => modifyMembers_onto based rooted own commutes⟩
  · simp only [types_modifyMembers, prefix_rfl]
  · simp only [contextSlots_modifyMembers rooted own, prefix_rfl]

theorem follows_setSize (size : Option Expr) :
    base.behind.Follows id (setSize (.id n) size)
      (setSize ((TypeRef.id n).shift base.offset) (size.map (·.shift base.offset))) :=
  follows_modifyEntry based own (fun _ => ⟨rfl, .inr rfl, rfl, rfl, prefix_rfl⟩)
    fun _ => rfl

theorem follows_entryOf :
    base.behind.Follows (Option.map (Entry.shift base.offset)) (read (·.entryOf (.id n)))
      (read (·.entryOf ((TypeRef.id n).shift base.offset))) := by
  refine follows_read fun s rooted _ => entryOf_onto based rooted ?_
  rintro ⟨⟩
  omega

end Edits

/-! ## Traits -/

/-- Whether a reference stays what it is when types are shifted. -/
def TypeRef.isFixed : TypeRef → Bool
  | .id n => n < 6
  | _ => true

omit based in
theorem TypeRef.shift_of_isFixed {k : Nat} {t : TypeRef} (fixed : t.isFixed = true) :
    t.shift k = t := by
  cases t with
  | id n => exact congrArg TypeRef.id (shiftId_basic (of_decide_eq_true fixed))
  | _ => rfl

omit based in
/-- The traits mention basic types only. -/
theorem builtIn_isFixed : ∀ trait ∈ Trait.builtIn, ∀ m ∈ trait.methods,
    m.result.isFixed = true ∧ ∀ p ∈ m.parameters, p.type.isFixed = true := by
  decide

omit based in
theorem resolve_shift {k : Nat} {vars : List (String × TypeRef)} {t u : TypeRef}
    (fixed : t.isFixed = true) (resolved : resolve vars t = .ok u) :
    resolve (shiftTypes k vars) t = .ok (u.shift k) := by
  cases t with
  | var name =>
    simp only [resolve, lookup_shiftTypes] at resolved ⊢
    cases found : vars.lookup name with
    | none => simp [found] at resolved
    | some v =>
      simp only [found, Except.ok.injEq] at resolved
      rw [resolved]
      rfl
  | absent =>
    cases resolved
    rfl
  | id n =>
    cases resolved
    exact congrArg Except.ok (TypeRef.shift_of_isFixed fixed).symm

omit based in
theorem instantiate_shift {k : Nat} {vars : List (String × TypeRef)} {m m' : Signature}
    (result : m.result.isFixed = true) (parameters : ∀ p ∈ m.parameters, p.type.isFixed = true)
    (done : m.instantiate vars = .ok m') :
    m.instantiate (shiftTypes k vars) = .ok (m'.shift k) := by
  have all : ∀ ps : List Parameter, (∀ p ∈ ps, p.type.isFixed = true) → ∀ qs,
      (ps.mapM fun p => do
        let type ← resolve vars p.type
        return { p with type }) = Except.ok qs →
      (ps.mapM fun p => do
        let type ← resolve (shiftTypes k vars) p.type
        return { p with type }) = Except.ok (qs.map (·.shift k)) := by
    intro ps
    induction ps with
    | nil =>
      intro _ qs mapped
      cases mapped
      rfl
    | cons p ps ih =>
      intro fixed qs mapped
      rw [mapM_cons] at mapped ⊢
      obtain ⟨q, first, mapped⟩ := exceptBind_eq_ok.mp mapped
      obtain ⟨type, resolved, first⟩ := exceptBind_eq_ok.mp first
      obtain ⟨rest, others, mapped⟩ := exceptBind_eq_ok.mp mapped
      cases first
      cases mapped
      refine exceptBind_eq_ok.mpr ⟨_, exceptBind_eq_ok.mpr
        ⟨_, resolve_shift (fixed p mem_cons_self) resolved, rfl⟩, ?_⟩
      refine exceptBind_eq_ok.mpr
        ⟨_, ih (fun p mem => fixed p (mem_cons_of_mem _ mem)) rest others, rfl⟩
  obtain ⟨r, resolved, done⟩ := exceptBind_eq_ok.mp done
  obtain ⟨ps, mapped, done⟩ := exceptBind_eq_ok.mp done
  obtain ⟨name, named, done⟩ := exceptBind_eq_ok.mp done
  cases done
  exact exceptBind_eq_ok.mpr ⟨_, resolve_shift result resolved,
    exceptBind_eq_ok.mpr ⟨_, all _ parameters ps mapped, exceptBind_eq_ok.mpr ⟨name, named, rfl⟩⟩⟩

omit based in
theorem allAgree_self {α : Type} (agree : α → α → Bool) (refl : ∀ x, agree x x = true)
    (xs : List α) : allAgree agree xs xs = true := by
  rw [allAgree, Bool.and_eq_true, decide_eq_true_iff]
  refine ⟨rfl, ?_⟩
  induction xs with
  | nil => rfl
  | cons x xs ih => simp [refl, ih]

omit based in
/-- Built-in traits are told apart by their names. -/
theorem sameTrait_builtIn (s : Store) {a b : Trait} (known : a ∈ Trait.builtIn)
    (known' : b ∈ Trait.builtIn) : s.sameTrait a b = decide (a.name = b.name) := by
  have unique : ∀ a ∈ Trait.builtIn, ∀ b ∈ Trait.builtIn, a.name = b.name → a = b := by decide
  by_cases named : a.name = b.name
  · obtain rfl := unique a known b known' named
    have types : ∀ t, s.same t t = true := sameWithin_refl s _
    have methods : ∀ m, s.sameSignature m m = true := by
      intro m
      have parameters := allAgree_self
        (fun p q : Parameter => p.name = q.name && s.same p.type q.type)
        (fun p => by simp [types]) m.parameters
      simp [sameSignature, types, parameters]
    simp [sameTrait, allAgree_self s.sameSignature methods]
  · simp [sameTrait, named]

section Edits

variable (own : 6 ≤ n)

include own

theorem follows_implementMethod {trait : Trait} (known : trait ∈ Trait.builtIn) {m : Signature}
    (mem : m ∈ trait.methods) (vars : List (String × TypeRef)) :
    base.behind.Follows id (implementMethod (.id n) vars m)
      (implementMethod ((TypeRef.id n).shift base.offset) (shiftTypes base.offset vars) m) := by
  have taken : base.behind.Follows id
      (read fun s => (s.entryOf (.id n)).any fun e => (e.methods.lookup m.name).isSome)
      (read fun s => (s.entryOf ((TypeRef.id n).shift base.offset)).any fun e =>
        (e.methods.lookup m.name).isSome) := by
    refine follows_read fun s rooted _ => ?_
    have other : TypeRef.id n ≠ .protocol := by
      rintro ⟨⟩
      omega
    show ((base.onto s).entryOf _).any _ = _
    rw [entryOf_onto based rooted other, Option.any_map]
    refine congrArg (Option.any · _) (funext fun e => ?_)
    show ((e.methods.map fun m => (m.1, m.2.shift base.offset)).lookup m.name).isSome = _
    rw [lookup_map_snd, Option.isSome_map]
  obtain ⟨result, parameters⟩ := builtIn_isFixed trait known m mem
  refine taken.bind fun taken => Follows.ite (follows_read_fail _) ?_
  refine (follows_ofExcept fun a done => instantiate_shift result parameters done).bind
    fun method => ?_
  refine follows_modifyEntry based own
    (fun _ => ⟨rfl, .inr rfl, rfl, rfl, prefix_append ..⟩) fun e => ?_
  simp [Entry.shift]

theorem follows_implementTrait {trait : Trait} (known : trait ∈ Trait.builtIn)
    (vars : List (String × TypeRef)) :
    base.behind.Follows id (implementTrait (.id n) trait vars)
      (implementTrait ((TypeRef.id n).shift base.offset) trait (shiftTypes base.offset vars)) := by
  have present : base.behind.Follows id
      (read fun s => (s.traits (.id n)).any (s.sameTrait · trait))
      (read fun s => (s.traits ((TypeRef.id n).shift base.offset)).any (s.sameTrait · trait)) := by
    refine follows_read fun s rooted _ => ?_
    have other : TypeRef.id n ≠ .protocol := by
      rintro ⟨⟩
      omega
    have traits : (base.onto s).traits ((TypeRef.id n).shift base.offset) = s.traits (.id n) := by
      unfold Store.traits
      rw [entryOf_onto based rooted other]
      cases entry : s.entryOf (.id n) with
      | none => rfl
      | some e =>
        show ((base.onto s).members (e.shift base.offset)).traits = _
        rw [members_onto_own based rooted own entry]
        rfl
    have builtIn : ∀ a ∈ s.traits (.id n), a ∈ Trait.builtIn := by
      intro a mem
      unfold Store.traits at mem
      cases entry : s.entryOf (.id n) with
      | none => simp [entry] at mem
      | some e =>
        simp only [entry, Store.members] at mem
        cases group : s.groups[e.group]? with
        | none => simp [group] at mem
        | some ms =>
          rw [group] at mem
          exact rooted.traits ms (mem_of_getElem? group) a mem
    show ((base.onto s).traits _).any _ = (s.traits _).any _
    rw [traits, Bool.eq_iff_iff, any_eq_true, any_eq_true]
    refine exists_congr fun a => and_congr_right fun mem => ?_
    rw [sameTrait_builtIn _ (builtIn a mem) known, sameTrait_builtIn _ (builtIn a mem) known]
  have methods := Follows.each (f := id) trait.methods fun m mem =>
    follows_implementMethod based own known mem (vars ++ [("T", .id n)])
  have vars' : shiftTypes base.offset (vars ++ [("T", .id n)])
      = shiftTypes base.offset vars ++ [("T", (TypeRef.id n).shift base.offset)] := by
    simp [shiftTypes]
  rw [map_id, vars'] at methods
  refine (follows_entryOf based own).bind fun entry => ?_
  cases entry with
  | none => exact follows_fail _ _
  | some e =>
    show base.behind.Follows id _ (if (e.form.shift _).isPrimitive = true then _ else _)
    rw [Form.isPrimitive_shift]
    refine Follows.ite (fun _ _ _ _ outcome => by cases outcome) ?_
    refine present.bind fun present => Follows.ite (follows_read_fail _) ?_
    refine methods.bind fun _ => follows_modifyMembers based own
      (fun _ => ⟨prefix_rfl, prefix_rfl⟩) (fun ms a mem => ?_) fun _ => rfl
    rcases mem_append.mp mem with old | new
    · exact .inl old
    · rw [mem_singleton.mp new]
      exact .inr known

end Edits

/-! ## Fields, constraints and actions -/

theorem follows_sizeOf (t : TypeRef) :
    base.behind.Follows (Option.map (Expr.shift base.offset)) (ask (·.sizeOf t))
      (ask (·.sizeOf (t.shift base.offset))) :=
  follows_ask fun _ _ rooted _ known => sizeOf_onto based rooted known

omit based in
theorem addSizes_shift {k : Nat} {a b sum : Expr} (added : addSizes a b = .ok sum) :
    addSizes (a.shift k) (b.shift k) = .ok (sum.shift k) := by
  cases a with
  | const t x =>
    cases b with
    | const u y =>
      obtain ⟨v, known, added⟩ := exceptBind_eq_ok.mp added
      cases added
      simp only [Expr.shift, addSizes, known]
      rfl
    | _ =>
      cases added
      simp [addSizes, Expr.shift, shiftArgs]
  | _ =>
    cases added
    simp [addSizes, Expr.shift, shiftArgs]

section Edits

variable (own : 6 ≤ n)

include own

theorem follows_addStructField {e : Entry} (group : e.group = n) (field : Field) :
    base.behind.Follows id (addStructField (.id n) e field)
      (addStructField ((TypeRef.id n).shift base.offset) (e.shift base.offset)
        (field.shift base.offset)) := by
  have fields : base.behind.Follows (List.map (Field.shift base.offset))
      (read fun s => (s.members e).fields)
      (read fun s => (s.members (e.shift base.offset)).fields) := by
    refine follows_read fun s _ _ => ?_
    show ((base.onto s).membersAt (shiftId base.offset e.group)).fields = _
    rw [group, shiftId_own own, membersAt_onto_own based own, ← group]
    rfl
  have added : base.behind.Follows id
      (update (·.modifyMembers (.id n) fun ms => { ms with fields := ms.fields ++ [field] }))
      (update (·.modifyMembers ((TypeRef.id n).shift base.offset) fun ms =>
        { ms with fields := ms.fields ++ [field.shift base.offset] })) := by
    refine follows_modifyMembers based own
      (fun _ => ⟨prefix_append .., prefix_rfl⟩) (fun _ _ mem => .inl mem) fun ms => ?_
    simp [Members.shift]
  unfold addStructField
  refine fields.bind fun fs => ?_
  have taken : (fs.map (Field.shift base.offset)).any (fun f => f.name = field.name)
      = fs.any fun f => f.name = field.name := by
    rw [any_map]
    rfl
  show base.behind.Follows id _ (if (fs.map (Field.shift base.offset)).any
    (fun f => f.name = field.name) = true then _ else _)
  rw [taken]
  refine Follows.ite (fun _ _ _ _ outcome => by cases outcome) ?_
  refine (follows_sizeOf based field.type).bind fun fieldSize => ?_
  rw [show (e.shift base.offset).size = e.size.map (·.shift base.offset) from rfl]
  cases e.size with
  | none => exact added
  | some size =>
    cases fieldSize with
    | none => exact added
    | some fieldSize =>
      refine (follows_ofExcept fun _ sum => addSizes_shift sum).bind fun sum => ?_
      exact (follows_setSize based own (some sum)).bind fun _ => added

theorem follows_addSlot (name : String) (type : TypeRef) :
    base.behind.Follows id (addSlot (.id n) name type)
      (addSlot ((TypeRef.id n).shift base.offset) name (type.shift base.offset)) := by
  unfold addSlot
  refine (follows_entryOf based own).bind_of fun s entry _ rooted looked => ?_
  obtain ⟨looked, -⟩ := read_eq_ok.mp looked
  cases entry with
  | none => exact follows_fail _ _
  | some e =>
    have group : e.group = n := rooted.regular.group n e looked
    have slots : base.behind.Follows (shiftTypes base.offset) (read fun s => (s.members e).slots)
        (read fun s => (s.members (e.shift base.offset)).slots) := by
      refine follows_read fun s _ _ => ?_
      show ((base.onto s).membersAt (shiftId base.offset e.group)).slots = _
      rw [group, shiftId_own own, membersAt_onto_own based own, ← group]
      rfl
    dsimp only [Option.map_some]
    rw [show (e.shift base.offset).form = e.form.shift base.offset from rfl]
    cases e.form with
    | context =>
      refine slots.bind fun found => ?_
      show base.behind.Follows id _
        (if ((shiftTypes base.offset found).lookup name).isSome = true then _ else _)
      rw [lookup_shiftTypes, Option.isSome_map]
      refine Follows.ite (fun _ _ _ _ outcome => by cases outcome) ?_
      refine follows_modifyMembers based own
        (fun _ => ⟨prefix_rfl, prefix_append ..⟩) (fun _ _ mem => .inl mem) fun ms => ?_
      simp [Members.shift, shiftTypes]
    | _ => exact follows_fail _ _

theorem follows_addField (field : Field) :
    base.behind.Follows id (addField (.id n) field)
      (addField ((TypeRef.id n).shift base.offset) (field.shift base.offset)) := by
  unfold addField
  refine (follows_entryOf based own).bind_of fun s entry _ rooted looked => ?_
  obtain ⟨looked, -⟩ := read_eq_ok.mp looked
  cases entry with
  | none => exact follows_fail _ _
  | some e =>
    have group : e.group = n := rooted.regular.group n e looked
    have struct := follows_addStructField based own group field
    have slot := follows_addSlot based own field.name field.type
    dsimp only [Option.map_some]
    rw [show (e.shift base.offset).form = e.form.shift base.offset from rfl]
    cases e.form with
    | struct => exact struct
    | context => exact slot
    | _ => exact follows_fail _ _

theorem follows_addTyped {wanted : TypeRef} (basic : wanted.shift base.offset = wanted)
    (refuse : String → TypeFault) {add : Expr → Members → Members}
    (extends_ : ∀ x, ∀ ms : Members, ms.Extends (add x ms))
    (traits : ∀ x, ∀ ms : Members, (add x ms).traits = ms.traits)
    (commutes : ∀ x, ∀ ms : Members,
      add (x.shift base.offset) (ms.shift base.offset) = (add x ms).shift base.offset) (x : Expr) :
    base.behind.Follows id (addTyped wanted refuse add (.id n) x)
      (addTyped wanted refuse add ((TypeRef.id n).shift base.offset) (x.shift base.offset)) := by
  intro s done s' rooted outcome
  obtain ⟨r, struct, result, fits, rfl⟩ := (addTyped_changes wanted refuse add _ x).of_ok outcome
  have change := follows_modifyMembers based own (extends_ x)
    (fun ms trait mem => .inl (traits x ms ▸ mem)) (commutes x) s () _ rooted rfl
  refine ⟨change.1, change.2.1, fun clear => ?_⟩
  have before : base.Clear s := base.behind.clear_of_before change.2.1 clear
  have struct' := isStruct_onto based rooted struct
  have result' := resultType_onto based rooted before x result
  have fits' := same_onto based rooted fits
  rw [basic] at fits'
  refine bind_eq_ok.mpr ⟨true, _, read_eq_ok.mpr ⟨struct', rfl⟩, ?_⟩
  refine bind_eq_ok.mpr ⟨_, _, ask_eq_ok.mpr ⟨result', rfl⟩, ?_⟩
  refine bind_eq_ok.mpr ⟨true, _, read_eq_ok.mpr ⟨fits', rfl⟩, ?_⟩
  exact change.2.2 clear

theorem follows_addConstraint (x : Expr) :
    base.behind.Follows id (addConstraint (.id n) x)
      (addConstraint ((TypeRef.id n).shift base.offset) (x.shift base.offset)) := by
  unfold addConstraint
  refine follows_addTyped based own TypeRef.shift_boolean _ (fun _ _ => ?_) (fun _ _ => ?_)
    (fun _ _ => ?_) x
  · exact ⟨prefix_rfl, prefix_rfl⟩
  · rfl
  · simp [Members.shift]

theorem follows_addAction (x : Expr) :
    base.behind.Follows id (addAction (.id n) x)
      (addAction ((TypeRef.id n).shift base.offset) (x.shift base.offset)) := by
  unfold addAction
  refine follows_addTyped based own TypeRef.shift_nothing _ (fun _ _ => ?_) (fun _ _ => ?_)
    (fun _ _ => ?_) x
  · exact ⟨prefix_rfl, prefix_rfl⟩
  · rfl
  · simp [Members.shift]

end Edits

/-! ## New types -/

omit based in
theorem makeType_of_valid {form : Form} {name : Option String} {given : String}
    (valid : checkName form name = .ok given) (size : Option Expr) (s : Store) :
    makeType form name size s = (.ok (.id s.entries.length), s.push form given size) := by
  unfold makeType
  rw [bind_apply, valid]
  rfl

omit based in
theorem contextSlots_push (s : Store) (form : Form) (name : String) (size : Option Expr) :
    (s.push form name size).contextSlots = s.contextSlots :=
  congrArg Members.slots (membersAt_push s form name size 4)

omit based in
theorem Store.Rooted.push {s : Store} (rooted : s.Rooted) (form : Form) (name : String)
    (size : Option Expr) : (s.push form name size).Rooted where
  regular := rooted.regular.push form name size
  basic i bound other := by
    have enough := rooted.length_le
    show (s.entries ++ [_])[i]? = _
    rw [List.getElem?_append_left (by omega), rooted.basic i bound other]
  protocol := by
    have enough := rooted.length_le
    obtain ⟨key, entry⟩ := rooted.protocol
    refine ⟨key, ?_⟩
    show (s.entries ++ [_])[3]? = _
    rw [List.getElem?_append_left (by omega), entry]
  types := rooted.types
  slots := by
    rw [contextSlots_push]
    exact rooted.slots
  traits ms mem := by
    rcases mem_append.mp mem with old | new
    · exact rooted.traits ms old
    · rw [mem_singleton.mp new]
      simp

theorem push_onto {s : Store} (rooted : s.Rooted) (form : Form) (name : String)
    (size : Option Expr) :
    (base.onto s).push (form.shift base.offset) name (size.map (·.shift base.offset))
      = base.onto (s.push form name size) := by
  have enough := rooted.length_le
  have aligned := rooted.regular.aligned
  have groups : (base.onto s).groups.length = s.groups.length + base.offset := by
    rw [(regular_onto based rooted).aligned, length_entries_onto based s rooted, aligned]
  have group : shiftId base.offset s.groups.length = (base.onto s).groups.length := by
    rw [groups, shiftId_own (by omega)]
  have entry : Entry.shift base.offset { form, name := some name, size, group := s.groups.length }
      = { form := form.shift base.offset, name := some name,
          size := size.map (·.shift base.offset), group := (base.onto s).groups.length } := by
    rw [← group]
    rfl
  have entries (e : Entry) : (base.onto s).entries ++ [e.shift base.offset]
      = base.entries ++ ((s.entries ++ [e]).drop 6).map (·.shift base.offset) := by
    rw [drop_append_of_le_length enough, map_append, ← append_assoc]
    rfl
  have members : (base.onto s).groups ++ [({} : Members)]
      = (base.onto (s.push form name size)).groups := by
    show _ = (base.groups.modify 4 fun ms => { ms with slots := _ ++ shiftTypes _ (List.drop 1 _) })
      ++ ((s.groups ++ [({} : Members)]).drop 6).map _
    rw [contextSlots_push, drop_append_of_le_length (by omega), map_append,
      ← append_assoc]
    rfl
  show Store.mk ((base.onto s).entries ++ [_]) ((base.onto s).groups ++ [({} : Members)]) _ _
    = _
  rw [members, ← entry, entries]
  rfl

/-- Making a type of any form. -/
theorem follows_makeType (form : Form) (name : Option String) (size : Option Expr) :
    base.behind.Follows (TypeRef.shift base.offset) (makeType form name size)
      (makeType (form.shift base.offset) name (size.map (·.shift base.offset))) := by
  intro s t s' rooted outcome
  obtain ⟨given, _, checked, rest⟩ := bind_eq_ok.mp outcome
  obtain ⟨valid, rfl⟩ := ofExcept_eq_ok.mp checked
  rw [makeType_of_valid valid] at outcome
  cases outcome
  have enough := rooted.length_le
  refine ⟨rooted.push form given size, ⟨prefix_rfl, ?_⟩, fun _ => ?_⟩
  · simp only [contextSlots_push, prefix_rfl]
  · have valid' : checkName (form.shift base.offset) name = .ok given := by
      rw [checkName_shift, valid]
    rw [makeType_of_valid valid']
    show (Except.ok (TypeRef.id (base.onto s).entries.length), _) = _
    rw [length_entries_onto based s rooted, ← shiftId_own enough]
    exact congrArg (Prod.mk _) (push_onto based rooted form given size)

/-- A type is made and then worked on. -/
theorem follows_make (form : Form) (name : Option String) (size : Option Expr)
    {rest rest' : TypeRef → Change TypeRef}
    (goesOn : ∀ n, 6 ≤ n → base.behind.Follows (TypeRef.shift base.offset) (rest (.id n))
      (rest' ((TypeRef.id n).shift base.offset))) :
    base.behind.Follows (TypeRef.shift base.offset) (makeType form name size >>= rest)
      (makeType (form.shift base.offset) name (size.map (·.shift base.offset)) >>= rest') := by
  refine (follows_makeType based form name size).bind_of fun s t s' rooted made => ?_
  obtain ⟨rfl, -⟩ := makeType_eq_ok made
  exact goesOn _ rooted.length_le

theorem follows_makeBitString (name : Option String) (size : Option Expr) :
    base.behind.Follows (TypeRef.shift base.offset) (makeBitString name size)
      (makeBitString name (size.map (·.shift base.offset))) := by
  refine follows_make based .bitString name size fun n own => ?_
  have trait {trait : Trait} (known : trait ∈ Trait.builtIn) :=
    follows_implementTrait based own known []
  refine (trait (by decide)).bind fun _ => (trait (by decide)).bind fun _ => ?_
  refine (trait (by decide)).bind fun _ => (trait (by decide)).bind fun _ => ?_
  exact follows_pure _ _

theorem follows_makeArray (name : Option String) (element : TypeRef) (length size : Option Expr) :
    base.behind.Follows (TypeRef.shift base.offset) (makeArray name element length size)
      (makeArray name (element.shift base.offset) (length.map (·.shift base.offset))
        (size.map (·.shift base.offset))) := by
  refine follows_make based (.array element length) name none fun n own => ?_
  have trait {trait : Trait} (known : trait ∈ Trait.builtIn) (vars : List (String × TypeRef)) :=
    follows_implementTrait based own known vars
  refine (trait (by decide) []).bind fun _ => (trait (by decide) []).bind fun _ => ?_
  refine (trait (by decide) [("ET", element)]).bind fun _ => ?_
  refine (follows_setSize based own size).bind fun _ => ?_
  cases length with
  | none => exact follows_pure _ _
  | some length =>
    refine (follows_sizeOf based element).bind fun elementSize => ?_
    cases elementSize with
    | none => exact follows_pure _ _
    | some elementSize =>
      refine (follows_setSize based own _).bind fun _ => follows_pure _ _

theorem follows_makeStruct (name : Option String) (fields : List Field)
    (constraints actions : List Expr) :
    base.behind.Follows (TypeRef.shift base.offset) (makeStruct name fields constraints actions)
      (makeStruct name (fields.map (·.shift base.offset))
        (constraints.map (·.shift base.offset)) (actions.map (·.shift base.offset))) := by
  refine follows_make based .struct name none fun n own => ?_
  have trait {trait : Trait} (known : trait ∈ Trait.builtIn) :=
    follows_implementTrait based own known []
  refine (trait (by decide)).bind fun _ => ?_
  refine (follows_setSize based own (some (constantSize (.int 0)))).bind fun _ => ?_
  refine (Follows.each fields fun field _ => follows_addField based own field).bind fun _ => ?_
  refine (Follows.each constraints fun x _ => follows_addConstraint based own x).bind fun _ => ?_
  refine (Follows.each actions fun x _ => follows_addAction based own x).bind fun _ => ?_
  exact (trait (by decide)).bind fun _ => follows_pure _ _

theorem follows_makeEnum (name : Option String) (variants : List TypeRef) :
    base.behind.Follows (TypeRef.shift base.offset) (makeEnum name variants)
      (makeEnum name (variants.map (·.shift base.offset))) := by
  refine follows_make based (.enum variants) name none fun n own => ?_
  exact (follows_implementTrait based own (by decide) []).bind fun _ => follows_pure _ _

theorem follows_makeFunction (name : Option String) (parameters : List Parameter)
    (result : TypeRef) :
    base.behind.Follows (TypeRef.shift base.offset) (makeFunction name parameters result)
      (makeFunction name (parameters.map (·.shift base.offset)) (result.shift base.offset)) :=
  follows_makeType based (.function parameters result) name none

/-! ## The registry -/

omit based in
theorem addType_of_free {s : Store} {t : TypeRef} (named : s.name? t = some name)
    (free : s.hasType name = false) :
    addType t s = (.ok (), { s with types := s.types ++ [(name, t)] }) := by
  unfold addType
  rw [read_bind, named]
  show (read _ >>= _) s = _
  rw [read_bind, free]
  rfl

omit based in
/-- Registering names of types and packets leaves all types as they are. -/
theorem Store.Rooted.of_types {s : Store} (rooted : s.Rooted) {types : List (String × TypeRef)}
    (more : s.types <+: types) (pdus : List String) : Rooted { s with types, pdus } where
  regular := ⟨rooted.regular.aligned, rooted.regular.group, rooted.regular.parent,
    rooted.regular.basic⟩
  basic := rooted.basic
  protocol := rooted.protocol
  types := rooted.types.trans more
  slots := rooted.slots
  traits := rooted.traits

omit based in
theorem Store.Rooted.rename {s : Store} (rooted : s.Rooted) (name : String) :
    (s.modifyEntry .protocol fun e => { e with name := some name }).Rooted where
  regular := by
    refine rooted.regular.modifyEntry fun e entry => ?_
    obtain ⟨key, rfl⟩ := rooted.protocol_eq entry
    exact ⟨rfl, .inl rfl, rfl, rfl, prefix_rfl⟩
  basic n bound other := by
    show (s.entries.modify 3 _)[n]? = _
    rw [List.getElem?_modify_ne _ _ (Ne.symm other), rooted.basic n bound other]
  protocol := by
    obtain ⟨key, entry⟩ := rooted.protocol
    refine ⟨some name, ?_⟩
    show (s.entries.modify 3 _)[3]? = _
    rw [List.getElem?_modify_eq, entry]
    rfl
  types := rooted.types
  slots := rooted.slots
  traits := rooted.traits

omit based in
/-- Where a protocol gets the name that it has, nothing changes. -/
theorem rename_self {s : Store} (named : s.protocolName = unnamed) :
    (s.modifyEntry .protocol fun e => { e with name := some unnamed }) = s := by
  have named : ((s.entries[3]?).bind (·.name)).getD "" = unnamed := named
  have entries : (s.entries.modify 3 fun e => { e with name := some unnamed }) = s.entries := by
    refine ext_getElem? fun i => ?_
    rw [List.getElem?_modify]
    by_cases here : 3 = i
    · subst here
      cases entry : s.entries[3]? with
      | none => rfl
      | some e =>
        cases key : e.name with
        | none => simp [entry, key, unnamed] at named
        | some key' =>
          have same : key' = unnamed := by simpa [entry, key] using named
          simp [← same, ← key]
    · simp [here]
  exact congrArg (Store.mk · _ _ _) entries

omit based in
/-- A name that comes to be registered was free in the other protocol, too. -/
theorem Store.Clear.free {s s' : Store} (clear : base.Clear s') (rooted : s.Rooted)
    (unknown : s.types.lookup name = none) (known : (s'.types.lookup name).isSome = true) :
    base.types.lookup name = none := by
  by_contra taken
  have common := clear.types name (Option.isSome_iff_ne_none.mpr taken) known
  obtain ⟨u, found⟩ := Option.isSome_iff_exists.mp common
  rw [lookup_of_isPrefix rooted.types found] at unknown
  cases unknown

omit based in
theorem lookup_types_onto_none {s : Store} (rooted : s.Rooted) (free : base.types.lookup name = none)
    (unknown : s.types.lookup name = none) : (base.onto s).types.lookup name = none := by
  have rest : (s.types.drop 2).lookup name = none := by
    obtain ⟨more, same⟩ := rooted.types
    rw [← same] at unknown ⊢
    rw [lookup_append, Option.or_eq_none_iff] at unknown
    exact unknown.2
  show (base.types ++ shiftTypes base.offset (s.types.drop 2)).lookup name = none
  rw [lookup_append, free, lookup_shiftTypes, rest]
  rfl

theorem follows_addType (own : 6 ≤ n) :
    base.behind.Follows id (addType (.id n)) (addType ((TypeRef.id n).shift base.offset)) := by
  intro s done s' rooted outcome
  obtain ⟨name, named, free, rfl⟩ := (addType_changes _).of_ok outcome
  have enough : 2 ≤ s.types.length := rooted.types.length_le
  refine ⟨rooted.of_types (prefix_append ..) _, ⟨prefix_append .., prefix_rfl⟩,
    fun clear => ?_⟩
  have named' : (base.onto s).name? ((TypeRef.id n).shift base.offset) = some name := by
    show ((base.onto s).entries[shiftId base.offset n]?).bind (·.name) = _
    rw [shiftId_own own, entries_onto_own based own, Option.bind_map]
    exact named
  have unknown : s.types.lookup name = none := by
    simpa [Store.hasType] using free
  have free' : (base.onto s).hasType name = false := by
    have other := clear.free rooted unknown (by simp [lookup_append, unknown])
    rw [Store.hasType, lookup_types_onto_none rooted other unknown]
    rfl
  refine (addType_of_free named' free').trans ?_
  have types : (base.onto s).types ++ [(name, (TypeRef.id n).shift base.offset)]
      = base.types ++ shiftTypes base.offset ((s.types ++ [(name, TypeRef.id n)]).drop 2) := by
    show (base.types ++ shiftTypes base.offset (s.types.drop 2)) ++ _ = _
    rw [drop_append_of_le_length enough, append_assoc]
    simp [shiftTypes]
  rw [types]
  rfl

theorem follows_definePdu (name : String) :
    base.behind.Follows id (definePdu name) (definePdu name) := by
  intro s done s' rooted outcome
  obtain ⟨t, registered, sent, rfl⟩ := (definePdu_changes name).of_ok outcome
  refine ⟨rooted.of_types prefix_rfl _, ⟨prefix_rfl, prefix_rfl⟩,
    fun clear => ?_⟩
  have found : s.types.lookup name = some t := by
    unfold Store.getType at registered
    split at registered
    · next u known =>
      cases registered
      exact known
    · cases registered
  have clear' : base.Clear s := ⟨clear.types, clear.slots⟩
  have registered' : (base.onto s).getType name = .ok (t.shift base.offset) := by
    unfold Store.getType
    rw [lookup_types_onto based rooted clear' found]
  refine bind_eq_ok.mpr ⟨_, _, ask_eq_ok.mpr ⟨registered', rfl⟩, ?_⟩
  refine bind_eq_ok.mpr ⟨true, _, read_eq_ok.mpr ⟨?_, rfl⟩, ?_⟩
  · exact (isRepresentable_onto based rooted t).trans sent
  · refine congrArg (Prod.mk _) ?_
    show Store.mk _ _ _ ((base.pdus ++ s.pdus) ++ [name])
      = .mk _ _ _ (base.pdus ++ (s.pdus ++ [name]))
    rw [append_assoc]
    rfl

omit based in
theorem modifyMembers_context {s : Store} (regular : s.Regular) (f : Members → Members) :
    s.modifyMembers .context f = { s with groups := s.groups.modify 4 f } := by
  obtain ⟨e, entry, -⟩ := regular.basic (.context, .context) (by simp [basis])
  have group : e.group = 4 := regular.group 4 e entry
  simp only [Store.modifyMembers, entry, group]

omit based in
theorem addSlot_of_free {s : Store} {t type : TypeRef} {e : Entry} (entry : s.entryOf t = some e)
    (context : e.form = .context) (free : (s.members e).slots.lookup name = none) :
    addSlot t name type s = (.ok (), s.modifyMembers t fun ms =>
      { ms with slots := ms.slots ++ [(name, type)] }) := by
  unfold addSlot
  rw [read_bind, entry]
  simp only [context]
  rw [read_bind, free]
  rfl

/-- A field that comes to be added to the context was free behind the other protocol, too. -/
theorem contextSlot_onto {s s' : Store} (rooted : s.Rooted) {t : TypeRef}
    (free : s.contextSlots.lookup name = none)
    (added : s'.contextSlots = s.contextSlots ++ [(name, t)]) (clear : base.Clear s') :
    (base.onto s).contextSlots.lookup name = none := by
  have other : base.contextSlots.lookup name = none := by
    by_contra taken
    have common := clear.slots name (Option.isSome_iff_ne_none.mpr taken)
      (by simp [added, lookup_append, free])
    obtain ⟨u, found⟩ := Option.isSome_iff_exists.mp common
    rw [lookup_of_isPrefix rooted.slots found] at free
    cases free
  have rest : (s.contextSlots.drop 1).lookup name = none := by
    obtain ⟨more, same⟩ := rooted.slots
    rw [← same] at free ⊢
    rw [lookup_append, Option.or_eq_none_iff] at free
    exact free.2
  rw [contextSlots_onto based, lookup_append, other, lookup_shiftTypes, rest]
  rfl

theorem follows_addContextSlot (name : String) (type : TypeRef) :
    base.behind.Follows id (addSlot .context name type)
      (addSlot .context name (type.shift base.offset)) := by
  intro s done s' rooted outcome
  obtain ⟨e, entry, form, free, rfl⟩ := (addSlot_changes .context name type).of_ok outcome
  have regular := rooted.regular.modifyMembers (t := .context)
    (f := fun ms => { ms with slots := ms.slots ++ [(name, type)] })
    fun _ => ⟨prefix_rfl, prefix_append ..⟩
  have slots : (s.modifyMembers .context fun ms =>
      { ms with slots := ms.slots ++ [(name, type)] }).contextSlots
        = s.contextSlots ++ [(name, type)] := by
    rw [contextSlots, rooted.regular.membersAt_modifyMembers _ entry]
    rfl
  have unknown : s.contextSlots.lookup name = none := by
    rw [← free, membersOf_own rooted entry]
    rfl
  rw [modifyMembers_context rooted.regular] at regular slots ⊢
  refine ⟨⟨regular, rooted.basic, rooted.protocol, rooted.types, ?_, ?_⟩, ⟨prefix_rfl, ?_⟩,
    fun clear => ?_⟩
  · rw [slots]
    exact rooted.slots.trans (prefix_append ..)
  · refine rooted.traits_modify (fun _ _ mem => ?_) 4
    exact .inl mem
  · rw [slots]
    exact prefix_append ..
  · have group : e.group = 4 := rooted.regular.group 4 e entry
    have entry' := entryOf_onto_some based rooted entry (by simp [form])
    have free' : ((base.onto s).members (e.shift base.offset)).slots.lookup name = none := by
      rw [← contextSlot_onto based rooted unknown slots clear]
      show ((base.onto s).membersAt (shiftId base.offset e.group)).slots.lookup name = _
      rw [group]
      rfl
    refine (addSlot_of_free entry' (Form.shift_eq_context.mpr form) free').trans ?_
    refine congrArg (Prod.mk _) ?_
    rw [TypeRef.shift_context, modifyMembers_context (regular_onto based rooted)]
    have enough : 1 ≤ s.contextSlots.length := rooted.slots.length_le
    have front := based.length_le
    have aligned := based.regular.aligned
    have groups : (base.onto s).groups.modify 4
        (fun ms => { ms with slots := ms.slots ++ [(name, type.shift base.offset)] })
          = (base.onto { s with groups := s.groups.modify 4 fun ms =>
              { ms with slots := ms.slots ++ [(name, type)] } }).groups := by
      show (base.groups.modify 4 _ ++ _).modify 4 _ = base.groups.modify 4 _ ++ _
      rw [modify_front _ (by rw [length_modify]; omega), modify_modify_eq, slots,
        drop_append_of_le_length enough, drop_modify_of_lt _ _ _ _ (by decide)]
      simp [shiftTypes, Function.comp_def]
    rw [groups]
    rfl

end PacketDraft.Protocol
