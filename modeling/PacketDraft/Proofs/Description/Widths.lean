import PacketDraft.Proofs.Description.Registry

/-!
# Widths from descriptions

What a description says about the size of a field is the size of the type that is built for it: a
number of bits, of bytes, or of values of another type. The size of a structure is the sum of the
sizes of its fields. This holds wherever a structure is built, whatever has been built before it.
-/

namespace PacketDraft.Protocol

variable {fields : List Field} {xs : List Expr} {size : Option Expr} {rows : List FieldRow}

/-! ## Values of sizes -/

namespace Expr

/-- The value of a size, where `other` tells the values of the parts that are not looked into. -/
def measure (other : Expr → Int) : Expr → Int
  | .const t v => v.int?.getD (other (.const t v))
  | .method a "plus" [("other", b)] => a.measure other + b.measure other
  | .method a "minus" [("other", b)] => a.measure other - b.measure other
  | .method a "multiply" [("other", b)] => a.measure other * b.measure other
  | .method a "mul" [("other", b)] => a.measure other * b.measure other
  | e => other e

/-- The values of sizes together. -/
def together (other : Expr → Int) : List Expr → Int
  | [] => 0
  | x :: xs => x.measure other + together other xs

variable {other : Expr → Int}

theorem measure_const (t : TypeRef) (v : Literal) : (Expr.const t v).measure other
    = v.int?.getD (other (.const t v)) := rfl

@[simp]
theorem measure_int (t : TypeRef) (n : Int) : (Expr.const t (.int n)).measure other = n := rfl

@[simp]
theorem measure_multiply (a b : Expr) : (Expr.method a "multiply" [("other", b)]).measure other
    = a.measure other * b.measure other := rfl

@[simp]
theorem measure_severalSize (count size : Expr) : (severalSize count size).measure other
    = size.measure other * count.measure other := rfl

/-- The parts that are not sums and differences may be looked into at once. -/
theorem value_measure (e : Expr) :
    e.value (other (.ctx dataSize .context)) (measure other) = e.measure other := by
  fun_induction Expr.value (other (.ctx dataSize .context)) (measure other) e with
  | case1 t v =>
    rw [measure_const]
    cases v.int? <;> rfl
  | case2 name context same =>
    obtain ⟨rfl, rfl⟩ := same
    rfl
  | case3 => rfl
  | case4 a b left right =>
    rw [left, right]
    rfl
  | case5 a b left right =>
    rw [left, right]
    rfl
  | case6 => rfl

theorem total_measure (xs : List Expr) :
    total (other (.ctx dataSize .context)) (measure other) xs = together other xs := by
  induction xs with
  | nil => rfl
  | cons x xs ih => rw [total, together, value_measure, ih]

theorem isConst_iff {e : Expr} : e.isConst = true ↔ ∃ t v, e = .const t v := by
  cases e <;> simp [isConst]

end Expr

theorem Plain.isInteger {N : String → Prop} {e : Expr} (plain : Plain N e)
    (known : e.isConst = true) : e.isInteger = true := by
  cases plain with
  | const _ counts => exact counts
  | _ => cases known

theorem addSizes_isConst {a b c : Expr} (added : addSizes a b = .ok c) :
    c.isConst = true ↔ a.isConst = true ∧ b.isConst = true := by
  unfold addSizes at added
  split at added
  · obtain ⟨sum, -, same⟩ := exceptBind_eq_ok.mp added
    cases same
    simp [Expr.isConst, constantSize]
  · next other =>
    cases added
    refine iff_of_false (by simp [Expr.isConst]) ?_
    rintro ⟨left, right⟩
    obtain ⟨t, x, rfl⟩ := Expr.isConst_iff.mp left
    obtain ⟨u, y, rfl⟩ := Expr.isConst_iff.mp right
    exact other _ _ _ _ rfl rfl

theorem addUp_isConst {a sum : Expr} (added : addUp (some a) xs = .ok (some sum)) :
    sum.isConst = true ↔ a.isConst = true ∧ ∀ x ∈ xs, x.isConst = true := by
  induction xs generalizing a with
  | nil =>
    cases added
    simp
  | cons x xs ih =>
    obtain ⟨b, first, rest⟩ := exceptBind_eq_ok.mp added
    rw [ih rest, addSizes_isConst first, List.forall_mem_cons, and_assoc]

/-- Sizes are added up to a size with their values together, which is known if all of them are. -/
theorem addUp_measure {sum : Expr} (added : addUp (some (constantSize (.int 0))) xs = .ok (some sum))
    (integers : ∀ x ∈ xs, x.isConst = true → x.isInteger = true) :
    (∀ other, sum.measure other = Expr.together other xs) ∧
      (sum.isConst = true ↔ ∀ x ∈ xs, x.isConst = true) := by
  refine ⟨fun other => ?_, ?_⟩
  · rw [← Expr.value_measure, addUp_some_value added, Expr.value_measure, Expr.total_measure]
    · exact Int.zero_add _
    · intro _ x mem
      exact ⟨rfl, integers x (List.takeWhile_subset _ mem) (List.mem_takeWhile_imp mem)⟩
  · rw [addUp_isConst added]
    simp [constantSize]

end PacketDraft.Protocol

namespace PacketDraft.Description

open Attempt (ask_eq_ok bind_eq_ok pure_eq_ok read_eq_ok fail_ne_ok read_bind ofExcept_eq_ok)
open Protocol Document Build
open Render.Rust (Mild)

/-! ## Where building gets -/

/-- A workshop that is reached while what tables declare is built. -/
def Tables.Reaches (t : Tables) (w : Workshop) : Prop :=
  Moves Mild t ⟨t, .initial⟩ w

section Moves

variable {N : String → Prop} {t : Tables} {w w' : Workshop}

theorem Move.grows (move : Move N t w w') (regular : w.store.Regular) :
    w.store.Grows w'.store := by
  cases move.effect with
  | trims _ _ _ store => exact store ▸ .refl _
  | changes _ _ _ grows => exact grows
  | registers makes made =>
    obtain ⟨_, registers⟩ := register_registers makes regular made
    exact registers.grows

/-- The names under which a move registers a type. -/
theorem Move.name_cases (move : Move N t w w') (regular : w.store.Regular) {p : String × TypeRef}
    (mem : p ∈ w'.store.types) : p ∈ w.store.types ∨ t.describes p.1 = true ∨
      ∃ struct label, p.1 = memberTypeName struct label := by
  cases move.effect with
  | trims _ _ _ store => exact .inl (store ▸ mem)
  | changes _ types => exact .inl (types ▸ mem)
  | registers makes made own =>
    obtain ⟨_, registers⟩ := register_registers makes regular made
    rw [registers.types] at mem
    rcases List.mem_append.mp mem with old | new
    · exact .inl old
    · cases List.mem_singleton.mp new
      exact .inr own

end Moves

namespace Tables.Reaches

variable {t : Tables} {w w' z : Workshop} {name : String} {type : TypeRef}

section

variable (reaches : t.Reaches w)

include reaches

theorem orderly (lettered : t.Lettered) : Orderly w.store :=
  orderly_initial.moves lettered reaches

theorem regular : w.store.Regular :=
  (anchored_initial.steps reaches.steps).regular

theorem alike : w.tables.Alike t :=
  Moves.alike reaches

theorem trims (lettered : t.Lettered) : t.Trims Mild w.tables := by
  induction reaches with
  | refl => exact lettered.trims
  | tail _ move ih =>
    rcases move.tables with same | ⟨struct, label, same⟩
    · rwa [same]
    · rw [same]
      exact ih.dropConstraint struct label

/-- Building goes on from where it has got. -/
theorem goes {α : Type} {x : Build α} {Q : α → Prop} {a : α} (lettered : t.Lettered)
    (goes : Goes Mild t x Q) (outcome : x w = (.ok a, w')) :
    t.Reaches w' ∧ w.store.Grows w'.store ∧ Q a := by
  obtain ⟨moves, -, result⟩ := goes w a w' (reaches.trims lettered)
    (reaches.orderly lettered).anchored outcome
  refine ⟨reaches.trans moves, ?_, result⟩
  clear outcome
  induction moves with
  | refl => exact .refl _
  | @tail u v moves move ih =>
    exact ih.trans (move.grows (Reaches.regular (reaches.trans moves)))

/-- A type that is not described is not registered under a name of its own. -/
theorem lookup_undescribed (undescribed : t.describes name = false) (plain : '_' ∉ name.toList)
    (other : name ∉ Store.initial.types.map (·.1)) : w.store.types.lookup name = none := by
  induction reaches with
  | refl =>
    rw [List.lookup_eq_none_iff]
    intro p mem
    rw [bne_iff_ne]
    rintro rfl
    exact other (List.mem_map_of_mem mem)
  | tail before move ih =>
    rw [List.lookup_eq_none_iff] at ih ⊢
    intro p mem
    rcases move.name_cases (regular before) mem with old | described | ⟨struct, label, member⟩
    · exact ih p old
    · rw [bne_iff_ne]
      rintro rfl
      rw [undescribed] at described
      cases described
    · rw [bne_iff_ne]
      rintro rfl
      exact memberTypeName_ne plain struct label member.symm

end

end Tables.Reaches

/-! ## Formulas -/

/-- The expressions that a formula in the description of a structure stands for. The type of a number
is the type under that name, whatever it is. -/
inductive Tables.Denotes (t : Tables) (struct : String) : Formula → Expr → Prop
  | number (type : TypeRef) (n : Nat) : t.Denotes struct (.number n) (.const type (.int n))
  | field {label name : String} (resolved : t.resolveLabel struct label = .ok name) :
      t.Denotes struct (.field label) (.method (.field .self name) "to_number" [])
  | sizeOf {label name : String} (resolved : t.resolveLabel struct label = .ok name) :
      t.Denotes struct (.sizeOf label) (.method (.field .self name) "size" [])
  | member {label name innerStruct inner innerName : String}
      (resolved : t.resolveLabel struct label = .ok name)
      (within : t.structOfField struct label name = .ok innerStruct)
      (resolved' : t.resolveLabel innerStruct inner = .ok innerName) :
      t.Denotes struct (.member label inner)
        (.method (.field (.field .self name) innerName) "to_number" [])
  | binary {left right : Formula} {a b : Expr} {op : Operator} {method : String}
      (carried : (op, method) ∈ [(.plus, "plus"), (.minus, "minus"), (.multiply, "multiply"),
        (.divide, "divide"), (.modulo, "modulo"), (.pow, "pow"), (.le, "le"), (.lt, "lt"),
        (.ge, "ge"), (.gt, "gt"), (.eq, "eq"), (.ne, "ne"), (.and, "and"), (.or, "or"),
        (.not, "not")])
      (first : t.Denotes struct left a) (second : t.Denotes struct right b) :
      t.Denotes struct (.binary op left right) (.method a method [("other", b)])

section Fields

variable {t : Tables} {depth : Nat} {struct : String} {w w' z : Workshop}

section

variable (lettered : t.Lettered) (reaches : t.Reaches w)

include lettered reaches

theorem buildExpr_denotes {formula : Formula} {e : Expr} (spells : formula.Spells Mild)
    (built : buildExpr (buildWithin depth) struct formula w = (.ok e, w')) :
    t.Denotes struct formula e := by
  have going := buildWithin_going Mild t depth
  have resolve : ∀ {struct label name} {u u' : Workshop}, t.Reaches u →
      consult (·.resolveLabel struct label) u = (.ok name, u') →
      u = u' ∧ t.resolveLabel struct label = .ok name := by
    intro struct label name u u' reaches asked
    obtain ⟨answer, rfl⟩ := ask_eq_ok.mp asked
    exact ⟨rfl, reaches.alike.resolveLabel struct label ▸ answer⟩
  induction formula generalizing w w' e with
  | number n =>
    obtain ⟨type, _, -, done⟩ := bind_eq_ok.mp built
    obtain ⟨rfl, -⟩ := pure_eq_ok.mp done
    exact .number type n
  | field label | sizeOf label =>
    obtain ⟨access, _, accessed, done⟩ := bind_eq_ok.mp built
    obtain ⟨name, _, asked, accessed⟩ := bind_eq_ok.mp accessed
    obtain ⟨rfl, -⟩ := pure_eq_ok.mp accessed
    obtain ⟨rfl, -⟩ := pure_eq_ok.mp done
    constructor
    exact (resolve reaches asked).2
  | member label inner =>
    obtain ⟨name, _, asked, rest⟩ := bind_eq_ok.mp built
    obtain ⟨rfl, resolved⟩ := resolve reaches asked
    obtain ⟨innerStruct, _, within, rest⟩ := bind_eq_ok.mp rest
    obtain ⟨inside, rfl⟩ := ask_eq_ok.mp within
    obtain ⟨innerName, _, asked', done⟩ := bind_eq_ok.mp rest
    obtain ⟨rfl, -⟩ := pure_eq_ok.mp done
    exact .member resolved (reaches.alike.structOfField struct label name ▸ inside)
      (resolve reaches asked').2
  | binary op left right ihLeft ihRight =>
    obtain ⟨a, u, first, rest⟩ := bind_eq_ok.mp built
    obtain ⟨b, _, second, done⟩ := bind_eq_ok.mp rest
    obtain ⟨rfl, -⟩ := pure_eq_ok.mp done
    obtain ⟨reaches', -⟩ := reaches.goes lettered (goes_buildExpr going spells.1) first
    exact .binary (by cases op <;> decide) (ihLeft reaches spells.1 first)
      (ihRight reaches' spells.2 second)

theorem lookup_of_buildEnum {key : String} {variants : List String} {type : TypeRef}
    (described : t.IsEnum key variants)
    (built : buildEnum (buildWithin depth) key variants w = (.ok type, w')) :
    w'.store.types.lookup key = some type := by
  have going := buildWithin_going Mild t depth
  obtain ⟨types, u, first, rest⟩ := bind_eq_ok.mp built
  obtain ⟨reaches, -, apart⟩ := reaches.goes lettered (goes_buildTypes going variants) first
  obtain ⟨made, v, registered, rest⟩ := bind_eq_ok.mp rest
  have enum := goes_register (makeEnum_makes (some key) types) fun w type w' made =>
    Move.enum (N := Mild) described apart made
  obtain ⟨reaches, -, -⟩ := reaches.goes lettered enum registered
  obtain ⟨serialise, _, asked, rest⟩ := bind_eq_ok.mp rest
  obtain ⟨-, rfl⟩ := read_eq_ok.mp asked
  obtain ⟨_, x, converted, rest⟩ := bind_eq_ok.mp rest
  obtain ⟨reaches, grows, -⟩ := reaches.goes lettered (goes_buildConversion going _) converted
  obtain ⟨parse, _, asked, rest⟩ := bind_eq_ok.mp rest
  obtain ⟨-, rfl⟩ := read_eq_ok.mp asked
  obtain ⟨_, y, converted', done⟩ := bind_eq_ok.mp rest
  obtain ⟨-, grows', -⟩ := reaches.goes lettered (goes_buildConversion going _) converted'
  obtain ⟨rfl, rfl⟩ := pure_eq_ok.mp done
  exact (grows.trans grows').lookup (register_lookup (makeEnum_makes _ _) registered)

/-- A type that is built is registered under its name, or it is a primitive one whose name is not used
otherwise. -/
theorem buildWithin_cases {key : String} {type : TypeRef}
    (built : buildWithin depth key w = (.ok type, w')) :
    w'.store.types.lookup key = some type ∨
      primitive? key = some type ∧ t.describes key = false := by
  have trims := reaches.trims lettered
  cases depth with
  | zero => exact absurd built fail_ne_ok
  | succ depth =>
    cases finds_of_buildWithin built with
    | registered found => exact .inl found
    | struct unknown structs built =>
      obtain ⟨parts, u, -, made⟩ := bind_eq_ok.mp built
      exact .inl (register_lookup (makeStruct_makes _ _ _ _) made)
    | enum structs enums built =>
      rw [trims.enums] at enums
      exact .inl (lookup_of_buildEnum lettered reaches ⟨trims.lookup_none structs, enums⟩ built)
    | function structs enums functions built =>
      obtain ⟨parameters, u, -, built⟩ := bind_eq_ok.mp built
      obtain ⟨resultKey, u, -, built⟩ := bind_eq_ok.mp built
      obtain ⟨result, u, -, made⟩ := bind_eq_ok.mp built
      exact .inl (register_lookup (makeType_makes _ _ _) made)
    | primitive structs enums functions basic =>
      rw [trims.enums] at enums
      rw [trims.functions] at functions
      exact .inr ⟨basic, by simp [Tables.describes, trims.lookup_none structs, enums, functions]⟩

/-- The type that is built under a name is the one under that name from then on. -/
theorem buildWithin_gives {key : String} {type : TypeRef}
    (built : buildWithin depth key w = (.ok type, w')) :
    (∃ e, w'.store.entryOf type = some e) ∧ ∀ z, t.Reaches z → w'.store.Grows z.store →
      (z.store.types.lookup key <|> primitive? key) = some type := by
  obtain ⟨reaches', -, -⟩ := reaches.goes lettered (buildWithin_going Mild t depth key) built
  rcases buildWithin_cases lettered reaches built with found | ⟨primitive, undescribed⟩
  · obtain ⟨e, entry, -⟩ := (reaches'.orderly lettered).types _ (Store.mem_of_lookup found)
    refine ⟨⟨e, entry⟩, fun z _ grows => ?_⟩
    rw [grows.lookup found]
    rfl
  · have entry : ∃ e, w'.store.entryOf type = some e :=
      (reaches'.regular.primitive_form (primitive?_mem primitive)).imp fun _ => And.left
    have facts : '_' ∉ key.toList ∧ key ∉ Store.initial.types.map (·.1) := by
      unfold primitive? at primitive
      split at primitive
      · decide
      · decide
      · decide
      · cases primitive
    refine ⟨entry, fun z reaches _ => ?_⟩
    rw [reaches.lookup_undescribed undescribed facts.1 facts.2]
    exact primitive

end

/-! ## Fields -/

/-- A type has a size with this value. -/
def Spans (s : Store) (type : TypeRef) (value : (Expr → Int) → Int) : Prop :=
  ∃ x, s.sizeOf type = .ok (some x) ∧ ∀ other, x.measure other = value other

/-- A type has the size that the title of a field tells by a count and a unit: so many bits, eight
times as many for bytes, or so many values of the type that the unit names. -/
def Counted (t : Tables) (s : Store) (struct : String) (title : FieldTitle) (type : TypeRef) :
    Prop :=
  ∀ formula unit, title.size = some formula → title.units = some unit →
    ∃ count, t.Denotes struct formula count ∧
      (unit ∈ ["bit", "bits"] → Spans s type fun other => count.measure other) ∧
      (unit ∈ ["byte", "bytes"] → Spans s type fun other => 8 * count.measure other) ∧
      (unit ∉ ["bit", "bits", "byte", "bytes"] → ∃ key element, typeName unit = .ok key ∧
        (s.types.lookup key <|> primitive? key) = some element ∧
        ∀ size, s.sizeOf element = .ok (some size) →
          Spans s type fun other => count.measure other * size.measure other)

theorem Spans.grows {s s' : Store} {type : TypeRef} {value : (Expr → Int) → Int}
    (spans : Spans s type value) (grows : s.Grows s') : Spans s' type value := by
  obtain ⟨x, known, same⟩ := spans
  exact ⟨x, grows.sizeOf_ok known, same⟩

theorem sizeInBits_measure {build : Builder} {unit : Option String} {bits : Option Expr}
    {count : Expr} (known : size = some count) (done : sizeInBits build unit size w = (.ok bits, w')) :
    ∃ x, bits = some x ∧ ∀ other, x.measure other
      = if isByteUnit unit then 8 * count.measure other else count.measure other := by
  unfold sizeInBits at done
  split at done <;> cases known
  -- A constant and any other count are turned into bits alike.
  all_goals
    split at done
    · next bytes =>
      obtain ⟨number, _, -, done⟩ := bind_eq_ok.mp done
      obtain ⟨rfl, -⟩ := pure_eq_ok.mp done
      exact ⟨_, rfl, fun other => by simp [bytes, Int.mul_comm]⟩
    · next plain =>
      obtain ⟨rfl, -⟩ := pure_eq_ok.mp done
      exact ⟨_, rfl, fun other => by simp [plain]⟩

theorem measure_of_isOne {count : Expr} (one : isOne count = true)
    (integer : count.isConst = true → count.isInteger = true) (other : Expr → Int) :
    count.measure other = 1 := by
  cases count with
  | const type v =>
    have integer := integer rfl
    cases v with
    | int n => simpa [isOne, Literal.equals, Literal.int?] using one
    | flag b => simpa [isOne, Literal.equals, Literal.int?, Expr.measure_const] using one
    | _ => simp [Expr.isInteger, Literal.int?] at integer
  | _ => cases one

theorem entry_of_register {methods : List String} {form : Form} {name : String}
    {make : Change TypeRef} {type : TypeRef} (makes : Makes methods fields form (some name) make)
    (made : register make w = (.ok type, w')) : ∃ e, w'.store.entryOf type = some e := by
  obtain ⟨s, e, ms, -, own, rfl, -, after⟩ := register_made makes made
  rw [after]
  exact ⟨e, own.entryOf⟩

/-- Several values of a type are as long as all of them. -/
theorem repeated_spans {label : String} {element type : TypeRef} {count : Expr} {e : Entry}
    (regular : w.store.Regular) (entry : w.store.entryOf element = some e)
    (integer : count.isConst = true → count.isInteger = true)
    (done : repeated struct label element (some count) w = (.ok type, w')) :
    ∀ size, w.store.sizeOf element = .ok (some size) →
      Spans w'.store type fun other => count.measure other * size.measure other := by
  intro size known
  rw [repeated, read_bind] at done
  dsimp only at done
  split at done
  · obtain ⟨s, registers⟩ := register_registers (makeArray_makes _ _ _ _) regular done
    obtain ⟨own, looks, -, several⟩ := makeArray_looks registers.made entry
    obtain ⟨m, known', rfl⟩ := several count rfl rfl
    rw [known] at known'
    cases known'
    refine ⟨severalSize count size, registers.after.sizeOf_ok (looks.sizeOf rfl), fun other => ?_⟩
    rw [Expr.measure_severalSize, Int.mul_comm]
  · next single =>
    obtain ⟨rfl, rfl⟩ := pure_eq_ok.mp done
    have sent : w.store.isRepresentable element = true := by
      obtain ⟨e, entry, sent, -⟩ := Store.sizeOf_eq_ok.mp known
      exact Store.isRepresentable_iff.mpr ⟨e, entry, sent⟩
    have one : isOne count = true := by simpa [sent] using single
    refine ⟨size, known, fun other => ?_⟩
    show _ = count.measure other * _
    rw [measure_of_isOne one integer, Int.one_mul]

theorem repeated_entry {label : String} {element type : TypeRef} {count : Option Expr}
    (entry : ∃ e, w.store.entryOf element = some e)
    (done : repeated struct label element count w = (.ok type, w')) :
    ∃ e, w'.store.entryOf type = some e := by
  rw [repeated, read_bind] at done
  cases count with
  | none =>
    obtain ⟨rfl, rfl⟩ := pure_eq_ok.mp done
    exact entry
  | some count =>
    dsimp only at done
    split at done
    · exact entry_of_register (makeArray_makes _ _ _ _) done
    · obtain ⟨rfl, rfl⟩ := pure_eq_ok.mp done
      exact entry

theorem buildNamed_gives {phrase : String} {type : TypeRef} (lettered : t.Lettered)
    (reaches : t.Reaches w)
    (done : (Attempt.ofExcept (typeName phrase) >>= buildWithin depth) w = (.ok type, w')) :
    (∃ e, w'.store.entryOf type = some e) ∧ ∃ key, typeName phrase = .ok key ∧
      ∀ z, t.Reaches z → w'.store.Grows z.store →
        (z.store.types.lookup key <|> primitive? key) = some type := by
  obtain ⟨key, _, asked, built⟩ := bind_eq_ok.mp done
  obtain ⟨named, rfl⟩ := ofExcept_eq_ok.mp asked
  obtain ⟨entry, gives⟩ := buildWithin_gives lettered reaches built
  exact ⟨entry, key, named, gives⟩

/-- The type of a unit that is none of the plain ones. -/
theorem fieldUnit_gives {title : FieldTitle} {type : TypeRef} (lettered : t.Lettered)
    (reaches : t.Reaches w) (other : isPlainUnit title.units = false)
    (done : fieldUnit (buildWithin depth) struct title w = (.ok type, w')) :
    (∃ e, w'.store.entryOf type = some e) ∧ (title.isArray = false →
      ∃ unit key, title.units = some unit ∧ typeName unit = .ok key ∧
        ∀ z, t.Reaches z → w'.store.Grows z.store →
          (z.store.types.lookup key <|> primitive? key) = some type) := by
  cases units : title.units with
  | none => simp [units, isPlainUnit] at other
  | some unit =>
    rw [units] at other
    simp only [fieldUnit, units, other, Bool.false_eq_true, if_false, buildUnitType] at done
    split at done
    · next array =>
      refine ⟨?_, fun single => absurd array (by simp [single])⟩
      obtain ⟨constraint, u, -, done⟩ := bind_eq_ok.mp done
      have registered : ∀ {u}, (Attempt.ofExcept (typeName unit) >>= fun unitName =>
          buildWithin depth unitName >>= fun element => register (makeArray
            (some (memberTypeName struct title.fullLabel)) element none
            (statedSize? title.fullLabel constraint))) u = (.ok type, w') →
          ∃ e, w'.store.entryOf type = some e := by
        intro u done
        obtain ⟨key, _, -, done⟩ := bind_eq_ok.mp done
        obtain ⟨element, _, -, made⟩ := bind_eq_ok.mp done
        exact entry_of_register (makeArray_makes _ _ _ _) made
      split at done
      · obtain ⟨_, _, -, done⟩ := bind_eq_ok.mp done
        exact registered done
      · exact registered done
    · obtain ⟨entry, key, named, gives⟩ := buildNamed_gives lettered reaches done
      exact ⟨entry, fun _ => ⟨unit, key, rfl, named, gives⟩⟩

/-- The count of a field. -/
theorem buildExpr?_denotes {formula : Option Formula} (lettered : t.Lettered) (reaches : t.Reaches w)
    (spells : ∀ f ∈ formula, f.Spells Mild)
    (done : buildExpr? (buildWithin depth) struct formula w = (.ok size, w')) :
    ∀ f, formula = some f → ∃ count, size = some count ∧ t.Denotes struct f count := by
  rintro f rfl
  obtain ⟨count, _, built, done⟩ := bind_eq_ok.mp done
  obtain ⟨rfl, -⟩ := pure_eq_ok.mp done
  exact ⟨count, rfl, buildExpr_denotes lettered reaches (spells f rfl) built⟩

/-- The type of a field has the size that its title tells, from then on. -/
theorem fieldType_counted {f : FieldRow} {unitType type : TypeRef} {u v x : Workshop}
    (lettered : t.Lettered) (spells : f.Spells Mild)
    (single : f.title.size.isSome = true → f.title.isArray = false)
    (field : t.HasLabel struct f.title.fullLabel) (reaches : t.Reaches w)
    (unit : fieldUnit (buildWithin depth) struct f.title w = (.ok unitType, u))
    (sized : buildExpr? (buildWithin depth) struct f.title.size u = (.ok size, v))
    (reached : t.Reaches x) (grows : u.store.Grows x.store)
    (typed : fieldType (buildWithin depth) struct f.title unitType size x = (.ok type, w')) :
    (∃ e, w'.store.entryOf type = some e) ∧
      ∀ z, t.Reaches z → w'.store.Grows z.store → Counted t z.store struct f.title type := by
  have going := buildWithin_going Mild t depth
  obtain ⟨reaches', -, apart⟩ := reaches.goes lettered (goes_fieldUnit going field spells) unit
  obtain ⟨-, -, plain⟩ := reaches'.goes lettered (goes_buildExpr? going spells.size) sized
  have denotes := buildExpr?_denotes lettered reaches' spells.size sized
  obtain ⟨-, grows', -⟩ := reached.goes lettered (goes_fieldType going field apart plain) typed
  unfold fieldType at typed
  split at typed
  · next bits =>
    obtain ⟨given, y, converted, made⟩ := bind_eq_ok.mp typed
    refine ⟨entry_of_register (makeBitString_makes _ _) made, ?_⟩
    intro z _ later formula unit stated units
    obtain ⟨count, known, denotes⟩ := denotes formula stated
    obtain ⟨bitSize, rfl, same⟩ := sizeInBits_measure known converted
    obtain ⟨reached', -, -⟩ := reached.goes lettered (goes_sizeInBits going _ plain) converted
    obtain ⟨s, registers⟩ := register_registers (makeBitString_makes _ _) reached'.regular made
    have kept := (registers.after.trans later).sizeOf_ok
      ((makeBitString_looks registers.made).sizeOf rfl)
    simp only [units, isPlainUnit, isByteUnit, decide_eq_true_eq] at bits same
    refine ⟨count, denotes, fun mem => ⟨bitSize, kept, fun other => ?_⟩,
      fun mem => ⟨bitSize, kept, fun other => ?_⟩, fun others => absurd bits (by grind)⟩
    · rw [same, if_neg]
      simp only [List.mem_cons, List.not_mem_nil, or_false] at mem
      rcases mem with rfl | rfl <;> decide
    · rw [same, if_pos]
      simp only [List.mem_cons, List.not_mem_nil, or_false] at mem
      rcases mem with rfl | rfl <;> decide
  · next other =>
    have other : isPlainUnit f.title.units = false := by simpa using other
    obtain ⟨⟨e, entry⟩, gives⟩ := fieldUnit_gives lettered reaches other unit
    obtain ⟨e', entry', -⟩ := grows.entryOf unitType e entry
    refine ⟨repeated_entry ⟨e', entry'⟩ typed, ?_⟩
    intro z reachedLater later formula unit stated units
    obtain ⟨count, rfl, denoted⟩ := denotes formula stated
    obtain ⟨_, key, units', named, gives⟩ := gives (single (by simp [stated]))
    cases units.symm.trans units'
    simp only [units, isPlainUnit, decide_eq_false_iff_not] at other
    refine ⟨count, denoted, fun mem => absurd mem (by grind), fun mem => absurd mem (by grind),
      fun _ => ⟨key, unitType, named, gives z reachedLater ((grows.trans grows').trans later), ?_⟩⟩
    intro size known
    rw [(grows'.trans later).sizeOf entry'] at known
    exact (repeated_spans reached.regular entry' (plain count rfl).isInteger typed size known).grows
      later

/-- What is known of the fields of a structure so far: each has a type with the size that its title
tells, from then on. -/
def FieldsCounted (t : Tables) (struct : String) (s : Store) (rows : List FieldRow)
    (fields : List Field) : Prop :=
  (∀ g ∈ fields, ∃ e, s.entryOf g.type = some e) ∧ ∀ z, t.Reaches z → s.Grows z.store →
    List.Forall₂ (fun f g => g.name = f.title.fullLabel ∧ Counted t z.store struct f.title g.type)
      rows fields

theorem FieldsCounted.grows {s s' : Store} (known : FieldsCounted t struct s rows fields)
    (grows : s.Grows s') : FieldsCounted t struct s' rows fields := by
  refine ⟨fun g mem => ?_, fun z reached later => known.2 z reached (grows.trans later)⟩
  obtain ⟨e, entry⟩ := known.1 g mem
  obtain ⟨e', entry', -⟩ := grows.entryOf g.type e entry
  exact ⟨e', entry'⟩

/-- A field is built. -/
theorem buildField_counted {f : FieldRow} {parts parts' : Parts} (lettered : t.Lettered)
    (spells : f.Spells Mild) (single : f.title.size.isSome = true → f.title.isArray = false)
    (field : t.HasLabel struct f.title.fullLabel) (reaches : t.Reaches w)
    (known : FieldsCounted t struct w.store rows parts.fields)
    (built : buildField (buildWithin depth) struct f parts w = (.ok parts', w')) :
    t.Reaches w' ∧ FieldsCounted t struct w'.store (rows ++ [f]) parts'.fields := by
  have going := buildWithin_going Mild t depth
  rw [buildField_eq] at built
  obtain ⟨unitType, u, unit, built⟩ := bind_eq_ok.mp built
  obtain ⟨reaches₁, grows₁, apart⟩ :=
    reaches.goes lettered (goes_fieldUnit going field spells) unit
  obtain ⟨size, v, sized, built⟩ := bind_eq_ok.mp built
  obtain ⟨reaches₂, grows₂, plain⟩ :=
    reaches₁.goes lettered (goes_buildExpr? going spells.size) sized
  obtain ⟨formula, _, asked, built⟩ := bind_eq_ok.mp built
  obtain ⟨rfl, rfl⟩ := read_eq_ok.mp asked
  obtain ⟨constraint, x, constrained, built⟩ := bind_eq_ok.mp built
  obtain ⟨reaches₃, grows₃, -⟩ := reaches₂.goes lettered
    (goes_buildExpr? going (reaches₂.trims lettered).constraintOf) constrained
  obtain ⟨type, y, typed, built⟩ := bind_eq_ok.mp built
  obtain ⟨entry, counted⟩ := fieldType_counted lettered spells single field reaches unit sized
    reaches₃ (grows₂.trans grows₃) typed
  obtain ⟨reaches₄, grows₄, -⟩ :=
    reaches₃.goes lettered (goes_fieldType going field apart plain) typed
  obtain ⟨presence, _, present, built⟩ := bind_eq_ok.mp built
  obtain ⟨reaches₅, grows₅, -⟩ := reaches₄.goes lettered (goes_fieldPresence going spells) present
  obtain ⟨action, _, acting, built⟩ := bind_eq_ok.mp built
  obtain ⟨reaches₆, grows₆, -⟩ := reaches₅.goes lettered (goes_fieldAction going spells) acting
  obtain ⟨made, _, checked, built⟩ := bind_eq_ok.mp built
  obtain ⟨valid, rfl⟩ := ofExcept_eq_ok.mp checked
  obtain ⟨rfl, rfl⟩ := pure_eq_ok.mp built
  obtain ⟨named, rfl⟩ := makeField_eq_ok valid
  refine ⟨reaches₆, ?_⟩
  have later := grows₅.trans grows₆
  have all := known.grows (grows₁.trans (grows₂.trans (grows₃.trans (grows₄.trans later))))
  refine ⟨List.forall_mem_append.mpr ⟨all.1, List.forall_mem_singleton.mpr ?_⟩, ?_⟩
  · obtain ⟨e, entry⟩ := entry
    obtain ⟨e', entry', -⟩ := later.entryOf made.type e entry
    exact ⟨e', entry'⟩
  · intro z reached after
    refine List.rel_append (all.2 z reached after) (.cons ⟨named, ?_⟩ .nil)
    exact counted z reached (later.trans after)

theorem buildFields_counted {rows' : List FieldRow} {parts parts' : Parts} (lettered : t.Lettered)
    (fields : ∀ f ∈ rows', t.HasLabel struct f.title.fullLabel ∧ f.Spells Mild ∧
      (f.title.size.isSome = true → f.title.isArray = false)) (reaches : t.Reaches w)
    (known : FieldsCounted t struct w.store rows parts.fields)
    (built : buildFields (buildWithin depth) struct rows' parts w = (.ok parts', w')) :
    t.Reaches w' ∧ FieldsCounted t struct w'.store (rows ++ rows') parts'.fields := by
  induction rows' generalizing w parts rows with
  | nil =>
    obtain ⟨rfl, rfl⟩ := pure_eq_ok.mp built
    exact ⟨reaches, by simpa using known⟩
  | cons f rows' ih =>
    rw [List.forall_mem_cons] at fields
    obtain ⟨⟨field, spells, single⟩, others⟩ := fields
    obtain ⟨between, u, first, rest⟩ := bind_eq_ok.mp built
    obtain ⟨reaches, known⟩ := buildField_counted lettered spells single field reaches known first
    simpa using ih others reaches known rest

end Fields

/-! ## Structures -/

section Structures

variable {t : Tables} {w w' : Workshop} {name : String} {row : StructRow}

/-- What is known of the fields in a description, wherever building has got. -/
theorem Tables.Reaches.fields (reaches : t.Reaches w) (lettered : t.Lettered)
    (found : w.tables.structs.lookup name = some row) :
    ∀ f ∈ row.fields.map (·.2), t.HasLabel name f.title.fullLabel ∧ f.Spells Mild ∧
      (f.title.size.isSome = true → f.title.isArray = false) := by
  have trims := reaches.trims lettered
  intro f mem
  obtain ⟨p, listed, rfl⟩ := List.mem_map.mp mem
  obtain ⟨own, described, labels⟩ := trims.exists_row found
  refine ⟨⟨own, described, labels ▸ List.mem_map_of_mem listed⟩,
    (trims.spells name row found).fields p listed, ?_⟩
  -- the row differs from the one that was noted in constraints only
  have alike := reaches.alike name
  rw [found, described] at alike
  have bare : row.bare.fields = own.bare.fields := congrArg StructRow.fields (Option.some.inj alike)
  have image : (p.1, p.2.bare) ∈ own.bare.fields := bare ▸ List.mem_map_of_mem listed
  obtain ⟨q, noted, same⟩ := List.mem_map.mp image
  have title : q.2.bare.title = p.2.bare.title := congrArg (·.2.title) same
  have size : q.2.bare.title.size = p.2.bare.title.size := congrArg FieldTitle.size title
  have array : q.2.bare.title.isArray = p.2.bare.title.isArray := congrArg FieldTitle.isArray title
  show p.2.bare.title.size.isSome = true → p.2.bare.title.isArray = false
  rw [← size, ← array]
  exact ((lettered.struct described).2.fields q noted).title.single

/-- A structure is as long as its fields together, if all of them have a size. -/
def AddsUp (s : Store) (struct : TypeRef) : Prop :=
  ∃ sum, s.sizeOf struct = .ok (some sum) ∧ ∀ xs, s.Sized (s.fieldsOf struct) xs →
    (∀ other, sum.measure other = Expr.together other xs) ∧
      (sum.isConst = true ↔ ∀ x ∈ xs, x.isConst = true)

theorem Sized.plain {N : String → Prop} {s : Store} (spelled : s.Spelled N)
    (sized : s.Sized fields xs) : ∀ x ∈ xs, Plain N x := by
  induction sized with
  | nil => simp
  | cons own _ ih => exact List.forall_mem_cons.mpr ⟨spelled.sizeOf own _ rfl, ih⟩

theorem sizes_of_sized {s s' : Store} {sizes : List (Option Expr)}
    (measured : s.Measured fields sizes) (sized : s'.Sized fields xs) (grows : s.Grows s') :
    sizes.filterMap id = xs := by
  induction measured generalizing xs with
  | nil =>
    cases sized
    rfl
  | cons known _ ih =>
    cases sized with
    | cons own rest =>
      cases (grows.sizeOf_ok known).symm.trans own
      exact congrArg _ (ih rest)

/-- A structure whose fields all have known types adds up. -/
theorem addsUp_of_register {constraints actions : List Expr} {type : TypeRef}
    (regular : w.store.Regular) (spelled : w'.store.Spelled Mild)
    (known : ∀ f ∈ fields, ∃ e, w.store.entryOf f.type = some e)
    (made : register (makeStruct (some name) fields constraints actions) w = (.ok type, w')) :
    w'.store.fieldsOf type = fields ∧ AddsUp w'.store type := by
  obtain ⟨s, registers⟩ :=
    register_registers (makeStruct_makes _ _ _ _) regular made
  obtain ⟨sizes, sum, measured, added, looks⟩ := makeStruct_looks registers.made regular
  have looks := looks.grows registers.after
  refine ⟨looks.fieldsOf, sum, looks.sizeOf rfl, fun xs sized => ?_⟩
  rw [looks.fieldsOf] at sized
  rw [sizes_of_sized (measured known) sized registers.grows] at added
  exact addUp_measure added fun x mem => (Sized.plain spelled sized x mem).isInteger

/-- The widths in a description are those of the structure that is built from it, wherever building
has got: the type of each field has the size that the title of the field tells, and the structure is
as long as its fields together. -/
theorem widths_survive {document : Element} {depth : Nat} {type : TypeRef}
    (noted : Tables.noteDocument document {} = (.ok (), t)) (reaches : t.Reaches w)
    (found : w.tables.structs.lookup name = some row)
    (built : buildStruct (buildWithin depth) name row w = (.ok type, w')) :
    List.Forall₂ (fun f g => g.name = f.title.fullLabel ∧ Counted t w'.store name f.title g.type)
        (row.fields.map (·.2)) (w'.store.fieldsOf type) ∧
      AddsUp w'.store type := by
  have lettered := Tables.lettered_noteDocument noted
  have fields := reaches.fields lettered found
  obtain ⟨parts, u, first, made⟩ := bind_eq_ok.mp built
  have none : FieldsCounted t name w.store [] ([] : List Field) := ⟨by simp, fun _ _ _ => .nil⟩
  obtain ⟨reached, known⟩ := buildFields_counted lettered fields reaches none first
  have trims := reaches.trims lettered
  obtain ⟨own, described, labels⟩ := trims.exists_row found
  have going := buildWithin_going Mild t depth
  obtain ⟨reaches', -, -⟩ := reaches.goes lettered
    (goes_buildStruct going described labels (trims.spells name row found)) built
  obtain ⟨_, registers⟩ := register_registers (makeStruct_makes _ _ _ _) reached.regular made
  obtain ⟨same, adds⟩ := addsUp_of_register reached.regular (reaches'.orderly lettered).spelled
    known.1 made
  rw [same]
  exact ⟨known.2 w' reaches' registers.grows, adds⟩

/-- Packets with a number of headers, of bits and of bytes. -/
def itemPackets (pads : String) : List Element :=
  describing "A Header" ["Sum: 16 bits."] ++
  describing "A Packet" ["Items: 3 Headers.", "Length: 8 bits.", "Pads: " ++ pads ++ " bytes."]

/-- What is declared of one of these packets. -/
def itemRow (pads : Formula) : StructRow :=
  .ofFields [counted "items" 3 "Header", counted "length" 8 "bits",
    ⟨{ fullLabel := "pads", size := some pads, units := some "bytes" }, none⟩]

def itemTypes (pads : Formula) : Tables where
  structs := [("Header", .ofFields [counted "sum" 16 "bits"]), ("Packet", itemRow pads)]

def itemTables (pads : Formula) : Tables :=
  (itemTypes pads).withPackets ["Packet"]

/-- Two bytes more than the length. -/
def longerPads : Formula :=
  .binary .plus (.field "Length") (.number 2)

theorem noteDocument_longer :
    Tables.noteDocument (exampleDocument (itemPackets "(Length + 2)") "Packets") {}
      = (.ok (), itemTables longerPads) :=
  noteDocument_example (t := itemTypes longerPads) (by decide +kernel) (by decide +kernel)

theorem widths_survive_item :
    ∃ type w', buildStruct (buildWithin 9) "Packet" (itemRow longerPads)
        ⟨itemTables longerPads, .initial⟩ = (.ok type, w') ∧
      List.Forall₂ (fun f g => g.name = f.title.fullLabel ∧
          Counted (itemTables longerPads) w'.store "Packet" f.title g.type)
        ((itemRow longerPads).fields.map (·.2)) (w'.store.fieldsOf type) ∧
      AddsUp w'.store type := by
  have returns : (buildStruct (buildWithin 9) "Packet" (itemRow longerPads)
      ⟨itemTables longerPads, .initial⟩).1.isOk = true := by
    decide +kernel
  cases outcome : buildStruct (buildWithin 9) "Packet" (itemRow longerPads)
      ⟨itemTables longerPads, .initial⟩ with
  | mk result w' =>
    rw [outcome] at returns
    cases result with
    | error e => cases returns
    | ok type =>
      exact ⟨type, w', rfl, widths_survive noteDocument_longer .refl rfl outcome⟩

end Structures

end PacketDraft.Description
