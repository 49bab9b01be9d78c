import PacketDraft.Proofs.Render.Sheets

/-!
# Room for the bits of a bit string

A bit string of a constant size becomes an unsigned integer of the least width that holds it, or a
vector of bytes where the size is rendered as a text. No integer is wider than 128 bits, and the widest
is also taken for longer bit strings, for which there is no room in it.
-/

namespace PacketDraft.Render.Rust

open Text Protocol Attempt

/-! ## Widths of integers -/

/-- The widths of unsigned integers. -/
def integerWidths : List Nat :=
  [8, 16, 32, 64, 128]

/-- The name of the unsigned integer type of a width. -/
def integerName (width : Nat) : String :=
  "u" ++ toString width

/-- A type that holds `n` bits: bytes, or the narrowest unsigned integer that is wide enough. -/
def HoldsBits (n : Int) (type : String) : Prop :=
  type = "Vec<u8>" ∨ ∃ width ∈ integerWidths, type = integerName width ∧ n ≤ width ∧
    ∀ other ∈ integerWidths, n ≤ other → width ≤ other

instance (n : Int) (type : String) : Decidable (HoldsBits n type) :=
  inferInstanceAs (Decidable (_ ∨ _))

theorem integerWidth_mem (size : Option Int) : integerWidth size ∈ integerWidths := by
  unfold integerWidth integerWidths
  split
  · simp
  · repeat' split
    all_goals simp

theorem le_integerWidth_iff (n : Int) : n ≤ integerWidth (some n) ↔ n ≤ 128 := by
  simp only [integerWidth]
  repeat' split
  all_goals omega

theorem integerWidth_le {n : Int} {width : Nat} (mem : width ∈ integerWidths) (fits : n ≤ width) :
    integerWidth (some n) ≤ width := by
  simp only [integerWidths, List.mem_cons, List.not_mem_nil, or_false] at mem
  simp only [integerWidth]
  repeat' split
  all_goals omega

theorem integerName_injective :
    ∀ v ∈ integerWidths, ∀ w ∈ integerWidths, integerName v = integerName w → v = w := by
  decide

theorem integerName_ne_bytes : ∀ w ∈ integerWidths, integerName w ≠ "Vec<u8>" := by
  decide

theorem holdsBits_integer_iff (n : Int) :
    HoldsBits n (integerName (integerWidth (some n))) ↔ n ≤ 128 := by
  have mem := integerWidth_mem (some n)
  rw [← le_integerWidth_iff]
  constructor
  · rintro (bytes | ⟨width, listed, named, fits, -⟩)
    · exact absurd bytes (integerName_ne_bytes _ mem)
    · rwa [integerName_injective _ mem _ listed named]
  · intro fits
    exact .inr ⟨_, mem, rfl, fits, fun _ listed fits => integerWidth_le listed fits⟩

/-! ## What is written -/

/-- A sheet that goes on with the type of a bit string. -/
def Declares (name type : String) (a b : Sheet) : Prop :=
  ∃ rest, b.chunks = a.chunks ++ ["\n// Structure and parser for " ++ name ++ " (bitstring type)\n",
    "\n#[derive(Clone, Debug, PartialEq, Eq)]\n",
    "pub struct ", camelCase name, "(pub " ++ type ++ ");\n"] ++ rest

section Written

variable {name : String} {a : Sheet}

theorem requireNew_eq (new : name ∉ a.chunks) : requireNew name a = (.ok (), a) :=
  requireNew_eq_ok_iff.mpr ⟨new, rfl⟩

theorem declares_of_opening {b : Sheet} {type : String} {fields rest : List String}
    (chunks : b.chunks = a.chunks ++ bitStringOpening name type fields ++ rest) :
    Declares name type a b :=
  ⟨["\n#[inline]", bitStringHeader name fields] ++ rest, by
    simp [chunks, bitStringOpening, deriveLine]⟩

theorem writeInteger_declares (new : name ∉ a.chunks) (size : Option Int) :
    ∃ b, writeInteger name size a = (.ok (), b) ∧
      Declares name (integerName (integerWidth size)) a b := by
  unfold writeInteger
  rw [bind_apply, requireNew_eq new]
  exact ⟨_, rfl, declares_of_opening rfl⟩

theorem writeBytes_declares (new : name ∉ a.chunks) {size : String} (some : resolved "" size ≠ "") :
    ∃ b, writeBytes name size a = (.ok (), b) ∧ Declares name "Vec<u8>" a b := by
  let noted : Sheet := { a with inputs := ("parse_" ++ lowered name, references size) :: a.inputs }
  have fresh : requireNew name noted = (.ok (), noted) := requireNew_eq new
  have written : writeBytes name size a
      = (requireNew name >>= fun _ => put (bitStringOpening name "Vec<u8>" (references size)) >>=
          fun _ => put (bitStringLoop name (resolved "" size)) >>= fun _ => put ["\x7d\n"]) noted := by
    unfold writeBytes
    dsimp only
    rw [if_neg some]
    rfl
  rw [written, bind_apply, fresh]
  exact ⟨_, rfl, declares_of_opening (List.append_assoc ..)⟩

section Types

variable {s : Store} {t : TypeRef} {e : Entry} {c : TypeRef} {v : Literal} {n : Int}

theorem writeType_bitString {r : Rendered} (entry : s.entryOf t = some e)
    (form : e.form = .bitString) (known : size s e.size = .ok r) (a : Sheet) :
    writeType s t a = writeBitString e.shownName r a := by
  unfold writeType
  simp only [entry, form, known]
  rfl

/-- A constant that is not a number is rendered as a text. -/
theorem expr_const_text (other : s.same c .number = false) (counts : v.int?.isSome = true) :
    ∃ text, expr s (.const c v) = .ok (.text text) ∧ resolved "" text ≠ "" := by
  obtain ⟨r, known, becomes⟩ := expr_becomes (N := fun _ => True) (s := s) (.const c counts)
  obtain ⟨n, -, number⟩ | ⟨text, rfl, -, -, blank⟩ := becomes
  · exact absurd number (by simp [isCount, other])
  · exact ⟨text, known, fun empty => absurd (blank.mp empty) (by simp [isBlank, isMute])⟩

/-- A bit string of `n` bits becomes a type that holds them, unless it becomes an integer and there is
none that is wide enough. -/
theorem writeType_holds_iff (entry : s.entryOf t = some e) (form : e.form = .bitString)
    (constant : e.size = some (.const c v)) (bits : wholeNumber v = .ok n)
    (kind : s.same c .number = true ∨ v.int?.isSome = true) (new : e.shownName ∉ a.chunks) :
    ∃ type b, writeType s t a = (.ok (), b) ∧ Declares e.shownName type a b ∧
      (HoldsBits n type ↔ (s.same c .number = true → n ≤ 128)) := by
  have written : ∀ r, expr s (.const c v) = .ok r →
      writeType s t a = writeBitString e.shownName r a := by
    intro r known
    apply writeType_bitString entry form
    rw [constant]
    exact known
  cases number : s.same c .number with
  | true =>
    have known : expr s (.const c v) = .ok (.number n) := by
      rw [expr, if_pos number, bits]
      rfl
    obtain ⟨b, done, declares⟩ := writeInteger_declares new (some n)
    refine ⟨_, b, (written _ known).trans done, declares, ?_⟩
    rw [holdsBits_integer_iff]
    simp
  | false =>
    obtain ⟨text, known, shows⟩ := expr_const_text number (kind.resolve_left (by simp [number]))
    obtain ⟨b, done, declares⟩ := writeBytes_declares new shows
    refine ⟨_, b, (written _ known).trans done, declares, ?_⟩
    exact iff_of_true (.inl rfl) (by simp)

end Types

end Written

/-- A bit string of 100 bits. -/
theorem writeType_holds_iff_hundred :
    let s := (makeBitString (some "Key") (some (constantSize (.int 100))) .initial).2
    ∃ type b, writeType s (.id 6) ⟨["Context"], []⟩ = (.ok (), b) ∧
      Declares "Key" type ⟨["Context"], []⟩ b ∧ HoldsBits 100 type := by
  intro s
  have entry : s.entryOf (.id 6) = some _ := rfl
  obtain ⟨type, b, done, declares, holds⟩ := writeType_holds_iff (a := ⟨["Context"], []⟩)
    entry rfl rfl rfl (.inl rfl) (by decide)
  exact ⟨type, b, done, declares, holds.mpr fun _ => by decide⟩

/-- A bit string of 129 bits becomes an integer of 128 bits. -/
theorem writeType_too_narrow :
    let s := (makeBitString (some "Big") (some (constantSize (.int 129))) .initial).2
    ∃ b, writeType s (.id 6) ⟨[], []⟩ = (.ok (), b) ∧ Declares "Big" "u128" ⟨[], []⟩ b ∧
      ¬ HoldsBits 129 "u128" := by
  intro s
  have entry : s.entryOf (.id 6) = some _ := rfl
  obtain ⟨b, done, declares⟩ := writeInteger_declares (a := ⟨[], []⟩) List.not_mem_nil (some 129)
  exact ⟨b, (writeType_bitString entry rfl rfl _).trans done, declares, by decide⟩

end PacketDraft.Render.Rust
