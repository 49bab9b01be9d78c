import PacketDraft.Proofs.Protocol.Plain
import PacketDraft.Proofs.Render.Mentions
import PacketDraft.Render.Rust.Types

/-!
# Expressions in a source

A plain expression is rendered as a text in which no word with a low line stands before an opening
parenthesis, and no opening parenthesis right behind a closing one. Texts stay such when references
are resolved, when names are replaced and when parentheses around them are taken off. So wherever
they stand in a source, they mention no parser function.
-/

namespace PacketDraft.Render.Rust

open Protocol Text List

/-! ## Mild texts -/

/-- A text without an opening parenthesis right behind a closing one or behind a word with a low
line, given the mode in which it starts. -/
def MildFrom (m : Mode) (cs : List Char) : Prop :=
  ∃ k, Mode.follow .low m cs = some k

/-- A mild text that starts by itself. -/
def Mild (text : String) : Prop :=
  MildFrom .clear text.toList

section Mild

variable {m k : Mode} {c : Char} {cs ds : List Char} {text more : String}

theorem mildFrom_nil (m : Mode) : MildFrom m [] :=
  ⟨m, rfl⟩

theorem mildFrom_cons : MildFrom m (c :: cs) ↔ ∃ k, Mode.step .low m c = some k ∧ MildFrom k cs := by
  constructor
  · rintro ⟨k, followed⟩
    rw [Mode.follow, foldlM_cons] at followed
    obtain ⟨n, stepped, rest⟩ := Option.bind_eq_some_iff.mp followed
    exact ⟨n, stepped, k, rest⟩
  · rintro ⟨n, stepped, k, rest⟩
    refine ⟨k, ?_⟩
    rw [Mode.follow, foldlM_cons, stepped]
    exact rest

/-- Only a low line in the word before matters. -/
theorem step_of_low {n : Mode} (below : k = .low → m = .low) (stepped : Mode.step .low m c = some n) :
    ∃ l, Mode.step .low k c = some l ∧ (l = .low → n = .low) := by
  unfold Mode.step at stepped ⊢
  split at stepped
  · next name =>
    cases stepped
    refine ⟨_, if_pos name, fun low => ?_⟩
    split at low
    · next own => exact if_pos (own.imp_right below)
    · cases low
  · next other =>
    rw [if_neg other]
    split at stepped
    · next opening =>
      split at stepped
      · cases stepped
      · next clear =>
        cases stepped
        rw [if_pos opening, if_neg (mt below clear)]
        exact ⟨_, rfl, by simp⟩
    · next quiet =>
      cases stepped
      rw [if_neg quiet]
      exact ⟨_, rfl, id⟩

theorem MildFrom.of_low (mild : MildFrom m cs) (below : k = .low → m = .low) : MildFrom k cs := by
  induction cs generalizing m k with
  | nil => exact mildFrom_nil k
  | cons c cs ih =>
    obtain ⟨n, stepped, rest⟩ := mildFrom_cons.mp mild
    obtain ⟨l, stepped', below'⟩ := step_of_low below stepped
    exact mildFrom_cons.mpr ⟨l, stepped', ih rest below'⟩

theorem MildFrom.clear (mild : MildFrom m cs) : MildFrom .clear cs :=
  mild.of_low (by simp)

theorem follow_append : Mode.follow .low m (cs ++ ds)
    = (Mode.follow .low m cs).bind fun k => Mode.follow .low k ds :=
  foldlM_append

theorem mildFrom_append : MildFrom m (cs ++ ds) ↔
    ∃ k, Mode.follow .low m cs = some k ∧ MildFrom k ds := by
  constructor
  · rintro ⟨n, followed⟩
    rw [follow_append] at followed
    obtain ⟨k, first, rest⟩ := Option.bind_eq_some_iff.mp followed
    exact ⟨k, first, n, rest⟩
  · rintro ⟨k, first, n, rest⟩
    refine ⟨n, ?_⟩
    rw [follow_append, first]
    exact rest

/-- What can follow a low line can follow everything. -/
theorem MildFrom.append (first : MildFrom m cs) (second : MildFrom .low ds) :
    MildFrom m (cs ++ ds) := by
  obtain ⟨k, followed⟩ := first
  exact mildFrom_append.mpr ⟨k, followed, second.of_low fun _ => rfl⟩

/-- Texts without openings are mild. -/
theorem mildFrom_of_forall (closed : ∀ c ∈ cs, c ≠ '(' ∧ c ≠ '<') (m : Mode) : MildFrom m cs := by
  induction cs generalizing m with
  | nil => exact mildFrom_nil m
  | cons c cs ih =>
    rw [forall_mem_cons] at closed
    have stepped : ∃ k, Mode.step .low m c = some k := by
      unfold Mode.step
      split
      · exact ⟨_, rfl⟩
      · rw [if_neg (by simp [closed.1])]
        exact ⟨_, rfl⟩
    obtain ⟨k, stepped⟩ := stepped
    exact mildFrom_cons.mpr ⟨k, stepped, ih closed.2 k⟩

theorem Mild.quiet (mild : Mild text) : Quiet (Place.In .clear) text (Place.In .low) := by
  obtain ⟨k, followed⟩ := mild
  exact (quiet_of_follow .low followed).imp (fun _ => id) fun _ _ => trivial

end Mild

/-! ## Resolved references -/

section References

variable {m k : Mode} {cs name rest : List Char}

theorem not_opening_of_isWordChar {c : Char} (word : isWordChar c = true) : c ≠ '(' ∧ c ≠ '<' := by
  constructor
  · rintro rfl
    exact absurd word (by decide +kernel)
  · rintro rfl
    exact absurd word (by decide +kernel)

theorem reference?_eq_some (found : reference? cs = some (name, rest)) :
    cs = "self(".toList ++ (name ++ ')' :: rest) ∧ ∀ c ∈ name, isWordChar c = true := by
  obtain ⟨inside, start, found⟩ := Option.bind_eq_some_iff.mp found
  have whole := List.isPrefixOf?_eq_some_iff_append_eq.mp start
  split at found
  · next r closes =>
    cases found
    refine ⟨?_, fun c mem => mem_takeWhile_imp mem⟩
    rw [← whole, ← closes, takeWhile_append_dropWhile]
  · cases found

/-- Behind a reference, nothing opens. -/
theorem MildFrom.of_reference (mild : MildFrom m ("self(".toList ++ (name ++ ')' :: rest))) :
    MildFrom .low rest := by
  obtain ⟨k, -, mild⟩ := mildFrom_append.mp mild
  obtain ⟨n, -, mild⟩ := mildFrom_append.mp mild
  obtain ⟨l, stepped, mild⟩ := mildFrom_cons.mp mild
  cases stepped
  exact mild

/-- A text stays mild when its references are resolved. -/
theorem mildFrom_resolved {suffix : List Char} (closed : ∀ c ∈ suffix, c ≠ '(' ∧ c ≠ '<')
    (length : Nat) (mild : MildFrom m cs) (below : k = .low → m = .low) :
    MildFrom k ((piecesWithin length cs).flatMap fun
      | .ref name => name ++ suffix
      | .char c => [c]) := by
  induction length generalizing cs m k with
  | zero => exact mildFrom_nil k
  | succ length ih =>
    cases cs with
    | nil => exact mildFrom_nil k
    | cons c cs =>
      rw [piecesWithin]
      cases found : reference? (c :: cs) with
      | some p =>
        obtain ⟨shape, word⟩ := reference?_eq_some found
        rw [shape] at mild
        have silent : ∀ c ∈ p.1 ++ suffix, c ≠ '(' ∧ c ≠ '<' :=
          forall_mem_append.mpr ⟨fun c mem => not_opening_of_isWordChar (word c mem), closed⟩
        exact (mildFrom_of_forall silent k).append (ih mild.of_reference fun _ => rfl)
      | none =>
        obtain ⟨n, stepped, rest⟩ := mildFrom_cons.mp mild
        obtain ⟨l, stepped', below'⟩ := step_of_low below stepped
        exact mildFrom_cons.mpr ⟨l, stepped', ih rest below'⟩

theorem Mild.resolved {suffix text : String} (mild : Mild text)
    (closed : ∀ c ∈ suffix.toList, c ≠ '(' ∧ c ≠ '<') : Mild (resolved suffix text) := by
  unfold Mild Rust.resolved
  rw [String.toList_ofList]
  exact mildFrom_resolved closed _ mild id

/-- References are words. -/
theorem isWordChar_of_mem_references {text name : String} (mem : name ∈ references text) :
    ∀ c ∈ name.toList, isWordChar c = true := by
  have named : ∀ (length : Nat) (cs : List Char), ∀ w, .ref w ∈ piecesWithin length cs →
      ∀ c ∈ w, isWordChar c = true := by
    intro length
    induction length with
    | zero => simp [piecesWithin]
    | succ length ih =>
      intro cs w
      cases cs with
      | nil => simp [piecesWithin]
      | cons c cs =>
        rw [piecesWithin]
        cases found : reference? (c :: cs) with
        | some p =>
          intro mem
          rcases mem_cons.mp mem with own | later
          · cases own
            exact (reference?_eq_some found).2
          · exact ih _ w later
        | none =>
          intro mem
          rcases mem_cons.mp mem with own | later
          · cases own
          · exact ih _ w later
  obtain ⟨p, listed, shown⟩ := mem_filterMap.mp mem
  cases p with
  | char c => cases shown
  | ref w =>
    cases shown
    rw [String.toList_ofList]
    exact named _ _ w listed

end References

/-! ## Replaced names -/

section Replaced

variable {m k : Mode} {part new cs : List Char}

/-- A text stays mild when names are replaced by others that end with a digit. -/
theorem mildFrom_replaceFrom
    (behind : ∀ m, ∃ k, Mode.follow .low m new = some k ∧ k ≠ .low) (skip : Nat)
    (mild : MildFrom m cs) (below : k = .low → m = .low) (inside : skip = 0 ∨ k ≠ .low) :
    MildFrom k (replaceFrom part new skip cs) := by
  induction cs generalizing m k skip with
  | nil =>
    rw [replaceFrom]
    exact mildFrom_nil k
  | cons c cs ih =>
    obtain ⟨n, stepped, rest⟩ := mildFrom_cons.mp mild
    cases skip with
    | succ skip =>
      have clear : k ≠ .low := inside.resolve_left (by simp)
      rw [replaceFrom]
      exact ih skip rest (fun low => absurd low clear) (.inr clear)
    | zero =>
      rw [replaceFrom]
      split
      · obtain ⟨l, followed, clear⟩ := behind k
        refine mildFrom_append.mpr ⟨l, followed, ?_⟩
        exact ih _ rest (fun low => absurd low clear) (.inr clear)
      · obtain ⟨l, stepped', below'⟩ := step_of_low below stepped
        exact mildFrom_cons.mpr ⟨l, stepped', ih 0 rest below' (.inl rfl)⟩

theorem Mild.replaced {part text : String} (mild : Mild text) (new : String)
    (closed : ∀ c ∈ new.toList, c ≠ '(' ∧ c ≠ '<') : Mild (replaced part (new ++ ".0") text) := by
  unfold Mild Text.replaced Text.replace
  rw [String.toList_ofList]
  refine mildFrom_replaceFrom (fun m => ?_) 0 mild id (.inl rfl)
  obtain ⟨k, followed⟩ := mildFrom_of_forall closed m
  rw [String.toList_append, follow_append, followed]
  exact ⟨.word, rfl, by simp⟩

/-- The condition of a constraint is mild. -/
theorem Mild.condition {c : Constraint} (mild : Mild c.text)
    (words : ∀ field ∈ c.fields, ∀ d ∈ field.toList, isWordChar d = true) (current : String) :
    Mild (c.condition current) := by
  obtain ⟨text, fields⟩ := c
  unfold Constraint.condition
  induction fields generalizing text with
  | nil => exact mild
  | cons field fields ih =>
    rw [forall_mem_cons] at words
    have next : Mild (Text.replaced field (if field = current then "o.0" else field ++ ".0") text) := by
      split
      · exact mild.replaced "o" (by simp)
      · exact mild.replaced field fun d mem => not_opening_of_isWordChar (words.1 d mem)
    exact ih _ next words.2

end Replaced

/-! ## Parts of texts -/

theorem MildFrom.tail {m : Mode} {cs : List Char} (mild : MildFrom m cs) :
    MildFrom .clear cs.tail := by
  cases cs with
  | nil => exact mild.clear
  | cons c cs =>
    obtain ⟨k, -, rest⟩ := mildFrom_cons.mp mild
    exact rest.clear

theorem MildFrom.dropLast {m : Mode} {cs : List Char} (mild : MildFrom m cs) :
    MildFrom m cs.dropLast := by
  obtain ⟨ds, same⟩ := List.dropLast_prefix cs
  rw [← same] at mild
  obtain ⟨k, followed, -⟩ := mildFrom_append.mp mild
  exact ⟨k, followed⟩

theorem Mild.inner {text : String} (mild : Mild text) :
    Mild (String.ofList text.toList.tail.dropLast) := by
  unfold Mild
  rw [String.toList_ofList]
  exact mild.tail.dropLast

theorem Mild.unwrapped {text : String} (mild : Mild text) : Mild (unwrapped text) := by
  unfold Rust.unwrapped
  split
  · exact mild.inner
  · exact mild

/-! ## Plain expressions -/

theorem mild_toString (n : Int) : Mild (toString n) := by
  have digits : ∀ n : Nat, ∀ c ∈ n.repr.toList, c ≠ '(' ∧ c ≠ '<' := by
    intro n c mem
    rw [Nat.toList_repr] at mem
    have digit := Nat.isDigit_of_mem_toDigits (by decide) (by decide) mem
    constructor
    · rintro rfl
      exact absurd digit (by decide)
    · rintro rfl
      exact absurd digit (by decide)
  refine mildFrom_of_forall ?_ _
  cases n with
  | ofNat n => exact digits n
  | negSucc n =>
    show ∀ c ∈ ("-" ++ (n + 1).repr).toList, _
    rw [String.toList_append, forall_mem_append]
    exact ⟨by simp, digits (n + 1)⟩

/-- A text around a mild one. -/
theorem mild_around (before after : String) {text : String} {m : Mode} (mild : Mild text)
    (opens : Mode.follow .low m before.toList = some .clear) (closes : MildFrom .low after.toList) :
    MildFrom m (before ++ text ++ after).toList := by
  rw [String.toList_append, String.toList_append, append_assoc]
  exact mildFrom_append.mpr ⟨.clear, opens, mild.append closes⟩

theorem follow_binaryOperator {method op : String} (known : binaryOperator? method = some op) :
    Mode.follow .low .low op.toList = some .clear := by
  unfold binaryOperator? at known
  split at known <;> cases known <;> decide

theorem mild_operation {target r : Rendered} {method : String} {args : List Rendered}
    (mild : Mild target.shown) (mild' : ∀ a ∈ args, Mild a.shown)
    (rendered : operation target method args = .ok r) : Mild r.shown := by
  unfold operation at rendered
  split at rendered
  · next op known =>
    cases args with
    | nil => cases rendered
    | cons a args =>
      cases rendered
      have rest := mild_around op ")" (mild' a mem_cons_self) (follow_binaryOperator known)
        ⟨_, rfl⟩
      have whole := mild_around "(" _ (m := .clear) mild rfl rest
      simpa [Rendered.shown, Mild, String.append_assoc] using whole
  · split at rendered
    · cases args with
      | nil => cases rendered
      | cons a args =>
        cases rendered
        have rest := mild_around ".pow(" "))" (m := .low) (mild' a mem_cons_self) rfl
          ⟨_, rfl⟩
        have whole := mild_around "(" _ (m := .clear) mild rfl rest
        simpa [Rendered.shown, Mild, String.append_assoc] using whole
    · split at rendered
      · cases rendered
        exact mild
      · cases rendered
        exact mildFrom_nil _

/-- A field becomes a reference, and a field of a field comes to nothing. -/
theorem expr_access {N : String → Prop} {s : Store} {x : Expr} (access : Access N x) :
    (∃ name, N name ∧ x = .field .self name ∧ expr s x = .ok (.text ("self(" ++ name ++ ")"))) ∨
      ∃ name innerName, x = .field (.field .self name) innerName ∧ expr s x = .ok .absent := by
  cases access with
  | @own name named => exact .inl ⟨name, named, rfl, by rw [expr, expr]; rfl⟩
  | @inner name innerName named named' =>
    refine .inr ⟨name, innerName, rfl, ?_⟩
    have other : Rendered.text ("self(" ++ name ++ ")") ≠ .text "self" := by
      intro same
      have same := congrArg (·.toList.length) (Rendered.text.inj same)
      simp only [String.toList_append, length_append] at same
      exact absurd same (by simp +arith)
    rw [expr, expr, expr]
    exact if_neg (t := .ok (.text ("self(" ++ innerName ++ ")"))) other

theorem mild_access {s : Store} {x : Expr} {r : Rendered} (access : Access Mild x)
    (rendered : expr s x = .ok r) : Mild r.shown := by
  rcases expr_access (s := s) access with ⟨name, named, -, own⟩ | ⟨_, _, -, own⟩
  · cases rendered.symm.trans own
    exact mild_around "self(" ")" named rfl ⟨_, rfl⟩
  · cases rendered.symm.trans own
    exact ⟨_, rfl⟩

/-- What a plain expression with mild names becomes is mild. -/
theorem mild_expr {s : Store} {e : Expr} {r : Rendered} (plain : Plain Mild e)
    (rendered : expr s e = .ok r) : Mild r.shown := by
  induction plain generalizing r with
  | @const v type counts =>
    rw [expr] at rendered
    split at rendered
    · obtain ⟨n, -, known⟩ := exceptBind_eq_ok.mp rendered
      cases known
      exact mild_toString n
    · cases rendered
      cases v with
      | int n => exact mild_toString n
      | flag b => cases b <;> exact ⟨_, rfl⟩
      | _ => cases counts
  | @ctx name context named =>
    rw [expr] at rendered
    cases rendered
    exact mild_around "context." " as usize" named rfl ⟨_, rfl⟩
  | value access | extent access =>
    rw [expr] at rendered
    obtain ⟨t, known, rest⟩ := exceptBind_eq_ok.mp rendered
    obtain ⟨args, listed, rest⟩ := exceptBind_eq_ok.mp rest
    rw [arguments] at listed
    cases listed
    exact mild_operation (mild_access access known) (by simp) rest
  | @binary target other method parameter _ _ _ ih ih' =>
    rw [expr] at rendered
    obtain ⟨t, known, rest⟩ := exceptBind_eq_ok.mp rendered
    obtain ⟨args, listed, rest⟩ := exceptBind_eq_ok.mp rest
    rw [arguments] at listed
    obtain ⟨a, known', listed⟩ := exceptBind_eq_ok.mp listed
    rw [arguments] at listed
    obtain ⟨_, none, listed⟩ := exceptBind_eq_ok.mp listed
    cases none
    cases listed
    exact mild_operation (ih known) (by simpa using ih' known') rest

end PacketDraft.Render.Rust
