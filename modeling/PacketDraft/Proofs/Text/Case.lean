import PacketDraft.Text.Case

/-!
# The case of ASCII letters

The tables for all scripts agree with the ASCII rule on ASCII characters, so that a text of them is
lowered character by character, and its title case consists of lowered and raised characters.
-/

namespace PacketDraft.Text

open List

/-- What can be looked up for all numbers of ASCII characters holds for the characters. -/
theorem of_ascii {P : Char → Prop} (table : ∀ n < 128, P (Char.ofNat n)) {c : Char}
    (ascii : c.toNat < 128) : P c := by
  have entry := table c.toNat ascii
  rwa [Char.ofNat_toNat] at entry

/-- If all other runs start behind the ASCII characters, the first one alone moves these. -/
theorem mapByRuns_of_ascii {r : CaseRun} {runs : List CaseRun} {f : Char → Char}
    (behind : ∀ s ∈ runs, 128 ≤ s.first)
    (table : ∀ n < 128, mapByRuns [r] (Char.ofNat n) = f (Char.ofNat n)) {c : Char}
    (ascii : c.toNat < 128) : mapByRuns (r :: runs) c = f c := by
  have unmoved : runs.findSome? (·.image? c.toNat) = none := by
    refine findSome?_eq_none_iff.mpr fun s mem => ?_
    have := behind s mem
    exact if_neg (by omega)
  have entry : mapByRuns [r] c = f c := of_ascii (P := fun c => mapByRuns [r] c = f c) table ascii
  rw [← entry, mapByRuns, mapByRuns, findSome?_cons, findSome?_cons, unmoved]
  rfl

theorem lowerChar_of_ascii {c : Char} (ascii : c.toNat < 128) : lowerChar c = [c.toLower] := by
  have single : c.toNat ≠ 0x130 := by omega
  have behind : ∀ r ∈ lowerRuns.tail, 128 ≤ r.first := by decide +kernel
  rw [lowerChar, if_neg single]
  exact congrArg ([·]) (mapByRuns_of_ascii behind (by decide +kernel) ascii)

/-- ASCII characters are lowered one by one, whatever stands around them. -/
theorem lowerFrom_append_of_ascii {cs : List Char} (ascii : ∀ c ∈ cs, c.toNat < 128)
    (before rest : List Char) :
    lowerFrom before (cs ++ rest) = cs.map Char.toLower ++ lowerFrom (cs.reverse ++ before) rest := by
  induction cs generalizing before with
  | nil => rfl
  | cons c cs ih =>
    have bound := ascii c mem_cons_self
    have noSigma : c.toNat ≠ 0x3a3 := by omega
    rw [cons_append, lowerFrom, lowerBetween, if_neg noSigma, lowerChar_of_ascii bound,
      ih fun d mem => ascii d (mem_cons_of_mem c mem)]
    simp

theorem lowerFrom_of_ascii {cs : List Char} (ascii : ∀ c ∈ cs, c.toNat < 128)
    (before : List Char) : lowerFrom before cs = cs.map Char.toLower := by
  simpa [lowerFrom] using lowerFrom_append_of_ascii ascii before []

theorem lower_of_ascii {cs : List Char} (ascii : ∀ c ∈ cs, c.toNat < 128) :
    lower cs = cs.map Char.toLower :=
  lowerFrom_of_ascii ascii []

theorem titleChar_of_ascii {c : Char} (ascii : c.toNat < 128) : titleChar c = [c.toUpper] := by
  have single : titleExpansions.lookup c.toNat = none :=
    of_ascii (P := fun c => titleExpansions.lookup c.toNat = none) (by decide +kernel) ascii
  have behind : ∀ r ∈ titleRuns.tail, 128 ≤ r.first := by decide +kernel
  rw [titleChar, single]
  exact congrArg ([·]) (mapByRuns_of_ascii behind (by decide +kernel) ascii)

theorem mem_titleFrom_of_ascii {cs before : List Char} {d : Char}
    (ascii : ∀ c ∈ cs, c.toNat < 128) (mem : d ∈ titleFrom before cs) :
    ∃ c ∈ cs, d = c.toLower ∨ d = c.toUpper := by
  induction cs generalizing before with
  | nil => cases mem
  | cons c cs ih =>
    rw [forall_mem_cons] at ascii
    rcases mem_append.mp mem with own | later
    · refine ⟨c, mem_cons_self, ?_⟩
      split at own
      · have noSigma : c.toNat ≠ 0x3a3 := by omega
        rw [lowerBetween, if_neg noSigma, lowerChar_of_ascii ascii.1] at own
        exact .inl (mem_singleton.mp own)
      · rw [titleChar_of_ascii ascii.1] at own
        exact .inr (mem_singleton.mp own)
    · obtain ⟨e, old, shape⟩ := ih ascii.2 later
      exact ⟨e, mem_cons_of_mem c old, shape⟩

end PacketDraft.Text
