import TaggedValue.Number.FloatText
import TaggedValue.Proofs.Number.Numerals

/-!
# Decimals

A decimal is spelled by its figures, that is digits with at most one point before, among or behind them,
and by an exponent if one follows. The relation `SpellsDecimal` says so without any reading, and the
reader of decimals is compared with it: a text is read exactly if it spells a decimal, and then as the
decimal that it spells. Figures are read alike whatever follows them, nothing or an exponent.
-/

namespace TaggedValue.Number

/-! ## Spelling -/

/-- A text of digits with at most one point, all its digits, and how many of them are behind the point. -/
inductive Figures : List Char → List Char → Nat → Prop
  | whole {ds : List Char} (digits : IsDigits ds) : Figures ds ds 0
  /-- One of the sides of the point may be empty. -/
  | point {ds places : List Char} (digits : IsDigits (ds ++ places)) :
      Figures (ds ++ '.' :: places) (ds ++ places) places.length

/-- A text spells a decimal with figures and perhaps an exponent. -/
inductive SpellsDecimal : List Char → Decimal → Prop
  | plain {text digits : List Char} {places : Nat} (figures : Figures text digits places) :
      SpellsDecimal text ⟨digitsValue digits, -(places : Int)⟩
  | exponent {text digits cs : List Char} {places : Nat} {letter : Char} {n : Int}
      (figures : Figures text digits places) (hletter : letter = 'e' ∨ letter = 'E')
      (power : Spells cs n) :
      SpellsDecimal (text ++ letter :: cs) ⟨digitsValue digits, n - places⟩

theorem Figures.ne_nil {text digits : List Char} {places : Nat} (h : Figures text digits places) :
    text ≠ [] := by
  cases h with
  | whole hdigits => exact hdigits.1
  | point _ => exact List.append_ne_nil_of_right_ne_nil _ (List.cons_ne_nil _ _)

theorem Figures.forall_mem {text digits : List Char} {places : Nat}
    (h : Figures text digits places) : ∀ c ∈ text, c.isDigit = true ∨ c = '.' := by
  intro c hc
  cases h with
  | whole hdigits => exact Or.inl (hdigits.2 c hc)
  | point hdigits =>
      obtain ⟨hds, hplaces⟩ := List.forall_mem_append.mp hdigits.2
      rcases List.mem_append.mp hc with hc | hc
      · exact Or.inl (hds c hc)
      · exact (List.mem_cons.mp hc).symm.imp_left (hplaces c)

/-! ## Signs and exponents -/

theorem splitSign_of_ne {c : Char} (hminus : c ≠ '-') (hplus : c ≠ '+') (cs : List Char) :
    splitSign (c :: cs) = (false, c :: cs) := by
  rw [splitSign]
  · simpa using hminus
  · simpa using hplus

theorem ne_of_isDigit {c d : Char} (hc : c.isDigit = true) (hd : d.isDigit = false) : c ≠ d := by
  rintro rfl
  rw [hc] at hd
  cases hd

/-- Figures have no sign in front. -/
theorem Figures.splitSign_append {text digits : List Char} {places : Nat}
    (h : Figures text digits places) (rest : List Char) :
    splitSign (text ++ rest) = (false, text ++ rest) := by
  obtain ⟨c, cs, rfl⟩ := List.exists_cons_of_ne_nil h.ne_nil
  rcases h.forall_mem c List.mem_cons_self with hc | rfl
  · exact splitSign_of_ne (ne_of_isDigit hc rfl) (ne_of_isDigit hc rfl) _
  · exact splitSign_of_ne (by decide) (by decide) _

theorem SpellsDecimal.splitSign_eq {cs : List Char} {d : Decimal} (h : SpellsDecimal cs d) :
    splitSign cs = (false, cs) := by
  cases h with
  | plain figures =>
      have hsign := figures.splitSign_append []
      rwa [List.append_nil] at hsign
  | exponent figures _ _ => exact figures.splitSign_append _

theorem readExponent_of_digits {negative : Bool} {cs ds : List Char} (hds : IsDigits ds)
    (hcs : splitSign cs = (negative, ds)) :
    readExponent cs = some (if negative then -(digitsValue ds : Int) else digitsValue ds) := by
  rw [readExponent, hcs]
  dsimp only
  rw [List.isEmpty_eq_false_iff.mpr hds.1, List.all_eq_true.mpr hds.2]
  rfl

/-- An exponent is written as an integer is spelled. -/
theorem readExponent_eq_some_iff {cs : List Char} {n : Int} :
    readExponent cs = some n ↔ Spells cs n := by
  constructor
  · intro h
    rw [readExponent] at h
    dsimp only at h
    split at h
    case isTrue => cases h
    case isFalse hsome =>
      have hdigits : IsDigits (splitSign cs).2 := by simpa [IsDigits] using hsome
      obtain rfl := Option.some.inj h
      revert hdigits
      fun_cases splitSign cs with
      | case1 ds => exact fun hds => .minus hds
      | case2 ds => exact fun hds => .plus hds
      | case3 ds => exact fun hds => .bare hds
  · intro h
    cases h with
    | bare digits =>
        have hsign := (Figures.whole digits).splitSign_append []
        rw [List.append_nil] at hsign
        exact readExponent_of_digits digits hsign
    | @plus ds digits =>
        have hsign : splitSign ('+' :: ds) = (false, ds) := rfl
        exact readExponent_of_digits digits hsign
    | @minus ds digits =>
        have hsign : splitSign ('-' :: ds) = (true, ds) := rfl
        exact readExponent_of_digits digits hsign

/-! ## Reading -/

/-- What is read behind figures: nothing or an exponent. -/
def readEnding (digits places : Nat) : List Char → Option Decimal
  | [] => some ⟨digits, -(places : Int)⟩
  | _ :: r => (readExponent r).map fun n => ⟨digits, n - places⟩

/-- Figures are taken for their digits and places, and an exponent is read behind them. -/
theorem Figures.readDecimal_append {text digits : List Char} {places : Nat}
    (h : Figures text digits places) {ending : List Char}
    (hending : ∀ c ∈ ending.head?, c = 'e' ∨ c = 'E') :
    readDecimal (text ++ ending) = readEnding (digitsValue digits) places ending := by
  have hstop : ∀ c ∈ ending.head?, c.isDigit = false := by
    intro c hc
    rcases hending c hc with rfl | rfl
    · rfl
    · rfl
  cases h with
  | whole hdigits =>
      rw [readDecimal, takeWhile_isDigit hdigits.2 hstop, dropWhile_isDigit hdigits.2 hstop,
        List.isEmpty_eq_false_iff.mpr hdigits.1]
      cases ending with
      | nil => rw [digitsValue, readEnding]; simp
      | cons e r => rcases hending e rfl with rfl | rfl <;> simp [readEnding, digitsValue]
  | @point ds places hdigits =>
      obtain ⟨hds, hplaces⟩ := List.forall_mem_append.mp hdigits.2
      have hsome : (ds.isEmpty && places.isEmpty) = false := by
        have hne := hdigits.1
        simp only [ne_eq, List.append_eq_nil_iff] at hne
        simpa using hne
      have hpoint : ∀ c ∈ ('.' :: (places ++ ending)).head?, c.isDigit = false := by
        intro c hc
        cases hc
        rfl
      rw [List.append_assoc, List.cons_append, readDecimal, takeWhile_isDigit hds hpoint,
        dropWhile_isDigit hds hpoint]
      simp only [takeWhile_isDigit hplaces hstop, dropWhile_isDigit hplaces hstop, hsome]
      cases ending with
      | nil => simp [readEnding, digitsValue]
      | cons e r => rcases hending e rfl with rfl | rfl <;> simp [readEnding, digitsValue]

/-- What is read begins with figures, and only an exponent may follow them. -/
theorem exists_figures {cs : List Char} {d : Decimal} (h : readDecimal cs = some d) :
    ∃ text digits places ending, cs = text ++ ending ∧ Figures text digits places ∧
      ∀ c ∈ ending.head?, c = 'e' ∨ c = 'E' := by
  have hending : ∀ {ending : List Char} {e : Decimal} {power : List Char → Option Decimal},
      (match ending with
        | [] => some e
        | c :: r => if c == 'e' || c == 'E' then power r else none) = some d →
      ∀ c ∈ ending.head?, c = 'e' ∨ c = 'E' := by
    rintro (_ | ⟨c, r⟩) e power hread c' ⟨⟩
    by_contra hne
    simp [not_or.mp hne] at hread
  have hwhole : ∀ c ∈ cs.takeWhile Char.isDigit, c.isDigit = true :=
    List.all_eq_true.mp List.all_takeWhile
  have hcs : cs.takeWhile Char.isDigit ++ cs.dropWhile Char.isDigit = cs :=
    List.takeWhile_append_dropWhile
  rw [readDecimal] at h
  generalize cs.takeWhile Char.isDigit = whole at *
  generalize cs.dropWhile Char.isDigit = rest at *
  dsimp only at h
  -- behind the first digits there is a point or none
  split at h
  next r =>
    have hplaces : ∀ c ∈ r.takeWhile Char.isDigit, c.isDigit = true :=
      List.all_eq_true.mp List.all_takeWhile
    have hr : r.takeWhile Char.isDigit ++ r.dropWhile Char.isDigit = r :=
      List.takeWhile_append_dropWhile
    generalize r.takeWhile Char.isDigit = places at *
    generalize r.dropWhile Char.isDigit = ending at *
    dsimp only at h
    split at h
    case isTrue => cases h
    case isFalse hsome =>
      have hdigits : IsDigits (whole ++ places) := by
        refine ⟨fun hnil => hsome ?_, List.forall_mem_append.mpr ⟨hwhole, hplaces⟩⟩
        simpa using List.append_eq_nil_iff.mp hnil
      refine ⟨whole ++ '.' :: places, _, _, ending, ?_, .point hdigits, hending h⟩
      rw [← hcs, ← hr, List.append_assoc, List.cons_append]
  next =>
    dsimp only at h
    split at h
    case isTrue => cases h
    case isFalse hsome =>
      have hdigits : IsDigits whole := ⟨fun hnil => hsome (by rw [hnil]; rfl), hwhole⟩
      exact ⟨whole, _, _, rest, hcs.symm, .whole hdigits, hending h⟩

/-- **Reading finds the decimal that is spelled**, and nothing else is read. -/
theorem readDecimal_eq_some_iff {cs : List Char} {d : Decimal} :
    readDecimal cs = some d ↔ SpellsDecimal cs d := by
  constructor
  · intro h
    obtain ⟨text, digits, places, ending, rfl, figures, hending⟩ := exists_figures h
    rw [figures.readDecimal_append hending] at h
    cases ending with
    | nil =>
        obtain rfl := Option.some.inj h
        rw [List.append_nil]
        exact .plain figures
    | cons letter r =>
        obtain ⟨n, hn, rfl⟩ := Option.map_eq_some_iff.mp h
        exact .exponent figures (hending letter rfl) (readExponent_eq_some_iff.mp hn)
  · intro h
    cases h with
    | plain figures =>
        have hread := @Figures.readDecimal_append _ _ _ figures [] nofun
        rwa [List.append_nil] at hread
    | @exponent text digits cs places letter n figures hletter power =>
        have hending : ∀ c ∈ (letter :: cs).head?, c = 'e' ∨ c = 'E' := by
          rintro c ⟨⟩
          exact hletter
        rw [figures.readDecimal_append hending, readEnding, readExponent_eq_some_iff.mpr power]
        rfl

end TaggedValue.Number
