import TaggedValue.Text.Hex
import TaggedValue.Text.Quoted

/-!
# Quoted text can be read

No character inside quotes begins with a quote, and where one ends is seen from the character itself: it
stands for itself, is escaped by one letter, or has its number in braces. So a quoted text ends at one
place only, whatever follows it, and the characters in it are known.
-/

namespace TaggedValue.Text

/-! ## Numbers of characters -/

theorem hexValue?_digitChar : ∀ d < 16, hexValue? (Nat.digitChar d) = some d := by
  decide

theorem readHex_append_digit {cs : List Char} {n d : Nat} (h : readHex cs = some n) (hd : d < 16) :
    readHex (cs ++ [Nat.digitChar d]) = some (16 * n + d) := by
  rw [readHex] at h
  rw [readHex, List.foldl_append, h, List.foldl_cons, List.foldl_nil, Option.bind_some,
    hexValue?_digitChar d hd]
  rfl

/-- Hexadecimal digits that are written for a number are read as that number. -/
theorem readHex_toDigits (n : Nat) : readHex (Nat.toDigits 16 n) = some n := by
  induction n using Nat.strongRecOn with
  | ind n ih =>
      by_cases hsmall : n < 16
      · have hnone : readHex [] = some 0 := rfl
        have h := readHex_append_digit hnone hsmall
        rwa [Nat.mul_zero, Nat.zero_add, List.nil_append, ← Nat.toDigits_of_lt_base hsmall] at h
      · have hlarge : 16 ≤ n := Nat.le_of_not_lt hsmall
        rw [Nat.toDigits_of_base_le (by decide) hlarge,
          readHex_append_digit (ih (n / 16) (by omega)) (Nat.mod_lt n (by decide)), Nat.div_add_mod]

theorem ne_brace_of_mem_toDigits {n : Nat} : ∀ c ∈ Nat.toDigits 16 n, c ≠ '}' := by
  have hdigit : ∀ d < 16, Nat.digitChar d ≠ '}' := by decide
  induction n using Nat.strongRecOn with
  | ind n ih =>
      intro c hc
      by_cases hsmall : n < 16
      · rw [Nat.toDigits_of_lt_base hsmall, List.mem_singleton] at hc
        exact hc ▸ hdigit n hsmall
      · rw [Nat.toDigits_of_base_le (by decide) (Nat.le_of_not_lt hsmall), List.mem_append,
          List.mem_singleton] at hc
        rcases hc with hc | rfl
        · exact ih (n / 16) (by omega) c hc
        · exact hdigit _ (Nat.mod_lt n (by decide))

/-! ## One character -/

/-- The character that quoted text begins with, and what follows it. -/
def unescape : List Char → Option (Char × List Char)
  | [] => none
  | '"' :: _ => none
  | '\\' :: '"' :: rest => some ('"', rest)
  | '\\' :: '\\' :: rest => some ('\\', rest)
  | '\\' :: 'n' :: rest => some ('\n', rest)
  | '\\' :: 'r' :: rest => some ('\r', rest)
  | '\\' :: 't' :: rest => some ('\t', rest)
  | '\\' :: '0' :: rest => some ('\x00', rest)
  | '\\' :: 'u' :: '{' :: rest =>
      (readHex (rest.takeWhile (· != '}'))).map fun n =>
        (Char.ofNat n, (rest.dropWhile (· != '}')).tail)
  | c :: rest => some (c, rest)

theorem unescape_cons {c : Char} (hquote : c ≠ '"') (hslash : c ≠ '\\') (rest : List Char) :
    unescape (c :: rest) = some (c, rest) := by
  rw [unescape]
  all_goals simp [hquote, hslash]

/-- The braces show where the number of a character ends. -/
theorem unescape_number (c : Char) (rest : List Char) :
    unescape ('\\' :: 'u' :: '{' :: (Nat.toDigits 16 c.toNat ++ '}' :: rest)) = some (c, rest) := by
  have hinside : ∀ d ∈ Nat.toDigits 16 c.toNat, (d != '}') = true :=
    fun d hd => bne_iff_ne.mpr (ne_brace_of_mem_toDigits d hd)
  rw [unescape, List.takeWhile_append_of_pos hinside, List.dropWhile_append_of_pos hinside,
    List.takeWhile_cons_of_neg (by decide), List.dropWhile_cons_of_neg (by decide), List.append_nil,
    readHex_toDigits, Option.map_some, Char.ofNat_toNat, List.tail_cons]

/-- **One character** is read from what is written for it. -/
theorem unescape_escape (c : Char) (rest : List Char) :
    unescape (escape c ++ rest) = some (c, rest) := by
  unfold escape
  split
  case h_7 hquote hslash _ _ _ _ =>
    split
    case isTrue hshown =>
      exact unescape_cons hquote hslash rest
    case isFalse hnumber =>
      rw [List.cons_append, List.cons_append, List.cons_append, List.append_assoc,
        List.singleton_append]
      exact unescape_number c rest
  all_goals rfl

/-- What is read from text shows where it was written. -/
theorem escape_append_inj {c d : Char} {r s : List Char} (h : escape c ++ r = escape d ++ s) :
    c = d ∧ r = s := by
  have hc := unescape_escape c r
  rw [h, unescape_escape d s] at hc
  obtain ⟨hd, hs⟩ := Prod.mk.inj (Option.some.inj hc)
  exact ⟨hd.symm, hs.symm⟩

/-! ## Whole texts -/

theorem quoteChars_append (cs r : List Char) :
    quoteChars cs ++ r = '"' :: (cs.flatMap escape ++ '"' :: r) := by
  rw [quoteChars, List.cons_append, List.append_assoc, List.singleton_append]

theorem escape_append_ne_quote (c : Char) (r s : List Char) : escape c ++ r ≠ '"' :: s := by
  intro h
  have hc := unescape_escape c r
  rw [h] at hc
  cases hc

/-- **Quoted texts end at one place.** They are the same, and what follows them is. -/
theorem quoteChars_append_inj {cs ds r s : List Char}
    (h : quoteChars cs ++ r = quoteChars ds ++ s) : cs = ds ∧ r = s := by
  rw [quoteChars_append, quoteChars_append] at h
  replace h := List.tail_eq_of_cons_eq h
  induction cs generalizing ds with
  | nil =>
      cases ds with
      | nil => exact ⟨rfl, List.tail_eq_of_cons_eq h⟩
      | cons d ds =>
          -- one text is at its last quote where the other has a character, which begins with none
          rw [List.flatMap_cons, List.append_assoc] at h
          exact absurd h.symm (escape_append_ne_quote d _ _)
  | cons c cs ih =>
      cases ds with
      | nil =>
          rw [List.flatMap_cons, List.append_assoc] at h
          exact absurd h (escape_append_ne_quote c _ _)
      | cons d ds =>
          rw [List.flatMap_cons, List.flatMap_cons, List.append_assoc, List.append_assoc] at h
          obtain ⟨rfl, hrest⟩ := escape_append_inj h
          obtain ⟨rfl, hr⟩ := ih hrest
          exact ⟨rfl, hr⟩

end TaggedValue.Text
