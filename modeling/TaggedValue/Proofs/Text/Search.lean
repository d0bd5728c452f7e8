import Mathlib.Data.List.Infix
import Mathlib.Data.Nat.Find
import TaggedValue.Proofs.Positions

/-!
# Searching bytes finds characters

A text is searched along its bytes, and the offset is counted in characters afterwards. The two views
agree because UTF-8 shows where characters begin. A needle begins with the first byte of a character, so
it stands at no byte that continues one, and where it stands at the first byte of a character it stands
for the same characters. The bytes before that are those of whole characters, each of which begins once.
-/

namespace TaggedValue

namespace Text

/-! ## Blocks in lists -/

/-- A block stands in a list behind this many elements. -/
def StandsAt {α : Type} (block list : List α) (n : Nat) : Prop :=
  ∃ before after, list = before ++ (block ++ after) ∧ before.length = n

section Blocks

variable {α : Type} {block list : List α} {n : Nat}

theorem standsAt_zero_iff : StandsAt block list 0 ↔ block <+: list := by
  constructor
  · rintro ⟨before, after, rfl, hlength⟩
    cases List.length_eq_zero_iff.mp hlength
    exact ⟨after, rfl⟩
  · rintro ⟨after, rfl⟩
    exact ⟨[], after, rfl, rfl⟩

theorem standsAt_succ_iff {a : α} {as : List α} :
    StandsAt block (a :: as) (n + 1) ↔ StandsAt block as n := by
  constructor
  · rintro ⟨before, after, hlist, hlength⟩
    cases before with
    | nil => cases hlength
    | cons b before =>
        obtain ⟨rfl, rfl⟩ := List.cons.inj hlist
        exact ⟨before, after, rfl, Nat.succ.inj hlength⟩
  · rintro ⟨before, after, rfl, rfl⟩
    exact ⟨a :: before, after, rfl, rfl⟩

theorem standsAt_nil_iff : StandsAt block [] n ↔ block = [] ∧ n = 0 := by
  constructor
  · rintro ⟨before, after, hlist, rfl⟩
    obtain ⟨rfl, hrest⟩ := List.append_eq_nil_iff.mp hlist.symm
    exact ⟨(List.append_eq_nil_iff.mp hrest).1, rfl⟩
  · rintro ⟨rfl, rfl⟩
    exact ⟨[], [], rfl, rfl⟩

theorem StandsAt.le (h : StandsAt block list n) : n + block.length ≤ list.length := by
  obtain ⟨before, after, rfl, rfl⟩ := h
  simp only [List.length_append]
  omega

theorem StandsAt.getElem? (h : StandsAt block list n) {k : Nat} (hk : k < block.length) :
    list[n + k]? = block[k]? := by
  obtain ⟨before, after, rfl, rfl⟩ := h
  rw [List.getElem?_append_right (Nat.le_add_right _ _), Nat.add_sub_cancel_left,
    List.getElem?_append_left hk]

/-- A block stands here and nowhere before. -/
def FirstAt {α : Type} (block list : List α) (n : Nat) : Prop :=
  StandsAt block list n ∧ ∀ m < n, ¬ StandsAt block list m

theorem firstAt_zero_iff : FirstAt block list 0 ↔ block <+: list := by
  rw [FirstAt, standsAt_zero_iff]
  exact and_iff_left nofun

theorem firstAt_succ_iff {a : α} {as : List α} :
    FirstAt block (a :: as) (n + 1) ↔ ¬ block <+: a :: as ∧ FirstAt block as n := by
  rw [FirstAt, FirstAt, standsAt_succ_iff, ← standsAt_zero_iff]
  constructor
  · rintro ⟨hn, hbefore⟩
    refine ⟨hbefore 0 (Nat.succ_pos n), hn, fun m hm => ?_⟩
    exact fun h => hbefore (m + 1) (Nat.succ_lt_succ hm) (standsAt_succ_iff.mpr h)
  · rintro ⟨hzero, hn, hbefore⟩
    refine ⟨hn, fun m hm => ?_⟩
    cases m with
    | zero => exact hzero
    | succ m => exact fun h => hbefore m (Nat.lt_of_succ_lt_succ hm) (standsAt_succ_iff.mp h)

variable [BEq α] [LawfulBEq α]

theorem findBlock_of_isPrefix {a : α} {as : List α} (h : block <+: a :: as) :
    findBlock block (a :: as) = some 0 :=
  if_pos (List.isPrefixOf_iff_prefix.mpr h)

theorem findBlock_of_not_isPrefix {a : α} {as : List α} (h : ¬ block <+: a :: as) :
    findBlock block (a :: as) = (findBlock block as).map (· + 1) :=
  if_neg fun hfront => h (List.isPrefixOf_iff_prefix.mp hfront)

/-- The search stops at the first place. -/
theorem findBlock_eq_some_iff : findBlock block list = some n ↔ FirstAt block list n := by
  induction list generalizing n with
  | nil =>
      rw [findBlock, FirstAt, standsAt_nil_iff]
      cases block with
      | nil =>
          constructor
          · rintro ⟨⟩
            exact ⟨⟨rfl, rfl⟩, nofun⟩
          · rintro ⟨⟨-, rfl⟩, -⟩
            rfl
      | cons b block => exact iff_of_false nofun fun h => nomatch h.1.1
  | cons a as ih =>
      by_cases hfront : block <+: a :: as
      · rw [findBlock_of_isPrefix hfront]
        cases n with
        | zero => exact iff_of_true rfl (firstAt_zero_iff.mpr hfront)
        | succ n => exact iff_of_false nofun fun h => (firstAt_succ_iff.mp h).1 hfront
      · rw [findBlock_of_not_isPrefix hfront]
        cases n with
        | zero =>
            refine iff_of_false ?_ fun h => hfront (firstAt_zero_iff.mp h)
            simp
        | succ n =>
            rw [firstAt_succ_iff, ← ih]
            simp [hfront]

/-- It finds nothing only if there is no place. -/
theorem findBlock_eq_none_iff : findBlock block list = none ↔ ∀ n, ¬ StandsAt block list n := by
  classical
  constructor
  · intro h n hn
    have hplace : ∃ n, StandsAt block list n := ⟨n, hn⟩
    have hfirst : FirstAt block list (Nat.find hplace) :=
      ⟨Nat.find_spec hplace, fun m hm => Nat.find_min hplace hm⟩
    rw [findBlock_eq_some_iff.mpr hfirst] at h
    cases h
  · intro h
    cases hfind : findBlock block list with
    | none => rfl
    | some n => exact absurd (findBlock_eq_some_iff.mp hfind).1 (h n)

end Blocks

/-! ## Characters in bytes -/

theorem bytes_cons (c : Char) (cs : List Char) :
    bytes (c :: cs) = String.utf8EncodeChar c ++ bytes cs := List.flatMap_cons

/-- Bytes none of which begins a character. -/
def Continues (bs : List UInt8) : Prop := ∀ b ∈ bs, ¬ b.IsUTF8FirstByte

/-- A character begins with its first byte and continues with the others. -/
theorem exists_utf8EncodeChar (c : Char) :
    ∃ b tail, String.utf8EncodeChar c = b :: tail ∧ b.IsUTF8FirstByte ∧ Continues tail := by
  have hfirst : ∀ (i : Nat) (hi : i < (String.utf8EncodeChar c).length),
      (String.utf8EncodeChar c)[i].IsUTF8FirstByte ↔ i = 0 :=
    fun i hi => UInt8.isUTF8FirstByte_getElem_utf8EncodeChar
  cases hbytes : String.utf8EncodeChar c with
  | nil => exact absurd hbytes String.utf8EncodeChar_ne_nil
  | cons b tail =>
      simp only [hbytes] at hfirst
      refine ⟨b, tail, rfl, (hfirst 0 (Nat.succ_pos _)).mpr rfl, fun d hd => ?_⟩
      obtain ⟨i, hi, rfl⟩ := List.getElem_of_mem hd
      intro h
      cases (hfirst (i + 1) (Nat.succ_lt_succ hi)).mp h

/-- **No character is the front of another.** The bytes of a character are found again whatever
follows. -/
theorem utf8EncodeChar_append_inj {c d : Char} {r s : List UInt8}
    (h : String.utf8EncodeChar c ++ r = String.utf8EncodeChar d ++ s) : c = d ∧ r = s := by
  have hdecode : ∀ (e : Char) (t : List UInt8),
      (String.utf8EncodeChar e ++ t).toByteArray.utf8DecodeChar? 0 = some e := by
    intro e t
    rw [List.toByteArray_append]
    exact ByteArray.utf8DecodeChar?_utf8EncodeChar_append
  have hc := hdecode c r
  rw [h, hdecode d s, Option.some_inj] at hc
  subst hc
  exact ⟨rfl, List.append_cancel_left h⟩

theorem bytes_prefix_iff {xs ys : List Char} : bytes xs <+: bytes ys ↔ xs <+: ys := by
  induction xs generalizing ys with
  | nil => exact iff_of_true List.nil_prefix List.nil_prefix
  | cons x xs ih =>
      cases ys with
      | nil =>
          obtain ⟨b, tail, hx, -⟩ := exists_utf8EncodeChar x
          rw [bytes_cons, hx]
          exact iff_of_false (by simp [bytes]) (by simp)
      | cons y ys =>
          rw [bytes_cons, bytes_cons, List.cons_prefix_cons, ← ih]
          constructor
          · rintro ⟨rest, hrest⟩
            rw [List.append_assoc] at hrest
            obtain ⟨hc, hrest'⟩ := utf8EncodeChar_append_inj hrest
            exact ⟨hc, rest, hrest'⟩
          · rintro ⟨rfl, rest, hrest⟩
            exact ⟨rest, by rw [List.append_assoc, hrest]⟩

theorem countStarts_append (as bs : List UInt8) :
    countStarts (as ++ bs) = countStarts as + countStarts bs := List.countP_append

/-- As many characters begin in bytes as the bytes are of. -/
theorem countStarts_bytes (cs : List Char) : countStarts (bytes cs) = cs.length := by
  induction cs with
  | nil => rfl
  | cons c cs ih =>
      obtain ⟨b, tail, hc, hb, htail⟩ := exists_utf8EncodeChar c
      have hcontinues : countStarts tail = 0 := by
        rw [countStarts, List.countP_eq_zero]
        intro d hd
        simpa using htail d hd
      rw [bytes_cons, countStarts_append, ih, hc, countStarts, List.countP_cons_of_pos (by simpa using hb),
        ← countStarts, hcontinues, List.length_cons, Nat.zero_add, Nat.add_comm]

/-! ## The two views of a search -/

/-- Nothing that begins with a character stands where another character continues. -/
theorem findBlock_append_of_continues {b : UInt8} {block bs : List UInt8} (hb : b.IsUTF8FirstByte)
    {tail : List UInt8} (htail : Continues tail) :
    findBlock (b :: block) (tail ++ bs) = (findBlock (b :: block) bs).map (· + tail.length) := by
  induction tail with
  | nil =>
      rw [List.nil_append]
      cases findBlock (b :: block) bs with
      | none => rfl
      | some n => rfl
  | cons d tail ih =>
      obtain ⟨hd, htail⟩ := List.forall_mem_cons.mp htail
      have hne : b ≠ d := fun h => hd (h ▸ hb)
      have hfront : ¬ (b :: block) <+: d :: (tail ++ bs) :=
        fun h => hne (List.cons_prefix_cons.mp h).1
      rw [List.cons_append, findBlock_of_not_isPrefix hfront, ih htail]
      cases findBlock (b :: block) bs with
      | none => rfl
      | some n => exact congrArg some (Nat.add_assoc n tail.length 1)

/-- **The bytes before a place are those of the characters before it.** -/
theorem findBlock_bytes (needle text : List Char) :
    findBlock (bytes needle) (bytes text) =
      (findBlock needle text).map fun n => (bytes (text.take n)).length := by
  induction text with
  | nil =>
      cases needle with
      | nil => rfl
      | cons x xs =>
          obtain ⟨b, tail, hx, -⟩ := exists_utf8EncodeChar x
          rw [bytes_cons, hx]
          rfl
  | cons c cs ih =>
      by_cases hfront : needle <+: c :: cs
      · rw [findBlock_eq_some_iff.mpr (firstAt_zero_iff.mpr hfront),
          findBlock_eq_some_iff.mpr (firstAt_zero_iff.mpr (bytes_prefix_iff.mpr hfront))]
        rfl
      · cases needle with
        | nil => exact absurd List.nil_prefix hfront
        | cons x xs =>
            obtain ⟨b, block, hx, hb, hblock⟩ := exists_utf8EncodeChar x
            obtain ⟨d, tail, hc, hd, htail⟩ := exists_utf8EncodeChar c
            have hbytes : ¬ bytes (x :: xs) <+: bytes (c :: cs) :=
              fun h => hfront (bytes_prefix_iff.mp h)
            -- Not found at the first byte, and the needle cannot begin in the rest of the character.
            rw [bytes_cons, bytes_cons, hx, hc, List.cons_append, List.cons_append] at hbytes
            rw [bytes_cons, bytes_cons, hx, hc, List.cons_append, List.cons_append,
              findBlock_of_not_isPrefix hbytes, findBlock_append_of_continues hb htail,
              ← List.cons_append, ← hx, ← bytes_cons, ih, findBlock_of_not_isPrefix hfront]
            cases findBlock (x :: xs) cs with
            | none => rfl
            | some n =>
                refine congrArg some ?_
                change (bytes (cs.take n)).length + tail.length + 1 = (bytes (c :: cs.take n)).length
                rw [bytes_cons, hc, List.length_append, List.length_cons]
                omega

/-- **Searching bytes finds characters.** -/
theorem findOffset_eq_findBlock (needle text : List Char) :
    findOffset needle text = findBlock needle text := by
  rw [findOffset, findBlock_bytes]
  cases hfind : findBlock needle text with
  | none => rfl
  | some n =>
      have hn : n ≤ text.length :=
        (Nat.le_add_right _ _).trans (findBlock_eq_some_iff.mp hfind).1.le
      have hsplit : bytes text = bytes (text.take n) ++ bytes (text.drop n) := by
        rw [bytes, bytes, bytes, ← List.flatMap_append, List.take_append_drop]
      refine congrArg some ?_
      change countStarts ((bytes text).take (bytes (text.take n)).length) = n
      rw [hsplit, List.take_left, countStarts_bytes, List.length_take, Nat.min_eq_left hn]

end Text

namespace Sequence

open Text (StandsAt FirstAt)

/-! ## The law -/

theorem indexOf?_text_eq_some_iff {s t : String} {i : Nat} :
    (text s).indexOf? (.str t) = some i ↔ FirstAt t.toList s.toList i := by
  rw [indexOf?, Text.findOffset_eq_findBlock, Text.findBlock_eq_some_iff]

theorem indexOf?_text_eq_none_iff {s t : String} :
    (text s).indexOf? (.str t) = none ↔ ∀ i, ¬ StandsAt t.toList s.toList i := by
  rw [indexOf?, Text.findOffset_eq_findBlock, Text.findBlock_eq_none_iff]

/-- Where one text stands in another, both have the same elements. -/
theorem exists_get_of_standsAt {s t : String} {i j : Nat} (h : StandsAt t.toList s.toList i)
    (hj : j < (text t).length) :
    ∃ x, (text s).get (i + j) = .ok x ∧ (text t).get j = .ok x := by
  obtain ⟨x, hx, hget⟩ := exists_get hj
  refine ⟨x, ?_, hget⟩
  rw [get_eq_ok_iff, ← hx, elements, elements, List.getElem?_map, List.getElem?_map,
    h.getElem? hj]

theorem contains_str (s t : String) :
    (Value.str s).contains (.str t) = .ok ((text s).indexOf? (.str t)).isSome := rfl

/-- What a search for one text in another gives. -/
structure SearchLaw (s t : String) : Prop where
  /-- An offset is found if and only if the needle stands there and nowhere before. -/
  found : ∀ i, (text s).indexOf? (.str t) = some i ↔ FirstAt t.toList s.toList i
  missing : (text s).indexOf? (.str t) = none ↔ ∀ i, ¬ StandsAt t.toList s.toList i
  empty : t = "" → (text s).indexOf? (.str t) = some 0
  /-- What is found lies within the text, -/
  room : ∀ i, (text s).indexOf? (.str t) = some i → i + (text t).length ≤ (text s).length
  /-- with the same elements at its positions, -/
  elements : ∀ i, (text s).indexOf? (.str t) = some i → ∀ j < (text t).length,
    ∃ x, (text s).get (i + j) = .ok x ∧ (text t).get j = .ok x
  /-- and at all indices that address them. -/
  index : ∀ i, (text s).indexOf? (.str t) = some i → ∀ j < (text t).length, ∀ k l : Int64,
    Addresses (text s).length k.toInt (i + j) → Addresses (text t).length l.toInt j →
    (Value.str s).index (.int k) = (Value.str t).index (.int l)
  contains : (Value.str s).contains (.str t) = .ok true ↔ ∃ i, (text s).indexOf? (.str t) = some i
  lacks : (Value.str s).contains (.str t) = .ok false ↔ (text s).indexOf? (.str t) = none

/-- **Texts are searched by code points**, whatever these are in bytes: the offset that is found is the
first one at which the needle stands, and the needle is contained if and only if there is one. -/
theorem text_search_is_exact (s t : String) : SearchLaw s t where
  found _ := indexOf?_text_eq_some_iff
  missing := indexOf?_text_eq_none_iff
  empty := by
    rintro rfl
    exact indexOf?_text_eq_some_iff.mpr (Text.firstAt_zero_iff.mpr List.nil_prefix)
  room i hi := (indexOf?_text_eq_some_iff.mp hi).1.le
  elements i hi j hj := exists_get_of_standsAt (indexOf?_text_eq_some_iff.mp hi).1 hj
  index i hi j hj k l hk hl := by
    obtain ⟨x, hs, ht⟩ := exists_get_of_standsAt (indexOf?_text_eq_some_iff.mp hi).1 hj
    have hkx : (Value.str s).index (.int k) = (text s).get (i + j) := index_of_addresses hk
    have hlx : (Value.str t).index (.int l) = (text t).get j := index_of_addresses hl
    rw [hkx, hlx, hs, ht]
  contains := by
    rw [contains_str, Except.ok.injEq, Option.isSome_iff_exists]
  lacks := by
    rw [contains_str, Except.ok.injEq, Option.isSome_eq_false_iff, Option.isNone_iff_eq_none]

/-- Code points of one, two and three bytes, and a needle that begins twice before it ends. -/
example : (text "∞ééb").indexOf? (.str "éb") = some 2 := by
  decide

end Sequence

end TaggedValue
