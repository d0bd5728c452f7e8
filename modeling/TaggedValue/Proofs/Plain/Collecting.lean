import TaggedValue.Plain.Extract
import TaggedValue.Proofs.Entries.Names
import TaggedValue.Proofs.Outcome

/-!
# Items and entries are extracted one by one

Extraction goes through items and entries and stops at the first that fails. So it succeeds exactly if
each of them is extracted, and what it gives is paired with them: an item with what was extracted from
it, an entry with the name that is its key and what was extracted from its value. All else that is
proved of lists and tables starts from these pairings.
-/

namespace TaggedValue

open Entries (named)

variable {α : Type} {item : Value → Except Fault α}

/-- Items are extracted exactly if each of them is. -/
theorem extractItems_eq_ok_iff {vs : List Value} {xs : List α} :
    extractItems item vs = .ok xs ↔ List.Forall₂ (fun v x => item v = .ok x) vs xs := by
  induction vs generalizing xs with
  | nil => rw [extractItems, List.forall₂_nil_left_iff, Except.ok.injEq, eq_comm]
  | cons v vs ih =>
      rw [extractItems, gather_eq_ok_iff, List.forall₂_cons_left_iff]
      simp only [ih]
      constructor
      · rintro ⟨x, hx, rest, hrest, rfl⟩
        exact ⟨x, rest, hx, hrest, rfl⟩
      · rintro ⟨x, rest, hx, hrest, rfl⟩
        exact ⟨x, hx, rest, hrest, rfl⟩

theorem Value.extractText_eq_ok_iff {v : Value} {s : String} :
    v.extractText = .ok s ↔ v = .str s := by
  cases v with
  | str t => rw [Value.extractText, Except.ok.injEq, Value.str.injEq]
  | _ => exact iff_of_false nofun nofun

/-- Entries are extracted exactly if their keys are names and their values are extracted. -/
theorem extractEntries_eq_ok_iff {es : List Entry} {bs : List (String × α)} :
    extractEntries item es = .ok bs ↔
      List.Forall₂ (fun e b => e.1 = .str b.1 ∧ item e.2 = .ok b.2) es bs := by
  induction es generalizing bs with
  | nil => rw [extractEntries, List.forall₂_nil_left_iff, Except.ok.injEq, eq_comm]
  | cons e es ih =>
      rw [extractEntries, bind_eq_ok_iff, List.forall₂_cons_left_iff]
      simp only [Value.extractText_eq_ok_iff, gather_eq_ok_iff, ih]
      constructor
      · rintro ⟨name, hname, x, hx, rest, hrest, rfl⟩
        exact ⟨(name, x), rest, ⟨hname, hx⟩, hrest, rfl⟩
      · rintro ⟨⟨name, x⟩, rest, ⟨hname, hx⟩, hrest, rfl⟩
        exact ⟨name, hname, x, hx, rest, hrest, rfl⟩

/-! ## What was boxed -/

theorem extractItems_map {box : α → Value} (h : ∀ x, item (box x) = .ok x) (xs : List α) :
    extractItems item (xs.map box) = .ok xs := by
  rw [extractItems_eq_ok_iff, List.forall₂_map_left_iff, List.forall₂_same]
  intro x _
  exact h x

theorem extractEntries_named {box : α → Value} (h : ∀ x, item (box x) = .ok x)
    (bs : List (String × α)) : extractEntries item (named box bs) = .ok bs := by
  rw [extractEntries_eq_ok_iff, named, List.forall₂_map_left_iff, List.forall₂_same]
  intro b _
  exact ⟨rfl, h b.2⟩

end TaggedValue
