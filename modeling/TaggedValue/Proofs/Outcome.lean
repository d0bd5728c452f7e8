import Mathlib.Data.List.Forall2

/-!
# Outcomes and pairings

A computation that can fail succeeds exactly when each of its steps does. These are the equations
by which the proofs peel one step after another off a successful computation. A computation that
fails reports the first of all faults that its steps could find, and `Reports` follows that through
the same steps. A list that is gone through step by step is paired with its results, so a few lemmas
on such pairings stand here too.
-/

namespace TaggedValue

variable {ε ε' α β γ : Type}

/-! ## Outcomes -/

theorem bind_eq_ok_iff {x : Except ε α} {f : α → Except ε β} {b : β} :
    x.bind f = .ok b ↔ ∃ a, x = .ok a ∧ f a = .ok b := by
  cases x with
  | error e => simp [Except.bind]
  | ok a => simp [Except.bind]

theorem map_eq_ok_iff {x : Except ε α} {f : α → β} {b : β} :
    x.map f = .ok b ↔ ∃ a, x = .ok a ∧ f a = b := by
  cases x with
  | error e => simp [Except.map]
  | ok a => simp [Except.map]

theorem mapError_eq_ok_iff {x : Except ε α} {f : ε → ε'} {a : α} :
    x.mapError f = .ok a ↔ x = .ok a := by
  cases x with
  | error e => simp [Except.mapError]
  | ok b => simp [Except.mapError]

theorem mapError_eq_error_iff {x : Except ε α} {f : ε → ε'} {e' : ε'} :
    x.mapError f = .error e' ↔ ∃ e, x = .error e ∧ f e = e' := by
  cases x with
  | error e => simp [Except.mapError]
  | ok a => simp [Except.mapError]

/-- A list is gathered exactly when its first element is and the rest is. -/
theorem gather_eq_ok_iff {x : Except ε α} {r : Except ε (List β)} {f : α → β} {bs : List β} :
    (x.bind fun a => r.map (f a :: ·)) = .ok bs
      ↔ ∃ a, x = .ok a ∧ ∃ rest, r = .ok rest ∧ f a :: rest = bs := by
  rw [bind_eq_ok_iff]
  simp only [map_eq_ok_iff]

/-! ## The first fault -/

/-- A computation reports some faults: it fails with the first of them, and it succeeds if there is
none. -/
inductive Reports : Except ε α → List ε → Prop
  | ok (a : α) : Reports (.ok a) []
  | error (e : ε) (es : List ε) : Reports (.error e) (e :: es)

namespace Reports

variable {x : Except ε α} {es fs : List ε}

theorem exists_ok_iff (h : Reports x es) : (∃ a, x = .ok a) ↔ es = [] := by
  cases h with
  | ok a => simp
  | error e es => simp

theorem exists_error_iff (h : Reports x es) : (∃ e, x = .error e) ↔ ∃ e, e ∈ es := by
  cases h with
  | ok a => simp
  | error e es => simp

theorem eq_error_iff (h : Reports x es) {e : ε} : x = .error e ↔ es.head? = some e := by
  cases h with
  | ok a => simp
  | error d es => simp

theorem map (h : Reports x es) (f : α → β) : Reports (x.map f) es := by
  cases h with
  | ok a => exact .ok (f a)
  | error e es => exact .error e es

/-- The faults of the second step come behind those of the first, since they are found only if the
first finds none. -/
theorem bind {f : α → Except ε β} (h : Reports x es) (hf : ∀ a, x = .ok a → Reports (f a) fs) :
    Reports (x.bind f) (es ++ fs) := by
  cases h with
  | ok a => exact hf a rfl
  | error e es => exact .error e (es ++ fs)

theorem gather {r : Except ε (List β)} (h : Reports x es) (hr : Reports r fs) (f : α → β) :
    Reports (x.bind fun a => r.map (f a :: ·)) (es ++ fs) :=
  h.bind fun a _ => hr.map (f a :: ·)

end Reports

/-! ## Pairings -/

section Pairings

variable {R : α → β → Prop} {as : List α} {bs : List β}

theorem exists_mem_of_forall₂_left (h : List.Forall₂ R as bs) :
    ∀ a ∈ as, ∃ b ∈ bs, R a b := by
  induction h with
  | nil => exact nofun
  | @cons a b as bs hab _ ih =>
      refine List.forall_mem_cons.mpr ⟨⟨b, List.mem_cons_self, hab⟩, fun c hc => ?_⟩
      obtain ⟨d, hd, hcd⟩ := ih c hc
      exact ⟨d, List.mem_cons_of_mem b hd, hcd⟩

theorem exists_of_forall₂_left (h : List.Forall₂ R as bs) : ∀ a ∈ as, ∃ b, R a b := by
  intro a ha
  obtain ⟨b, -, hab⟩ := exists_mem_of_forall₂_left h a ha
  exact ⟨b, hab⟩

/-- What has a partner each has a list of partners. -/
theorem exists_forall₂ : ∀ {as : List α}, (∀ a ∈ as, ∃ b, R a b) → ∃ bs, List.Forall₂ R as bs
  | [], _ => ⟨[], .nil⟩
  | a :: as, h => by
      obtain ⟨⟨b, hb⟩, has⟩ := List.forall_mem_cons.mp h
      obtain ⟨bs, hbs⟩ := exists_forall₂ has
      exact ⟨b :: bs, .cons hb hbs⟩

theorem forall_of_forall₂_right {P : β → Prop} (h : List.Forall₂ R as bs)
    (hP : ∀ a ∈ as, ∀ b, R a b → P b) : ∀ b ∈ bs, P b := by
  induction h with
  | nil => exact nofun
  | cons hab _ ih =>
      obtain ⟨ha, has⟩ := List.forall_mem_cons.mp hP
      exact List.forall_mem_cons.mpr ⟨ha _ hab, ih has⟩

/-- A pairing turned around, by a step that is known for the elements on the left. -/
theorem forall₂_turn {S : β → α → Prop} (h : List.Forall₂ R as bs)
    (hturn : ∀ a ∈ as, ∀ b, R a b → S b a) : List.Forall₂ S bs as := by
  have hboth := (List.forall₂_and_left _ _).mpr ⟨hturn, h⟩
  exact List.Forall₂.flip (hboth.imp fun a b hab => hab.1 b hab.2)

/-- Relations that agree on the elements on the left pair them alike. -/
theorem forall₂_congr {S : α → β → Prop} (h : ∀ a ∈ as, ∀ b, R a b ↔ S a b) :
    List.Forall₂ R as bs ↔ List.Forall₂ S as bs := by
  induction as generalizing bs with
  | nil => rw [List.forall₂_nil_left_iff, List.forall₂_nil_left_iff]
  | cons a as ih =>
      obtain ⟨ha, has⟩ := List.forall_mem_cons.mp h
      simp only [List.forall₂_cons_left_iff, ha, ih has]

/-- Steps that all succeed are gathered into the list of their results. -/
theorem mapM_eq_ok_of_forall₂ {f : α → Except ε β}
    (h : List.Forall₂ (fun a b => f a = .ok b) as bs) : as.mapM f = .ok bs := by
  induction h with
  | nil => rfl
  | cons hab _ ih =>
      rw [List.mapM_cons, hab, ih]
      rfl

/-- Two pairings one after the other. -/
theorem forall₂_through {S : β → γ → Prop} {T : α → γ → Prop} {cs : List γ}
    (h : List.Forall₂ R as bs) (h' : List.Forall₂ S bs cs)
    (hT : ∀ a ∈ as, ∀ b c, R a b → S b c → T a c) : List.Forall₂ T as cs := by
  induction h generalizing cs with
  | nil =>
      cases h'
      exact .nil
  | cons hab _ ih =>
      cases h' with
      | cons hbc hrest =>
          refine .cons (hT _ List.mem_cons_self _ _ hab hbc) (ih hrest fun a ha => ?_)
          exact hT a (List.mem_cons_of_mem _ ha)

/-- A pairing by a relation that is equality for the elements on the left. -/
theorem eq_of_forall₂ {R : α → α → Prop} {bs : List α} (h : List.Forall₂ R as bs)
    (heq : ∀ a ∈ as, ∀ b, R a b → a = b) : as = bs := by
  have hboth := (List.forall₂_and_left _ _).mpr ⟨heq, h⟩
  have hpairs : List.Forall₂ (· = ·) as bs := hboth.imp fun a b hab => hab.1 b hab.2
  rwa [List.forall₂_eq_eq_eq] at hpairs

end Pairings

end TaggedValue
