import TaggedValue.Proofs.Json.Decoding
import TaggedValue.Properties.Json
import TaggedValue.Settings.Layer

/-!
# Properties keep values ordered

Properties are ordered if every value in them is. Binding, unbinding and merging keep that, and all
ways of reading properties establish it: from a map, from a tree, from text and from layers.
-/

namespace TaggedValue

/-! ## Tables with a property of all that is bound -/

namespace Table

variable {α : Type} {P : α → Prop}

/-- Whatever is bound has the property. -/
def All (P : α → Prop) (t : Table α) : Prop := ∀ b ∈ t.bindings, P b.2

theorem all_empty : All P (empty : Table α) := nofun

theorem all_insert {t : Table α} {x : α} (ht : t.All P) (hx : P x) (name : String) :
    (t.insert name x).All P := by
  intro b hb
  rcases mem_insertInto hb with rfl | hb
  · exact hx
  · exact ht b hb

theorem all_erase {t : Table α} (ht : t.All P) (name : String) : (t.erase name).All P :=
  fun b hb => ht b (List.mem_filter.mp hb).1

theorem all_foldl_insert {bs : List (String × α)} (hbs : ∀ b ∈ bs, P b.2) :
    ∀ {t : Table α}, t.All P → (bs.foldl (fun t b => t.insert b.1 b.2) t).All P := by
  induction bs with
  | nil => exact fun ht => ht
  | cons b bs ih =>
      obtain ⟨hb, hbs⟩ := List.forall_mem_cons.mp hbs
      exact fun ht => ih hbs (all_insert ht hb b.1)

theorem all_merge {t u : Table α} (ht : t.All P) (hu : u.All P) : (t.merge u).All P :=
  all_foldl_insert hu ht

theorem all_ofList {bs : List (String × α)} (hbs : ∀ b ∈ bs, P b.2) : (ofList bs).All P :=
  all_foldl_insert hbs all_empty

theorem mem_of_lookup {name : String} {x : α} {bs : List (String × α)}
    (h : lookup name bs = some x) : (name, x) ∈ bs := by
  induction bs with
  | nil => cases h
  | cons b bs ih =>
      rw [lookup] at h
      split at h
      · next heq =>
        cases h
        rw [heq]
        exact List.mem_cons_self
      · exact List.mem_cons_of_mem b (ih h)

theorem All.of_get? {t : Table α} {name : String} {x : α} (ht : t.All P)
    (h : t.get? name = some x) : P x :=
  ht _ (mem_of_lookup h)

end Table

/-! ## Ordered properties -/

namespace Properties

/-- All values are ordered. -/
def Ordered (p : Properties) : Prop := Table.All Value.Ordered p

theorem ordered_of_get? {p : Properties} {name : String} {v : Value} (hp : p.Ordered)
    (h : p.get? name = some v) : v.Ordered :=
  Table.All.of_get? hp h

theorem ordered_toValue {p : Properties} (hp : p.Ordered) : p.toValue.Ordered := by
  refine Value.ordered_ofPairs fun e he => ?_
  obtain ⟨b, hb, rfl⟩ := List.mem_map.mp he
  exact ⟨Value.ordered_str b.1, hp b hb⟩

/-! ## Read from a map -/

theorem ordered_of_addEntries {es : List Entry} (hes : ∀ e ∈ es, e.2.Ordered) :
    ∀ {p q : Properties}, p.Ordered → addEntries p es = .ok q → q.Ordered := by
  induction es with
  | nil =>
      intro p q hp h
      cases h
      exact hp
  | cons e es ih =>
      intro p q hp h
      obtain ⟨he, hrest⟩ := List.forall_mem_cons.mp hes
      obtain ⟨k, v⟩ := e
      unfold addEntries at h
      split at h
      · next heq => cases heq
      · next name w fs heq =>
        cases heq
        exact ih hrest (Table.all_insert hp he name) h
      · cases h

theorem ordered_of_ofValue {v : Value} {p : Properties} (hv : v.Ordered)
    (h : ofValue v = .ok p) : p.Ordered := by
  cases v with
  | map es =>
      have hes : ∀ e ∈ es, e.2.Ordered := fun e he => ((Value.ordered_map_iff.mp hv).2 e he).2
      exact ordered_of_addEntries hes Table.all_empty h
  | _ => cases h

/-! ## Read from trees and text -/

theorem ordered_of_ofMembers {ms : List (String × Json)} :
    ∀ {bs : List (String × Value)}, ofMembers ms = .ok bs → ∀ b ∈ bs, b.2.Ordered := by
  induction ms with
  | nil =>
      intro bs h
      cases h
      exact nofun
  | cons m ms ih =>
      intro bs h
      rw [ofMembers, gather_eq_ok_iff] at h
      obtain ⟨v, hv, rest, hrest, rfl⟩ := h
      exact List.forall_mem_cons.mpr ⟨Json.ordered_of_toValue hv, ih hrest⟩

theorem ordered_of_ofJson {j : Json} {p : Properties} (h : ofJson j = .ok p) : p.Ordered := by
  cases j with
  | object ms =>
      rw [ofJson, mapError_eq_ok_iff, map_eq_ok_iff] at h
      obtain ⟨bs, hbs, rfl⟩ := h
      exact Table.all_ofList (ordered_of_ofMembers hbs)
  | _ => cases h

theorem ordered_of_readMembers {fuel : Nat} :
    ∀ {p q : Properties} {cs rest : List Char}, p.Ordered →
      readMembers fuel p cs = .ok (q, rest) → q.Ordered := by
  induction fuel with
  | zero =>
      intro p q cs rest hp h
      cases h
  | succ fuel ih =>
      intro p q cs rest hp h
      unfold readMembers at h
      split at h
      · cases h
      · split at h
        · cases h
        · split at h
          · cases h
          · next hv =>
            have hinsert := Table.all_insert hp (Json.ordered_of_toValue hv)
            split at h
            · cases h
              exact hinsert _
            · exact ih (hinsert _) h
            · cases h

theorem ordered_of_ofJsonText {text : String} {p : Properties} (h : ofJsonText text = .ok p) :
    p.Ordered := by
  unfold ofJsonText at h
  split at h
  · obtain ⟨⟨q, rest⟩, hq, hp⟩ := bind_eq_ok_iff.mp h
    have hqp : q = p := by
      simp only at hp
      split at hp
      · cases hp
        rfl
      · cases hp
    subst hqp
    unfold readBody at hq
    split at hq
    · cases hq
      exact Table.all_empty
    · exact ordered_of_readMembers Table.all_empty hq
  · cases h
  · split at h <;> cases h

/-! ## Read from layers -/

theorem ordered_of_addSettings {ms : List (String × Setting)} :
    ∀ {p q : Properties}, p.Ordered → addSettings p ms = .ok q → q.Ordered := by
  induction ms with
  | nil =>
      intro p q hp h
      cases h
      exact hp
  | cons m ms ih =>
      intro p q hp h
      unfold addSettings at h
      split at h
      · cases h
      · split at h
        · cases h
        · next hv => exact ih (Table.all_insert hp (Json.ordered_of_toValue hv) m.1) h

theorem ordered_of_ofLayers {ls : List Layer} {p : Properties} (h : ofLayers ls = .ok p) :
    p.Ordered := by
  unfold ofLayers at h
  split at h
  · cases h
  · exact ordered_of_addSettings Table.all_empty h

theorem ordered_of_ofFile {path : String} {content : Option String} {p : Properties}
    (h : ofFile path content = .ok p) : p.Ordered := by
  unfold ofFile at h
  split at h
  · cases h
  · exact ordered_of_ofLayers h

end Properties

/-! ## One value from text -/

theorem Value.ordered_of_ofJsonText {text : String} {v : Value}
    (h : Value.ofJsonText text = .ok v) : v.Ordered := by
  unfold Value.ofJsonText at h
  split at h
  · cases h
  · split at h
    · cases h
    · next hw =>
      split at h
      · cases h
        exact Json.ordered_of_toValue hw
      · cases h

end TaggedValue
