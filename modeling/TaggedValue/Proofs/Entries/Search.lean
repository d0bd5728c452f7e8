import TaggedValue.Proofs.Order
import TaggedValue.Value.Entries

/-!
# Finding a key

A map looks for a key by halving. The outcome of a search is pinned down by what stands left and
right of it (`Place.Right`): before the place everything is smaller than the key, and behind it
everything is larger. At most one place is right, and where keys ascend the halving search ends at
it (`bisect_right`), so a search of `e :: es` is one comparison with `e` and a search of `es`
(`place_cons`). All that reads or changes maps is proved from that equation, by induction on the
entries.
-/

namespace TaggedValue.Entries

/-- The keys strictly ascend. -/
def Ascending (es : List Entry) : Prop :=
  es.Pairwise fun d e => d.1.compare e.1 = .lt

instance (es : List Entry) : Decidable (Ascending es) :=
  inferInstanceAs (Decidable (List.Pairwise _ _))

theorem ascending_cons {e : Entry} {es : List Entry} :
    Ascending (e :: es) ↔ (∀ d ∈ es, e.1.compare d.1 = .lt) ∧ Ascending es :=
  List.pairwise_cons

/-! ## The right place -/

namespace Place

/-- A place is right for a probe if it hits, or if nothing does and it divides what is smaller from
what is larger. -/
def Right (probe : Nat → Ordering) : Place → Prop
  | found i => probe i = .eq
  | absent i => (∀ j, j < i → probe j = .lt) ∧ ∀ j, i ≤ j → probe j = .gt

/-- The same place with one more entry in front. -/
def next : Place → Place
  | found i => found (i + 1)
  | absent i => absent (i + 1)

end Place

/-- A probe climbs if everything before a position that is not larger is smaller. -/
def Climbs (probe : Nat → Ordering) : Prop :=
  ∀ i j, i < j → probe j ≠ .gt → probe i = .lt

theorem Climbs.gt_of_ne_lt {probe : Nat → Ordering} (h : Climbs probe) {i j : Nat} (hij : i < j)
    (hi : probe i ≠ .lt) : probe j = .gt :=
  Decidable.byContradiction fun hj => hi (h i j hij hj)

/-- A probe that climbs has one right place. -/
theorem Place.Right.unique {probe : Nat → Ordering} (h : Climbs probe) :
    ∀ {p q : Place}, p.Right probe → q.Right probe → p = q
  | found i, found j, hi, hj => by
      rcases Nat.lt_trichotomy i j with hlt | heq | hgt
      · have hj' : probe j = .gt := h.gt_of_ne_lt hlt (by rw [hi]; simp)
        exact absurd (hj.symm.trans hj') (by simp)
      · rw [heq]
      · have hi' : probe i = .gt := h.gt_of_ne_lt hgt (by rw [hj]; simp)
        exact absurd (hi.symm.trans hi') (by simp)
  | found i, absent j, hi, ⟨hlow, hhigh⟩ => by
      rcases Nat.lt_or_ge i j with hlt | hge
      · exact absurd (hi.symm.trans (hlow i hlt)) (by simp)
      · exact absurd (hi.symm.trans (hhigh i hge)) (by simp)
  | absent i, found j, ⟨hlow, hhigh⟩, hj => by
      rcases Nat.lt_or_ge j i with hlt | hge
      · exact absurd (hj.symm.trans (hlow j hlt)) (by simp)
      · exact absurd (hj.symm.trans (hhigh j hge)) (by simp)
  | absent i, absent j, ⟨hlow, hhigh⟩, ⟨hlow', hhigh'⟩ => by
      rcases Nat.lt_trichotomy i j with hlt | heq | hgt
      · exact absurd ((hlow' i hlt).symm.trans (hhigh i (Nat.le_refl i))) (by simp)
      · rw [heq]
      · exact absurd ((hlow j hgt).symm.trans (hhigh' j (Nat.le_refl j))) (by simp)

/-- Halving keeps everything below the stretch smaller and everything above it larger, and the fuel
outlasts the stretch. -/
theorem bisect_right {probe : Nat → Ordering} (h : Climbs probe) :
    ∀ (fuel low high : Nat), low ≤ high → high ≤ low + fuel →
      (∀ j, j < low → probe j = .lt) → (∀ j, high ≤ j → probe j = .gt) →
      (bisect probe fuel low high).Right probe
  | 0, low, high, hle, hfuel, hlow, hhigh => by
      have heq : low = high := by omega
      subst heq
      exact ⟨hlow, hhigh⟩
  | fuel + 1, low, high, hle, hfuel, hlow, hhigh => by
      rw [bisect]
      split
      case isTrue hlt =>
        have hmid : low + (high - low) / 2 < high := by omega
        dsimp only
        split
        case h_1 heq => exact heq
        case h_2 hsmall =>
          refine bisect_right h fuel _ high (by omega) (by omega) (fun j hj => ?_) hhigh
          rcases Nat.lt_succ_iff_lt_or_eq.mp hj with hj | rfl
          · exact h j _ hj (by rw [hsmall]; simp)
          · exact hsmall
        case h_3 hlarge =>
          refine bisect_right h fuel low _ (by omega) (by omega) hlow (fun j hj => ?_)
          rcases Nat.lt_or_eq_of_le hj with hj | rfl
          · exact h.gt_of_ne_lt hj (by rw [hlarge]; simp)
          · exact hlarge
      case isFalse hge =>
        have heq : low = high := by omega
        subst heq
        exact ⟨hlow, hhigh⟩

/-! ## Searching entries -/

theorem probe_of_length_le {es : List Entry} {key : Value} {j : Nat} (h : es.length ≤ j) :
    probe es key j = .gt := by
  rw [probe, List.getElem?_eq_none h]

theorem probe_getElem {es : List Entry} {key : Value} {j : Nat} (h : j < es.length) :
    probe es key j = es[j].1.compare key := by
  rw [probe, List.getElem?_eq_getElem h]

theorem Ascending.climbs {es : List Entry} (h : Ascending es) (key : Value) :
    Climbs (probe es key) := by
  intro i j hij hj
  have hjl : j < es.length := Nat.lt_of_not_le fun hge => hj (probe_of_length_le hge)
  rw [probe_getElem hjl, ne_eq, Ordering.ne_gt_iff_isLE] at hj
  rw [probe_getElem (Nat.lt_trans hij hjl)]
  have hlt : es[i].1.compare es[j].1 = .lt := List.pairwise_iff_getElem.mp h i j _ hjl hij
  exact Std.TransCmp.lt_of_lt_of_isLE hlt hj

/-- Where keys ascend, the search ends at the right place. -/
theorem place_right {es : List Entry} (h : Ascending es) (key : Value) :
    (place es key).Right (probe es key) :=
  bisect_right (h.climbs key) es.length 0 es.length (Nat.zero_le _) (by omega)
    (fun j hj => absurd hj (Nat.not_lt_zero j)) (fun _ hj => probe_of_length_le hj)

theorem place_eq_of_right {es : List Entry} (h : Ascending es) {key : Value} {p : Place}
    (hp : p.Right (probe es key)) : place es key = p :=
  Place.Right.unique (h.climbs key) (place_right h key) hp

theorem Place.Right.next {e : Entry} {es : List Entry} {key : Value}
    (he : e.1.compare key = .lt) :
    ∀ {p : Place}, p.Right (probe es key) → p.next.Right (probe (e :: es) key)
  | found _, hp => hp
  | absent i, ⟨hlow, hhigh⟩ => by
      refine ⟨fun j hj => ?_, fun j hj => ?_⟩
      · cases j with
        | zero => exact he
        | succ j => exact hlow j (by omega)
      · cases j with
        | zero => omega
        | succ j => exact hhigh j (by omega)

/-- A search looks at the first entry, and perhaps at the others. -/
theorem place_cons {e : Entry} {es : List Entry} (h : Ascending (e :: es)) (key : Value) :
    place (e :: es) key =
      match e.1.compare key with
      | .lt => (place es key).next
      | .eq => .found 0
      | .gt => .absent 0 := by
  apply place_eq_of_right h
  cases he : e.1.compare key with
  | lt => exact (place_right (ascending_cons.mp h).2 key).next he
  | eq => exact he
  | gt =>
      refine ⟨fun j hj => absurd hj (Nat.not_lt_zero j), fun j _ => ?_⟩
      cases j with
      | zero => exact he
      | succ j =>
          have hfirst : probe (e :: es) key 0 = .gt := he
          exact (h.climbs key).gt_of_ne_lt (Nat.succ_pos j) (by simp [hfirst])

/-- A search ends with a hit exactly where an entry has the key. -/
theorem place_eq_found_iff {es : List Entry} (h : Ascending es) {key : Value} {i : Nat} :
    place es key = .found i ↔ ∃ e, es[i]? = some e ∧ e.1.compare key = .eq := by
  constructor
  · intro hp
    have hr : probe es key i = .eq := by
      have hright := place_right h key
      rw [hp] at hright
      exact hright
    cases he : es[i]? with
    | none => rw [probe, he] at hr; exact absurd hr (by simp)
    | some e => rw [probe, he] at hr; exact ⟨e, rfl, hr⟩
  · rintro ⟨e, he, heq⟩
    apply place_eq_of_right h
    show probe es key i = .eq
    rw [probe, he]
    exact heq

end TaggedValue.Entries
