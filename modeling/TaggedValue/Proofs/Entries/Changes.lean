import TaggedValue.Proofs.Entries.Search

/-!
# Changing and building keeps keys ascending

Each operation that makes entries is shown to keep their keys strictly ascending, and to make no
keys and values up: every part of the result was a part of what went in. Binding a key is followed
along the entries by its three equations; unbinding leaves a sublist; and building sorts, weakly
ascending, and then lets the runs of equal keys collapse.
-/

namespace TaggedValue.Entries

/-! ## Binding a key -/

theorem set_nil (key x : Value) : set [] key x = [(key, x)] := rfl

/-- Binding a key goes past smaller keys, replaces an equal one, and stops before a larger one. -/
theorem set_cons {e : Entry} {es : List Entry} (h : Ascending (e :: es)) (key x : Value) :
    set (e :: es) key x =
      match e.1.compare key with
      | .lt => e :: set es key x
      | .eq => (key, x) :: es
      | .gt => (key, x) :: e :: es := by
  rw [set, place_cons h]
  cases e.1.compare key with
  | lt =>
      rw [set]
      cases place es key with
      | found i => rfl
      | absent i => rfl
  | eq => rfl
  | gt => rfl

theorem mem_set {es : List Entry} (h : Ascending es) {key x : Value} {d : Entry}
    (hd : d ∈ set es key x) : d = (key, x) ∨ d ∈ es := by
  induction es with
  | nil =>
      rw [set_nil, List.mem_singleton] at hd
      exact Or.inl hd
  | cons e es ih =>
      rw [set_cons h] at hd
      cases hc : e.1.compare key with
      | lt =>
          rw [hc] at hd
          rcases List.mem_cons.mp hd with rfl | hd
          · exact Or.inr List.mem_cons_self
          · exact (ih (ascending_cons.mp h).2 hd).imp_right (List.mem_cons_of_mem e)
      | eq =>
          rw [hc] at hd
          exact (List.mem_cons.mp hd).imp_right (List.mem_cons_of_mem e)
      | gt =>
          rw [hc] at hd
          exact List.mem_cons.mp hd

theorem ascending_set {es : List Entry} (h : Ascending es) (key x : Value) :
    Ascending (set es key x) := by
  induction es with
  | nil => exact List.pairwise_singleton _ _
  | cons e es ih =>
      obtain ⟨he, hes⟩ := ascending_cons.mp h
      rw [set_cons h]
      cases hc : e.1.compare key with
      | lt =>
          refine ascending_cons.mpr ⟨fun d hd => ?_, ih hes⟩
          rcases mem_set hes hd with rfl | hd
          · exact hc
          · exact he d hd
      | eq =>
          have hkey : key.compare e.1 = .eq := Std.OrientedCmp.eq_symm hc
          exact ascending_cons.mpr
            ⟨fun d hd => Std.TransCmp.lt_of_eq_of_lt hkey (he d hd), hes⟩
      | gt =>
          have hkey : key.compare e.1 = .lt := Std.OrientedCmp.lt_of_gt hc
          refine ascending_cons.mpr ⟨fun d hd => ?_, h⟩
          rcases List.mem_cons.mp hd with rfl | hd
          · exact hkey
          · exact Std.TransCmp.lt_trans hkey (he d hd)

/-! ## Unbinding a key -/

theorem erase_sublist (es : List Entry) (key : Value) : (erase es key).1.Sublist es := by
  rw [erase]
  cases place es key with
  | found i => exact List.eraseIdx_sublist ..
  | absent i => exact List.Sublist.refl es

theorem ascending_erase {es : List Entry} (h : Ascending es) (key : Value) :
    Ascending (erase es key).1 :=
  List.Pairwise.sublist (erase_sublist es key) h

/-- What unbinding gives back is what was bound. -/
theorem erase_snd (es : List Entry) (key : Value) : (erase es key).2 = find? es key := by
  rw [erase, find?]
  cases place es key with
  | found i => rfl
  | absent i => rfl

theorem get_eq_ok_iff {es : List Entry} {key x : Value} :
    get es key = .ok x ↔ find? es key = some x := by
  rw [get]
  cases find? es key with
  | none => simp
  | some y => simp

theorem exists_mem_of_find? {es : List Entry} {key x : Value} (h : find? es key = some x) :
    ∃ e ∈ es, e.2 = x := by
  rw [find?] at h
  cases hp : place es key with
  | found i =>
      rw [hp] at h
      obtain ⟨e, he, hx⟩ := Option.map_eq_some_iff.mp h
      exact ⟨e, List.mem_of_getElem? he, hx⟩
  | absent i => rw [hp] at h; cases h

/-! ## Sorting -/

/-- The keys ascend, but some may be equal. -/
def WeaklyAscending (es : List Entry) : Prop :=
  es.Pairwise fun d e => (d.1.compare e.1).isLE

/-- Sorting moves entries, and neither adds nor drops any. -/
theorem perm_insertByKey (e : Entry) (es : List Entry) : (insertByKey e es).Perm (e :: es) := by
  induction es with
  | nil => exact List.Perm.refl [e]
  | cons f fs ih =>
      rw [insertByKey]
      split
      · exact (ih.cons f).trans (List.Perm.swap e f fs)
      · exact List.Perm.refl (e :: f :: fs)

theorem perm_sortByKey (es : List Entry) : (sortByKey es).Perm es := by
  induction es with
  | nil => exact List.Perm.refl []
  | cons e es ih => exact (perm_insertByKey e (sortByKey es)).trans (ih.cons e)

theorem weaklyAscending_insertByKey {e : Entry} {es : List Entry} (h : WeaklyAscending es) :
    WeaklyAscending (insertByKey e es) := by
  induction es with
  | nil => exact List.pairwise_singleton _ _
  | cons f fs ih =>
      obtain ⟨hf, hfs⟩ := List.pairwise_cons.mp h
      rw [insertByKey]
      split
      case isTrue hgt =>
        have hfe : (f.1.compare e.1).isLE :=
          Ordering.isLE_of_eq_lt (Std.OrientedCmp.lt_of_gt (beq_iff_eq.mp hgt))
        refine List.pairwise_cons.mpr ⟨fun d hd => ?_, ih hfs⟩
        rcases List.mem_cons.mp ((perm_insertByKey e fs).mem_iff.mp hd) with rfl | hd
        · exact hfe
        · exact hf d hd
      case isFalse hle =>
        have hef : (e.1.compare f.1).isLE := by
          rw [← Ordering.ne_gt_iff_isLE]
          exact fun hgt => hle (beq_iff_eq.mpr hgt)
        refine List.pairwise_cons.mpr ⟨fun d hd => ?_, h⟩
        rcases List.mem_cons.mp hd with rfl | hd
        · exact hef
        · exact Std.TransCmp.isLE_trans hef (hf d hd)

theorem weaklyAscending_sortByKey (es : List Entry) : WeaklyAscending (sortByKey es) := by
  induction es with
  | nil => exact List.Pairwise.nil
  | cons e es ih => exact weaklyAscending_insertByKey ih

/-! ## Letting equal keys collapse -/

theorem mem_collapseFrom {d : Entry} :
    ∀ {e : Entry} {es : List Entry}, d ∈ collapseFrom e es →
      (∃ f ∈ e :: es, f.1 = d.1) ∧ ∃ f ∈ e :: es, f.2 = d.2
  | e, [], hd => by
      rw [collapseFrom, List.mem_singleton] at hd
      subst hd
      exact ⟨⟨d, List.mem_cons_self, rfl⟩, d, List.mem_cons_self, rfl⟩
  | e, f :: fs, hd => by
      rw [collapseFrom] at hd
      split at hd
      · obtain ⟨⟨k, hk, hk1⟩, v, hv, hv2⟩ := mem_collapseFrom hd
        refine ⟨?_, ?_⟩
        · rcases List.mem_cons.mp hk with rfl | hk
          · exact ⟨e, List.mem_cons_self, hk1⟩
          · exact ⟨k, by simp [hk], hk1⟩
        · rcases List.mem_cons.mp hv with rfl | hv
          · exact ⟨f, by simp, hv2⟩
          · exact ⟨v, by simp [hv], hv2⟩
      · rcases List.mem_cons.mp hd with rfl | hd
        · exact ⟨⟨d, List.mem_cons_self, rfl⟩, d, List.mem_cons_self, rfl⟩
        · obtain ⟨⟨k, hk, hk1⟩, v, hv, hv2⟩ := mem_collapseFrom hd
          exact ⟨⟨k, List.mem_cons_of_mem e hk, hk1⟩, v, List.mem_cons_of_mem e hv, hv2⟩

/-- Without its second entry a run still weakly ascends, whatever value its first key has. -/
theorem weaklyAscending_skip {e f : Entry} {fs : List Entry} (h : WeaklyAscending (e :: f :: fs))
    (x : Value) : WeaklyAscending ((e.1, x) :: fs) := by
  obtain ⟨he, hf⟩ := List.pairwise_cons.mp h
  refine List.pairwise_cons.mpr ⟨fun d hd => ?_, (List.pairwise_cons.mp hf).2⟩
  exact he d (List.mem_cons_of_mem f hd)

/-- A key that differs from the next one is smaller than all that follow. -/
theorem lt_of_weaklyAscending {e f : Entry} {fs : List Entry} (h : WeaklyAscending (e :: f :: fs))
    (hne : e.1.compare f.1 ≠ .eq) : ∀ d ∈ f :: fs, e.1.compare d.1 = .lt := by
  obtain ⟨he, hf⟩ := List.pairwise_cons.mp h
  have hlt : e.1.compare f.1 = .lt := by
    rcases Ordering.isLE_iff_eq_lt_or_eq_eq.mp (he f List.mem_cons_self) with hlt | heq
    · exact hlt
    · exact absurd heq hne
  refine List.forall_mem_cons.mpr ⟨hlt, fun d hd => ?_⟩
  exact Std.TransCmp.lt_of_lt_of_isLE hlt ((List.pairwise_cons.mp hf).1 d hd)

theorem ascending_collapseFrom :
    ∀ {e : Entry} {es : List Entry}, WeaklyAscending (e :: es) → Ascending (collapseFrom e es)
  | e, [], _ => List.pairwise_singleton _ _
  | e, f :: fs, h => by
      rw [collapseFrom]
      split
      case isTrue heq => exact ascending_collapseFrom (weaklyAscending_skip h f.2)
      case isFalse hne =>
        have hlt := lt_of_weaklyAscending h fun heq => hne (beq_iff_eq.mpr heq)
        refine ascending_cons.mpr
          ⟨fun d hd => ?_, ascending_collapseFrom (List.pairwise_cons.mp h).2⟩
        -- every key that is left stands somewhere in `f :: fs`
        obtain ⟨⟨g, hg, hgd⟩, -⟩ := mem_collapseFrom hd
        rw [← hgd]
        exact hlt g hg

/-! ## Building -/

theorem ascending_ofPairs (ps : List Entry) : Ascending (ofPairs ps) := by
  have h := weaklyAscending_sortByKey ps
  rw [ofPairs]
  cases hs : sortByKey ps with
  | nil => exact List.Pairwise.nil
  | cons e es => exact ascending_collapseFrom (hs ▸ h)

/-- Of two pairs with one key the second value stays. -/
example : ofPairs [(.str "b", .int 1), (.str "a", .int 2), (.str "b", .int 3)] =
    [(.str "a", .int 2), (.str "b", .int 3)] := by
  rfl

theorem mem_ofPairs {ps : List Entry} {d : Entry} (hd : d ∈ ofPairs ps) :
    (∃ p ∈ ps, p.1 = d.1) ∧ ∃ p ∈ ps, p.2 = d.2 := by
  rw [ofPairs] at hd
  cases hs : sortByKey ps with
  | nil => rw [hs] at hd; cases hd
  | cons e es =>
      rw [hs] at hd
      obtain ⟨⟨k, hk, hkd⟩, v, hv, hvd⟩ := mem_collapseFrom hd
      rw [← hs, (perm_sortByKey ps).mem_iff] at hk hv
      exact ⟨⟨k, hk, hkd⟩, v, hv, hvd⟩

theorem sortByKey_of_ascending {es : List Entry} (h : Ascending es) : sortByKey es = es := by
  induction es with
  | nil => rfl
  | cons e es ih =>
      obtain ⟨he, hes⟩ := ascending_cons.mp h
      rw [sortByKey, ih hes]
      cases es with
      | nil => rfl
      | cons f fs =>
          have hlt : e.1.compare f.1 = .lt := he f List.mem_cons_self
          rw [insertByKey, hlt]
          rfl

theorem collapseFrom_of_ascending :
    ∀ {e : Entry} {es : List Entry}, Ascending (e :: es) → collapseFrom e es = e :: es
  | e, [], _ => rfl
  | e, f :: fs, h => by
      obtain ⟨he, hf⟩ := ascending_cons.mp h
      have hlt : e.1.compare f.1 = .lt := he f List.mem_cons_self
      rw [collapseFrom, hlt, collapseFrom_of_ascending hf]
      rfl

/-- Building from the entries of a map gives the map back. -/
theorem ofPairs_of_ascending {es : List Entry} (h : Ascending es) : ofPairs es = es := by
  rw [ofPairs, sortByKey_of_ascending h]
  cases es with
  | nil => rfl
  | cons e es => exact collapseFrom_of_ascending h

/-! ## Size -/

theorem sizeOf_entry (e : Entry) : sizeOf e = 1 + sizeOf e.1 + sizeOf e.2 :=
  Prod.mk.sizeOf_spec e.1 e.2

theorem sizeOf_insertByKey (e : Entry) (es : List Entry) :
    sizeOf (insertByKey e es) = sizeOf (e :: es) := by
  induction es with
  | nil => rfl
  | cons f fs ih =>
      rw [insertByKey]
      split
      · simp only [List.cons.sizeOf_spec] at ih ⊢
        omega
      · rfl

theorem sizeOf_sortByKey (es : List Entry) : sizeOf (sortByKey es) = sizeOf es := by
  induction es with
  | nil => rfl
  | cons e es ih =>
      rw [sortByKey, sizeOf_insertByKey, List.cons.sizeOf_spec, List.cons.sizeOf_spec, ih]

theorem sizeOf_collapseFrom_le :
    ∀ (e : Entry) (es : List Entry), sizeOf (collapseFrom e es) ≤ sizeOf (e :: es)
  | e, [] => Nat.le_refl _
  | e, f :: fs => by
      rw [collapseFrom, List.cons.sizeOf_spec, List.cons.sizeOf_spec]
      split
      · have h := sizeOf_collapseFrom_le (e.1, f.2) fs
        rw [List.cons.sizeOf_spec, Prod.mk.sizeOf_spec] at h
        rw [sizeOf_entry e, sizeOf_entry f]
        omega
      · have h := sizeOf_collapseFrom_le f fs
        rw [List.cons.sizeOf_spec] at h ⊢
        omega

theorem sizeOf_ofPairs_le (ps : List Entry) : sizeOf (ofPairs ps) ≤ sizeOf ps := by
  rw [ofPairs, ← sizeOf_sortByKey ps]
  cases sortByKey ps with
  | nil => exact Nat.le_refl _
  | cons e es => exact sizeOf_collapseFrom_le e es

end TaggedValue.Entries
