import TaggedValue.Proofs.Parts

/-!
# Which values a hash can tell apart

Equal values feed a hash the same stream of tokens. The converse fails, since lists and maps do not mark
where they end: `[[1], 2]` and `[[1, 2]]` have one stream. It holds as soon as no list and no map stands
inside another value. The stream of such a part tells its own end, so that no other value has a stream that
begins alike, whatever follows, and concatenations of such streams can be taken apart again. Only one of two
values has to be of this form for their streams to differ unless they are equal.
-/

namespace TaggedValue.Value

/-! ## Flat values -/

/-- Lists and maps, whose streams go on until the end of what is around them. -/
def isOpenEnded : Value → Bool
  | .list _ | .map _ => true
  | _ => false

/-- No list and no map occurs in the value. -/
def Delimited (v : Value) : Prop := ∀ u, Within u v → u.isOpenEnded = false

/-- No list and no map occurs inside the value, which may be a list or a map itself. -/
def Flat (v : Value) : Prop := ∀ u, Part u v → Delimited u

/-- A list or a map is nested in the value. -/
def Nests (v : Value) : Prop := ∃ u, Part u v ∧ ∃ c, Within c u ∧ c.isOpenEnded = true

theorem delimited_iff {v : Value} : Delimited v ↔ v.isOpenEnded = false ∧ Flat v :=
  forall_within_iff

theorem not_flat_iff {v : Value} : ¬Flat v ↔ Nests v := by
  simp only [Flat, Delimited, Nests, not_forall, Bool.not_eq_false, exists_prop]

theorem flat_list_iff {vs : List Value} : Flat (.list vs) ↔ ∀ v ∈ vs, Delimited v := by
  simp only [Flat, part_list_iff]

theorem flat_map_iff {es : List Entry} :
    Flat (.map es) ↔ ∀ e ∈ es, Delimited e.1 ∧ Delimited e.2 := by
  constructor
  · intro h e he
    exact ⟨h _ (.key he), h _ (.value he)⟩
  · intro h u hu
    obtain ⟨e, he, rfl | rfl⟩ := part_map_iff.mp hu
    · exact (h e he).1
    · exact (h e he).2

theorem delimited_tuple_iff {vs : List Value} : Delimited (.tuple vs) ↔ ∀ v ∈ vs, Delimited v := by
  rw [delimited_iff, Flat]
  simp only [part_tuple_iff]
  exact and_iff_right rfl

theorem delimited_of_isScalar {v : Value} (h : v.isScalar = true) : Delimited v := by
  refine delimited_iff.mpr ⟨?_, fun u hu => ?_⟩
  · cases v <;> first | rfl | cases h
  · cases hu <;> cases h

/-! ## Streams that tell their end -/

/-- No other value has a stream that begins alike, whatever follows on either side. -/
def EndsItself (v : Value) : Prop :=
  ∀ (w : Value) (r q : List Token), v.tokens ++ r = w.tokens ++ q → Same v w ∧ r = q

/-- The first token of a stream is the kind of the value. -/
theorem tokens_eq_kind_cons (v : Value) : ∃ ts, v.tokens = .kind v.kind :: ts := by
  cases v <;> exact ⟨_, rfl⟩

theorem kind_eq_of_tokens_append {v w : Value} {r q : List Token}
    (h : v.tokens ++ r = w.tokens ++ q) : v.kind = w.kind := by
  obtain ⟨ts, hv⟩ := v.tokens_eq_kind_cons
  obtain ⟨us, hw⟩ := w.tokens_eq_kind_cons
  rw [hv, hw, List.cons_append, List.cons_append] at h
  exact Token.kind.inj (List.cons.inj h).1

theorem tokens_append_ne_nil (v : Value) (r : List Token) : v.tokens ++ r ≠ [] := by
  obtain ⟨ts, hv⟩ := v.tokens_eq_kind_cons
  rw [hv]
  exact List.cons_ne_nil _ _

/-- Equally many items can be told apart from what follows them. -/
theorem forall₂_same_of_tokensItems_append {vs ws : List Value} (hvs : ∀ v ∈ vs, EndsItself v)
    (hlen : vs.length = ws.length) {r q : List Token}
    (h : tokensItems vs ++ r = tokensItems ws ++ q) : List.Forall₂ Same vs ws ∧ r = q := by
  induction vs generalizing ws with
  | nil =>
      obtain rfl := List.eq_nil_of_length_eq_zero hlen.symm
      exact ⟨.nil, h⟩
  | cons v vs ih =>
      cases ws with
      | nil => cases hlen
      | cons w ws =>
          obtain ⟨hends, hrest⟩ := List.forall_mem_cons.mp hvs
          rw [tokensItems, tokensItems, List.append_assoc, List.append_assoc] at h
          obtain ⟨hfirst, htail⟩ := hends w _ _ h
          obtain ⟨hitems, hafter⟩ := ih hrest (Nat.succ.inj hlen) htail
          exact ⟨.cons hfirst hitems, hafter⟩

/-- The streams of delimited values form a prefix code, at every nesting of tuples. -/
theorem Delimited.endsItself {v : Value} (hv : Delimited v) : EndsItself v := by
  induction v using part_wellFounded.induction with
  | _ v ih =>
  intro w r q h
  obtain ⟨hclosed, hparts⟩ := delimited_iff.mp hv
  have hkind := kind_eq_of_tokens_append h
  cases v with
  | str s =>
      cases w with
      | str t => simpa [tokens] using h
      | _ => cases hkind
  | int m =>
      cases w with
      | int n => simpa [tokens] using h
      | _ => cases hkind
  | float x =>
      cases w with
      | float y => simpa [tokens] using h
      | _ => cases hkind
  | bool b =>
      cases w with
      | bool c => simpa [tokens] using h
      | _ => cases hkind
  | object o =>
      cases w with
      | object p => simpa [tokens] using h
      | _ => cases hkind
  | list vs => cases hclosed
  | map es => cases hclosed
  | tuple vs =>
      cases w with
      | tuple ws =>
          -- The announced lengths agree, so that both sides have equally many components to read.
          obtain ⟨hlen, hitems⟩ :
              vs.length = ws.length ∧ tokensItems vs ++ r = tokensItems ws ++ q := by
            simpa [tokens] using h
          have hends : ∀ u ∈ vs, EndsItself u := fun u hu =>
            ih u (.component hu) (hparts u (.component hu))
          rw [same_tuple_iff]
          exact forall₂_same_of_tokensItems_append hends hlen hitems
      | _ => cases hkind

/-! ## Concatenations without marks -/

/-- Without a length, the end of one stream has to be the end of the other. -/
theorem forall₂_same_of_tokensItems_eq {vs ws : List Value} (hvs : ∀ v ∈ vs, EndsItself v)
    (h : tokensItems vs = tokensItems ws) : List.Forall₂ Same vs ws := by
  induction vs generalizing ws with
  | nil =>
      cases ws with
      | nil => exact .nil
      | cons w ws => exact absurd h.symm (tokens_append_ne_nil w _)
  | cons v vs ih =>
      cases ws with
      | nil => exact absurd h (tokens_append_ne_nil v _)
      | cons w ws =>
          obtain ⟨hends, hrest⟩ := List.forall_mem_cons.mp hvs
          obtain ⟨hfirst, htail⟩ := hends w _ _ h
          exact .cons hfirst (ih hrest htail)

theorem forall₂_same_of_tokensEntries_eq {es fs : List Entry}
    (hes : ∀ e ∈ es, EndsItself e.1 ∧ EndsItself e.2) (h : tokensEntries es = tokensEntries fs) :
    List.Forall₂ Same (Entries.keys es) (Entries.keys fs) ∧
      List.Forall₂ Same (Entries.values es) (Entries.values fs) := by
  induction es generalizing fs with
  | nil =>
      cases fs with
      | nil => exact ⟨.nil, .nil⟩
      | cons f fs => exact absurd h.symm (tokens_append_ne_nil f.1 _)
  | cons e es ih =>
      cases fs with
      | nil => exact absurd h (tokens_append_ne_nil e.1 _)
      | cons f fs =>
          obtain ⟨hends, hrest⟩ := List.forall_mem_cons.mp hes
          obtain ⟨hkey, hafter⟩ := hends.1 f.1 _ _ h
          obtain ⟨hvalue, htail⟩ := hends.2 f.2 _ _ hafter
          exact forall₂_same_entries_cons.mpr ⟨⟨hkey, hvalue⟩, ih hrest htail⟩

/-- The stream of a flat value is that of no other value. -/
theorem Flat.same_of_tokens_eq {a b : Value} (ha : Flat a) (h : a.tokens = b.tokens) : Same a b := by
  have hkind : a.kind = b.kind := kind_eq_of_tokens_append (congrArg (· ++ []) h)
  cases hopen : a.isOpenEnded with
  | false =>
      have hends : EndsItself a := (delimited_iff.mpr ⟨hopen, ha⟩).endsItself
      exact (hends b [] [] (congrArg (· ++ []) h)).1
  | true =>
      cases a with
      | list vs =>
          cases b with
          | list ws =>
              rw [same_list_iff]
              exact forall₂_same_of_tokensItems_eq
                (fun v hv => (flat_list_iff.mp ha v hv).endsItself) (List.cons.inj h).2
          | _ => cases hkind
      | map es =>
          cases b with
          | map fs =>
              rw [same_map_iff]
              exact forall₂_same_of_tokensEntries_eq
                (fun e he => (flat_map_iff.mp ha e he).imp Delimited.endsItself Delimited.endsItself)
                (List.cons.inj h).2
          | _ => cases hkind
      | _ => cases hopen

/-! ## What the streams separate -/

theorem Flat.tokens_eq_iff {a b : Value} (ha : Flat a) : a.tokens = b.tokens ↔ a.equal b = true := by
  rw [equal_iff_same]
  exact ⟨ha.same_of_tokens_eq, tokens_eq_of_same a b⟩

/-- **Streams separate flat values**: a flat value feeds a hash the stream of its equals and no other. So
when two values collide and are not equal, a list or a map is nested in either of them. -/
theorem streams_separate_flat_values (a b : Value) :
    (a.Flat → (a.tokens = b.tokens ↔ a.equal b = true)) ∧
    (a.tokens = b.tokens → a.equal b = false → a.Nests ∧ b.Nests) := by
  refine ⟨Flat.tokens_eq_iff, fun htokens hne => ⟨?_, ?_⟩⟩
  · rw [← not_flat_iff]
    intro ha
    rw [ha.tokens_eq_iff.mp htokens] at hne
    cases hne
  · rw [← not_flat_iff]
    intro hb
    rw [equal_comm, hb.tokens_eq_iff.mp htokens.symm] at hne
    cases hne

/-- Where a tuple ends is seen in a flat list, and where a list ends is not. -/
theorem streams_separate_flat_values_one_two :
    (list [tuple [int 1], int 2]).Flat ∧
    (list [tuple [int 1], int 2]).tokens ≠ (list [tuple [int 1, int 2]]).tokens ∧
    (list [list [int 1], int 2]).tokens = (list [list [int 1, int 2]]).tokens ∧
    (list [list [int 1], int 2]).equal (list [list [int 1, int 2]]) = false ∧
    (list [list [int 1], int 2]).Nests ∧ (list [list [int 1, int 2]]).Nests := by
  have hscalar : ∀ n, Delimited (int n) := fun n => delimited_of_isScalar rfl
  have hflat : (list [tuple [int 1], int 2]).Flat :=
    flat_list_iff.mpr (List.forall_mem_cons.mpr
      ⟨delimited_tuple_iff.mpr (List.forall_mem_singleton.mpr (hscalar 1)),
        List.forall_mem_singleton.mpr (hscalar 2)⟩)
  have hne : (list [list [int 1], int 2]).equal (list [list [int 1, int 2]]) = false := by decide
  refine ⟨hflat, fun h => ?_, rfl, hne, (streams_separate_flat_values _ _).2 rfl hne⟩
  have hequal := ((streams_separate_flat_values _ _).1 hflat).mp h
  revert hequal
  decide

end TaggedValue.Value
