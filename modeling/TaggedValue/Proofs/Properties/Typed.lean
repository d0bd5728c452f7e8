import TaggedValue.Proofs.Plain.Exactness
import TaggedValue.Properties.Typed

/-!
# Typed properties read what was last set

Properties go through a run of changes: names are set and removed, and other properties are merged. What
a name is bound to in the end is what the last change about it says, and all that happened to other names
since leaves it alone (`Change.get?_run_of_lastAbout`). A typed property extracts a member from what is
bound. So it reads the member that was set last, if this was set through the property itself, and a name
is missing only if it is unset, since no extraction fails for want of a key. Reading with a default takes
another way and comes to the same answers, but for the unset name.
-/

namespace TaggedValue

namespace Properties.Change

/-! ## What a change says about a name -/

/-- A change is about the names that it sets or removes, or that are set in what it merges. -/
def IsAbout : Change → String → Prop
  | set n _, name => n = name
  | remove n, name => n = name
  | merge q, name => q.get? name ≠ none

/-- What a name that a change is about is bound to by the change. -/
def given : Change → String → Option Value
  | set _ v, _ => some v
  | remove _, _ => none
  | merge q, name => q.get? name

/-- **One step.** A change gives its word to the names it is about. -/
theorem get?_apply_of_isAbout {c : Change} {name : String} (h : c.IsAbout name) (p : Properties) :
    (c.apply p).1.get? name = c.given name := by
  cases c with
  | set n v =>
      show (Table.insert p n v).get? name = some v
      rw [Table.get?_insert, if_pos h.symm]
  | remove n =>
      show (Table.erase p n).get? name = none
      rw [Table.get?_erase, if_pos h.symm]
  | merge q =>
      obtain ⟨x, hx⟩ := Option.ne_none_iff_exists'.mp h
      show (Table.merge p q).get? name = q.get? name
      rw [Table.get?_merge, hx]
      rfl

/-- **One step.** It leaves all other names as they were. -/
theorem get?_apply_of_not_isAbout {c : Change} {name : String} (h : ¬ c.IsAbout name)
    (p : Properties) : (c.apply p).1.get? name = p.get? name := by
  cases c with
  | set n v =>
      show (Table.insert p n v).get? name = p.get? name
      rw [Table.get?_insert, if_neg fun heq => h heq.symm]
  | remove n =>
      show (Table.erase p n).get? name = p.get? name
      rw [Table.get?_erase, if_neg fun heq => h heq.symm]
  | merge q =>
      have hq : q.get? name = none := not_not.mp h
      show (Table.merge p q).get? name = p.get? name
      rw [Table.get?_merge, hq]
      rfl

/-! ## Runs of changes -/

/-- The properties after all changes. -/
def run (start : Properties) (cs : List Change) : Properties :=
  cs.foldl (fun p c => (c.apply p).1) start

theorem run_append (start : Properties) (cs ds : List Change) :
    run start (cs ++ ds) = run (run start cs) ds := List.foldl_append

/-- **Frame.** A name that no change is about keeps what it is bound to. -/
theorem get?_run_of_forall_not {cs : List Change} {name : String}
    (h : ∀ c ∈ cs, ¬ c.IsAbout name) (start : Properties) :
    (run start cs).get? name = start.get? name := by
  induction cs generalizing start with
  | nil => rfl
  | cons c cs ih =>
      obtain ⟨hc, hcs⟩ := List.forall_mem_cons.mp h
      calc (run (c.apply start).1 cs).get? name
          = (c.apply start).1.get? name := ih hcs _
        _ = start.get? name := get?_apply_of_not_isAbout hc start

/-- The change is about the name, and none behind it is. -/
def LastAbout (cs : List Change) (name : String) (c : Change) : Prop :=
  ∃ before after, cs = before ++ c :: after ∧ c.IsAbout name ∧ ∀ d ∈ after, ¬ d.IsAbout name

/-- **Whole runs.** A name is bound to what the last change about it gave. -/
theorem get?_run_of_lastAbout {cs : List Change} {name : String} {c : Change}
    (h : LastAbout cs name c) (start : Properties) :
    (run start cs).get? name = c.given name := by
  obtain ⟨before, after, rfl, hc, hafter⟩ := h
  calc (run start (before ++ c :: after)).get? name
      = (run (c.apply (run start before)).1 after).get? name := by
        rw [run_append]
        rfl
    _ = (c.apply (run start before)).1.get? name := get?_run_of_forall_not hafter _
    _ = c.given name := get?_apply_of_isAbout hc _

theorem exists_lastAbout (cs : List Change) (name : String) :
    (∀ c ∈ cs, ¬ c.IsAbout name) ∨ ∃ c, LastAbout cs name c := by
  induction cs with
  | nil => exact Or.inl nofun
  | cons c cs ih =>
      rcases ih with hnone | ⟨d, before, after, rfl, hd, hafter⟩
      · by_cases hc : c.IsAbout name
        · exact Or.inr ⟨c, [], cs, rfl, hc, hnone⟩
        · exact Or.inl (List.forall_mem_cons.mpr ⟨hc, hnone⟩)
      · exact Or.inr ⟨d, c :: before, after, rfl, hd, hafter⟩

/-- After a run a name is unset if it was removed last, or never set at all. -/
def Unset (start : Properties) (cs : List Change) (name : String) : Prop :=
  LastAbout cs name (remove name) ∨ start.get? name = none ∧ ∀ c ∈ cs, ¬ c.IsAbout name

theorem get?_run_eq_none_iff {start : Properties} {cs : List Change} {name : String} :
    (run start cs).get? name = none ↔ Unset start cs name := by
  constructor
  · intro h
    rcases exists_lastAbout cs name with hnone | ⟨c, hlast⟩
    · rw [get?_run_of_forall_not hnone] at h
      exact Or.inr ⟨h, hnone⟩
    · rw [get?_run_of_lastAbout hlast] at h
      obtain ⟨-, -, -, hc, -⟩ := id hlast
      cases c with
      | set n v => cases h
      | remove n =>
          have hn : n = name := hc
          subst hn
          exact Or.inl hlast
      | merge q => exact absurd h hc
  · rintro (hlast | ⟨hstart, hnone⟩)
    · exact get?_run_of_lastAbout hlast start
    · rw [get?_run_of_forall_not hnone, hstart]

end Properties.Change

namespace Property

open Properties (Change)
open Properties.Change (run LastAbout Unset)

/-! ## Reading at a type -/

variable {q : Property} {p : Properties}

theorem get_of_get? {v : Value} (h : p.get? q.name = some v) : q.get p = q.type.extract v := by
  rw [get, Properties.getAs, Properties.get, h]
  rfl

theorem get_of_get?_eq_none (h : p.get? q.name = none) :
    q.get p = .error (.unsetProperty q.name) := by
  rw [get, Properties.getAs, Properties.get, h]
  rfl

theorem getOr_of_get? {v : Value} (h : p.get? q.name = some v) (d : q.type.Member) :
    q.getOr p d = q.type.extract v := by
  rw [getOr, h]

theorem getOr_of_get?_eq_none (h : p.get? q.name = none) (d : q.type.Member) :
    q.getOr p d = .ok d := by
  rw [getOr, h]

/-- Only an unset name is missing: what is bound can have the wrong form, and no other fault. -/
theorem missing_iff :
    (∃ fault, q.get p = .error fault ∧ fault.code = .keyNotFound) ↔ p.get? q.name = none := by
  cases h : p.get? q.name with
  | none => exact iff_of_true ⟨_, get_of_get?_eq_none h, rfl⟩ rfl
  | some v =>
      refine iff_of_false ?_ (Option.some_ne_none v)
      rintro ⟨fault, hfault, hcode⟩
      rw [get_of_get? h] at hfault
      rcases PlainType.code_of_extract hfault with hkind | hconversion
      · exact absurd (hcode.symm.trans hkind) (by decide)
      · exact absurd (hcode.symm.trans hconversion) (by decide)

/-! ## Setting at a type -/

/-- Setting a member through a typed property, as a change. -/
def setting (q : Property) (x : q.type.Member) : Change := .set q.name (q.type.box x)

theorem apply_setting (q : Property) (x : q.type.Member) (p : Properties) :
    (q.setting x).apply p = q.set p x := rfl

/-- What a typed property reads after a run of changes. -/
structure ReadsLastSet (q : Property) (start : Properties) (cs : List Change) : Prop where
  /-- The change that sets a member is what the typed property does, with the same report. -/
  setting : ∀ x p, (q.setting x).apply p = q.set p x
  /-- A member that was set last comes back as it was, and no default takes its place. -/
  member : q.type.isFaithful = true → ∀ x, LastAbout cs q.name (q.setting x) →
    q.get (run start cs) = .ok x ∧ ∀ d, q.getOr (run start cs) d = .ok x
  unset : (run start cs).contains q.name = false ↔ Unset start cs q.name
  missing : (∃ fault, q.get (run start cs) = .error fault ∧ fault.code = .keyNotFound) ↔
    Unset start cs q.name
  default : Unset start cs q.name → ∀ d, q.getOr (run start cs) d = .ok d
  /-- Where the name is set, a default changes nothing, neither members nor faults. -/
  bound : ¬ Unset start cs q.name → ∀ d, q.getOr (run start cs) d = q.get (run start cs)

/-- **Typed properties read what was last set**, and defaults never mask faults: for every typed
property and every run of changes, of this and of other names, through typed properties or not. -/
theorem typed_properties_read_last_set (q : Property) (start : Properties) (cs : List Change) :
    q.ReadsLastSet start cs where
  setting := q.apply_setting
  member hq x hlast := by
    have hbound : (run start cs).get? q.name = some (q.type.box x) :=
      Change.get?_run_of_lastAbout hlast start
    have hback : q.type.extract (q.type.box x) = .ok x :=
      q.type.extract_box_eq_ok_iff.mpr (PlainType.exact_of_isFaithful hq x)
    exact ⟨get_of_get? hbound ▸ hback, fun d => getOr_of_get? hbound d ▸ hback⟩
  unset := by
    rw [← Change.get?_run_eq_none_iff]
    exact Option.isSome_eq_false_iff.trans Option.isNone_iff_eq_none
  missing := missing_iff.trans Change.get?_run_eq_none_iff
  default hunset d := getOr_of_get?_eq_none (Change.get?_run_eq_none_iff.mpr hunset) d
  bound hset d := by
    rw [← Change.get?_run_eq_none_iff] at hset
    obtain ⟨v, hv⟩ := Option.ne_none_iff_exists'.mp hset
    rw [get_of_get? hv, getOr_of_get? hv]

/-- A limit that was a text before, and changes of other names behind it. -/
theorem typed_properties_read_last_set_limit :
    Property.get ⟨"LIMIT", .int .unsigned32⟩
        (run {} [.set "LIMIT" (.str "x"),
          setting ⟨"LIMIT", .int .unsigned32⟩ (⟨100, by decide⟩ : Number.IntType.unsigned32.Member),
          .remove "RATE", .merge (Table.ofList [("DEVICES", .list [])])]) =
      .ok (⟨100, by decide⟩ : Number.IntType.unsigned32.Member) := by
  have hreads := typed_properties_read_last_set ⟨"LIMIT", .int .unsigned32⟩ {}
    [.set "LIMIT" (.str "x"),
      setting ⟨"LIMIT", .int .unsigned32⟩ (⟨100, by decide⟩ : Number.IntType.unsigned32.Member),
      .remove "RATE", .merge (Table.ofList [("DEVICES", .list [])])]
  refine (hreads.member rfl _ ⟨[_], [_, _], rfl, rfl, ?_⟩).1
  rw [List.forall_mem_cons, List.forall_mem_singleton]
  exact ⟨(by decide : "RATE" ≠ "LIMIT"), not_not.mpr rfl⟩

end Property

end TaggedValue
