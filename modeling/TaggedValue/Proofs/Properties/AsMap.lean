import TaggedValue.Proofs.Entries.Names
import TaggedValue.Proofs.Outcome
import TaggedValue.Properties.Basic

/-!
# Properties beside a map

Properties and a map with texts for keys are two stores for the same bindings, each with a search of
its own. Here both go through the same changes side by side. The invariant is that the map is the one
that the properties convert into; each change keeps it and reports the same on both sides
(`Change.applyToMap_toValue`), and whatever can be asked of the one is answered alike by the other.
-/

namespace TaggedValue.Properties

open Entries (named)

/-! ## The map of properties -/

/-- The entries that bind the names of properties. -/
def entries (p : Properties) : List Entry := named (fun v => v) p.bindings

/-- Converting sorts nothing and drops nothing: the bindings are in order as they stand. -/
theorem toValue_eq_map (p : Properties) : p.toValue = .map p.entries :=
  congrArg Value.map (Entries.ofPairs_named (fun v => v) p)

theorem addEntries_named (bs : List (String × Value)) (p : Properties) :
    addEntries p (named (fun v => v) bs) =
      .ok (bs.foldl (fun q b => q.insert b.1 b.2) p) := by
  induction bs generalizing p with
  | nil => rfl
  | cons b bs ih => exact ih (p.insert b.1 b.2)

/-- Entries can be added exactly if they bind names. -/
theorem addEntries_eq_ok_iff {es : List Entry} {p q : Properties} :
    addEntries p es = .ok q ↔
      ∃ bs, es = named (fun v => v) bs ∧ bs.foldl (fun q b => q.insert b.1 b.2) p = q := by
  constructor
  · intro h
    induction es generalizing p with
    | nil =>
        cases h
        exact ⟨[], rfl, rfl⟩
    | cons e es ih =>
        obtain ⟨k, v⟩ := e
        cases k with
        | str name =>
            obtain ⟨bs, rfl, hbs⟩ := ih (p := p.insert name v) h
            exact ⟨(name, v) :: bs, rfl, hbs⟩
        | _ => cases h
  · rintro ⟨bs, rfl, rfl⟩
    exact addEntries_named bs p

theorem ofValue_eq_ok_iff {v : Value} {p : Properties} :
    ofValue v = .ok p ↔ ∃ bs, v = .map (named (fun v => v) bs) ∧ Table.ofList bs = p := by
  cases v with
  | map es =>
      simp only [Value.map.injEq]
      exact addEntries_eq_ok_iff
  | _ =>
      refine iff_of_false nofun ?_
      rintro ⟨bs, hbs, -⟩
      cases hbs

/-- Properties come back from their map. -/
theorem ofValue_toValue (p : Properties) : ofValue p.toValue = .ok p := by
  rw [toValue_eq_map]
  show addEntries {} (named (fun v => v) p.bindings) = .ok p
  rw [addEntries_named]
  exact congrArg Except.ok (Table.ofList_bindings p)

/-! ## Reading -/

theorem get?_toValue (p : Properties) (name : String) :
    p.toValue.get? (.str name) = p.get? name := by
  have hfind : Entries.find? p.entries (.str name) = p.get? name := by
    rw [entries, Entries.find?_named, Option.map_id']
  rw [toValue_eq_map]
  show (Entries.get p.entries (.str name)).toOption = p.get? name
  rw [Entries.get, hfind]
  cases p.get? name with
  | none => rfl
  | some x => rfl

theorem contains_toValue (p : Properties) (name : String) :
    p.toValue.contains (.str name) = .ok (p.contains name) := by
  rw [toValue_eq_map]
  exact congrArg Except.ok (Entries.contains_named (fun v => v) p name)

theorem length_toValue (p : Properties) : p.toValue.length = .ok p.size := by
  rw [toValue_eq_map]
  exact congrArg Except.ok (List.length_map _)

theorem isEmpty_toValue (p : Properties) : p.toValue.isEmpty = .ok p.isEmpty := by
  rw [toValue_eq_map]
  exact congrArg Except.ok List.isEmpty_map

theorem keys_toValue (p : Properties) :
    p.toValue.keys = .ok (p.toList.map fun b => .str b.1) := by
  rw [toValue_eq_map]
  exact congrArg Except.ok List.map_map

theorem values_toValue (p : Properties) : p.toValue.values = .ok (p.toList.map (·.2)) := by
  rw [toValue_eq_map]
  exact congrArg Except.ok List.map_map

/-! ## Changing -/

theorem set_toValue (p : Properties) (name : String) (x : Value) :
    p.toValue.set (.str name) x = .ok (toValue (p.insert name x)) := by
  rw [toValue_eq_map, toValue_eq_map]
  exact congrArg (fun es => Except.ok (Value.map es))
    (Entries.set_named (fun v => v) p.ascending name x)

theorem remove_toValue (p : Properties) (name : String) :
    p.toValue.remove (.str name) = .ok (toValue (p.erase name), p.get? name) := by
  have hrest : (Entries.erase p.entries (.str name)).1 = entries (p.erase name) :=
    Entries.erase_named (fun v => v) p.ascending name
  have hremoved : (Entries.erase p.entries (.str name)).2 = p.get? name := by
    rw [Entries.erase_snd, entries, Entries.find?_named, Option.map_id']
  rw [toValue_eq_map, toValue_eq_map, ← hrest, ← hremoved]
  rfl

/-- A map with more texts bound, one after another. -/
def bindAll (v : Value) : List (String × Value) → Except Fault Value
  | [] => .ok v
  | b :: bs => (v.set (.str b.1) b.2).bind fun w => bindAll w bs

theorem bindAll_toValue (bs : List (String × Value)) (p : Properties) :
    bindAll p.toValue bs = .ok (toValue (bs.foldl (fun q b => q.insert b.1 b.2) p)) := by
  induction bs generalizing p with
  | nil => rfl
  | cons b bs ih =>
      rw [bindAll, set_toValue]
      exact ih (p.insert b.1 b.2)

/-! ## Changes, on both sides -/

/-- A change of properties. -/
inductive Change
  | set (name : String) (v : Value)
  | remove (name : String)
  | merge (q : Properties)

namespace Change

/-- The properties after a change, and the value that the change reports: what was bound before. -/
def apply : Change → Properties → Properties × Option Value
  | set name x, p => Properties.set p name x
  | remove name, p => Properties.remove p name
  | merge q, p => (Table.merge p q, none)

/-- The same change of a map, under texts for keys, and the value that is read or removed there.
What is merged is bound one by one. -/
def applyToMap : Change → Value → Except Fault (Value × Option Value)
  | set name x, v => (v.set (.str name) x).map fun w => (w, v.get? (.str name))
  | remove name, v => v.remove (.str name)
  | merge q, v => (bindAll v q.toList).map fun w => (w, none)

/-- **One step.** A change of the map of properties is the map of the changed properties, and the
report is the same. -/
theorem applyToMap_toValue (c : Change) (p : Properties) :
    c.applyToMap p.toValue = .ok ((c.apply p).1.toValue, (c.apply p).2) := by
  cases c with
  | set name x =>
      rw [applyToMap, set_toValue, get?_toValue]
      rfl
  | remove name => exact remove_toValue p name
  | merge q =>
      rw [applyToMap, bindAll_toValue]
      rfl

/-- The properties after each of some changes, with the reports. -/
def trace (p : Properties) : List Change → List (Properties × Option Value)
  | [] => []
  | c :: cs => c.apply p :: trace (c.apply p).1 cs

/-- The map after each of some changes, with the reports. -/
def traceOnMap (v : Value) : List Change → Except Fault (List (Value × Option Value))
  | [] => .ok []
  | c :: cs => (c.applyToMap v).bind fun s => (traceOnMap s.1 cs).map (s :: ·)

/-- **Whole runs.** After each change the map is that of the properties. -/
theorem traceOnMap_toValue (cs : List Change) (p : Properties) :
    traceOnMap p.toValue cs = .ok ((trace p cs).map fun s => (s.1.toValue, s.2)) := by
  induction cs generalizing p with
  | nil => rfl
  | cons c cs ih =>
      rw [traceOnMap, applyToMap_toValue]
      show ((traceOnMap (c.apply p).1.toValue cs).map _) = _
      rw [ih (c.apply p).1]
      rfl

end Change

/-! ## In step -/

/-- Properties and a map answer alike: they convert into equal maps, and agree on what is bound to
each name, on which names there are, on their number and on the order in which they are listed. -/
structure InStep (p : Properties) (v : Value) : Prop where
  equal : p.toValue.equal v = true
  get : ∀ name, v.get? (.str name) = p.get? name
  contains : ∀ name, v.contains (.str name) = .ok (p.contains name)
  length : v.length = .ok p.size
  isEmpty : v.isEmpty = .ok p.isEmpty
  keys : v.keys = .ok (p.toList.map fun b => .str b.1)
  values : v.values = .ok (p.toList.map (·.2))

theorem inStep_toValue (p : Properties) : InStep p p.toValue where
  equal := Value.equal_self p.toValue
  get := get?_toValue p
  contains := contains_toValue p
  length := length_toValue p
  isEmpty := isEmpty_toValue p
  keys := keys_toValue p
  values := values_toValue p

/-- **A map stays in step with properties.** Whatever is set, removed and merged, starting with no
properties and the empty map: no change of the map fails, and after each change the map is in step
and has reported what the properties report. -/
theorem map_stays_in_step (cs : List Change) :
    InStep {} (Value.ofPairs []) ∧
    ∃ states, Change.traceOnMap (Value.ofPairs []) cs = .ok states ∧
      List.Forall₂ (fun s t => InStep s.1 t.1 ∧ s.2 = t.2) (Change.trace {} cs) states := by
  refine ⟨inStep_toValue {}, _, Change.traceOnMap_toValue cs {}, ?_⟩
  rw [List.forall₂_map_right_iff, List.forall₂_same]
  intro s _
  exact ⟨inStep_toValue s.1, rfl⟩

end TaggedValue.Properties
