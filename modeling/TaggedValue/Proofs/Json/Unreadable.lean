import TaggedValue.Proofs.Json.Parts

/-!
# What cannot be read

Reading takes an object for a tuple, a tagged map or a map of its members, and each of the three stops
at the first fault. Beside it stands a plain list of all that reading would look at if it never
stopped: the parts of a tree, depth first, and in front of each entry of a tagged map the look at its
form (`sites`). A tree can be read exactly if none of these sites shows a fault, and otherwise reading
reports the first one that does (`toValue_reports`).
-/

namespace TaggedValue

/-- What reading looks at. -/
inductive Site
  /-- A part of a tree. -/
  | tree (j : Json)
  /-- An entry of a tagged map, for its form alone. -/
  | entry (j : Json)

/-- Why reading cannot go on from here. -/
def Site.fault? : Site → Option Refusal
  | tree .null => some .null
  | tree (.number (.large n _)) => some (.integer n.toNat)
  | tree _ => none
  | entry (.array [_, _]) => none
  | entry _ => some .entry

namespace Json

/-! ## Depth first -/

mutual

/-- All sites of a tree, depth first: a tree before its parts, and these in their places. -/
def sites : Json → List Site
  | .null => [.tree .null]
  | .bool b => [.tree (.bool b)]
  | .number n => [.tree (.number n)]
  | .text s => [.tree (.text s)]
  | .array js => .tree (.array js) :: sitesItems js
  | .object [(key, .array js)] =>
      .tree (.object [(key, .array js)]) :: .tree (.array js) ::
        if key = mapTag then sitesEntries js else sitesItems js
  | .object ms => .tree (.object ms) :: sitesMembers ms
termination_by structural j => j

def sitesItems : List Json → List Site
  | [] => []
  | j :: js => sites j ++ sitesItems js
termination_by structural js => js

/-- The form of an entry is looked at before the entry itself. -/
def sitesEntries : List Json → List Site
  | [] => []
  | j :: js => (.entry j :: sites j) ++ sitesEntries js
termination_by structural js => js

def sitesMembers : List (String × Json) → List Site
  | [] => []
  | (_, j) :: ms => sites j ++ sitesMembers ms
termination_by structural ms => ms

end

theorem sitesItems_eq_flatMap (js : List Json) : sitesItems js = js.flatMap sites := by
  induction js with
  | nil => rfl
  | cons j js ih => rw [sitesItems, ih, List.flatMap_cons]

theorem sitesEntries_eq_flatMap (js : List Json) :
    sitesEntries js = js.flatMap fun j => .entry j :: sites j := by
  induction js with
  | nil => rfl
  | cons j js ih => rw [sitesEntries, ih, List.flatMap_cons]

theorem sitesMembers_eq_flatMap (ms : List (String × Json)) :
    sitesMembers ms = ms.flatMap fun m => sites m.2 := by
  induction ms with
  | nil => rfl
  | cons m ms ih => rw [sitesMembers, ih, List.flatMap_cons]

theorem sites_array (js : List Json) :
    sites (.array js) = .tree (.array js) :: js.flatMap sites := by
  rw [sites, sitesItems_eq_flatMap]

theorem sites_tagged_map (js : List Json) :
    sites (.object [(mapTag, .array js)]) =
      .tree (.object [(mapTag, .array js)]) :: .tree (.array js) ::
        js.flatMap fun j => .entry j :: sites j := by
  rw [sites, if_pos rfl, sitesEntries_eq_flatMap]

/-- Only the map tag makes a difference. -/
theorem sites_object {ms : List (String × Json)} (h : ∀ js, ms ≠ [(mapTag, .array js)]) :
    sites (.object ms) = .tree (.object ms) :: ms.flatMap fun m => sites m.2 := by
  by_cases hms : ∃ key js, ms = [(key, .array js)]
  · obtain ⟨key, js, rfl⟩ := hms
    have hkey : key ≠ mapTag := fun hkey => h js (by rw [hkey])
    rw [sites, if_neg hkey, List.flatMap_singleton, sites_array, sitesItems_eq_flatMap]
  · rw [sites, sitesMembers_eq_flatMap]
    exact fun key js hms' => hms ⟨key, js, hms'⟩

/-! ## What the sites are -/

/-- The sites that a tree has by itself. -/
inductive Own : Json → Site → Prop
  | tree (j : Json) : Own j (.tree j)
  | entry {js : List Json} {j : Json} (mem : j ∈ js) :
      Own (.object [(mapTag, .array js)]) (.entry j)

theorem own_iff_of_untagged {j : Json} (h : ∀ js, j ≠ .object [(mapTag, .array js)]) {s : Site} :
    Own j s ↔ s = .tree j := by
  constructor
  · intro hs
    cases hs with
    | tree => rfl
    | @entry js _ mem => exact absurd rfl (h js)
  · rintro rfl
    exact .tree j

theorem own_tagged_map_iff {js : List Json} {s : Site} :
    Own (.object [(mapTag, .array js)]) s ↔
      s = .tree (.object [(mapTag, .array js)]) ∨ ∃ j ∈ js, s = .entry j := by
  constructor
  · intro hs
    cases hs with
    | tree => exact Or.inl rfl
    | @entry _ j mem => exact Or.inr ⟨j, mem, rfl⟩
  · rintro (rfl | ⟨j, hj, rfl⟩)
    · exact .tree _
    · exact .entry hj

/-- The sites of a tree are its own and those of its parts. -/
theorem mem_sites_iff_part {s : Site} {j : Json} :
    s ∈ sites j ↔ Own j s ∨ ∃ i, Part i j ∧ s ∈ sites i := by
  have hleaf : ∀ j : Json, sites j = [.tree j] → (∀ js, j ≠ .object js) → (∀ i, ¬ Part i j) →
      (s ∈ sites j ↔ Own j s ∨ ∃ i, Part i j ∧ s ∈ sites i) := by
    intro j hj hobject hparts
    rw [hj, List.mem_singleton, own_iff_of_untagged fun js => hobject _]
    exact ⟨Or.inl, fun h => h.resolve_right fun ⟨i, hi, _⟩ => hparts i hi⟩
  cases j with
  | array js =>
      have hown : Own (.array js) s ↔ s = .tree (.array js) := own_iff_of_untagged (by simp)
      rw [sites_array, List.mem_cons, List.mem_flatMap, hown]
      simp only [part_array_iff]
  | object ms =>
      by_cases hms : ∃ js, ms = [(mapTag, .array js)]
      · obtain ⟨js, rfl⟩ := hms
        have hpart : (∃ i, Part i (.object [(mapTag, .array js)]) ∧ s ∈ sites i) ↔
            s ∈ sites (.array js) := by
          simp [part_object_iff]
        rw [hpart, own_tagged_map_iff, sites_tagged_map, sites_array]
        simp only [List.mem_cons, List.mem_flatMap, and_or_left, exists_or]
        rw [or_assoc]
        exact or_congr_right or_left_comm
      · have huntagged : ∀ js, ms ≠ [(mapTag, .array js)] := fun js h => hms ⟨js, h⟩
        have hown := own_iff_of_untagged (j := .object ms) (s := s) fun js h =>
          huntagged js (object.inj h)
        rw [sites_object huntagged, List.mem_cons, List.mem_flatMap, hown]
        apply or_congr_right
        constructor
        · rintro ⟨m, hm, hs⟩
          exact ⟨m.2, .member hm, hs⟩
        · rintro ⟨i, hi, hs⟩
          obtain ⟨m, hm, rfl⟩ := part_object_iff.mp hi
          exact ⟨m, hm, hs⟩
  | _ => exact hleaf _ rfl nofun nofun

/-- **No site is missed.** The sites of a tree are those that the trees in it have by themselves. -/
theorem mem_sites_iff {s : Site} {j : Json} : s ∈ sites j ↔ ∃ i, Within i j ∧ Own i s := by
  induction j using part_wellFounded.induction with
  | _ j ih =>
  rw [mem_sites_iff_part]
  constructor
  · rintro (hs | ⟨k, hk, hs⟩)
    · exact ⟨j, Within.refl j, hs⟩
    · obtain ⟨i, hi, hs⟩ := (ih k hk).mp hs
      exact ⟨i, hi.of_part hk, hs⟩
  · rintro ⟨i, hi, hs⟩
    rcases within_iff.mp hi with rfl | ⟨k, hk, hik⟩
    · exact Or.inl hs
    · exact Or.inr ⟨k, hk, (ih k hk).mpr ⟨i, hik, hs⟩⟩

/-! ## What has no fault -/

/-- The trees that can be read. -/
structure Readable (j : Json) : Prop where
  /-- Null occurs nowhere, -/
  null : ¬ Within .null j
  /-- nor does an integer beyond the signed 64-bit range, -/
  large : ∀ n beyond, ¬ Within (.number (.large n beyond)) j
  /-- and under the map tag there are only pairs. -/
  pairs : ∀ js, Within (.object [(mapTag, .array js)]) j → ∀ i ∈ js, ∃ k l, i = .array [k, l]

theorem fault?_entry_of_not_pair {j : Json} (h : ¬ ∃ k l, j = .array [k, l]) :
    (Site.entry j).fault? = some .entry := by
  rw [Site.fault?]
  exact fun k l hkl => h ⟨k, l, hkl⟩

theorem fault?_entry_eq_none_iff {j : Json} :
    (Site.entry j).fault? = none ↔ ∃ k l, j = .array [k, l] := by
  constructor
  · intro h
    refine Classical.byContradiction fun hpair => ?_
    rw [fault?_entry_of_not_pair hpair] at h
    cases h
  · rintro ⟨k, l, rfl⟩
    rfl

theorem readable_iff {j : Json} : Readable j ↔ ∀ s ∈ sites j, s.fault? = none := by
  simp only [mem_sites_iff]
  constructor
  · rintro h s ⟨i, hi, hs⟩
    cases hs with
    | tree =>
        cases i with
        | null => exact absurd hi h.null
        | number n =>
            cases n with
            | large n beyond => exact absurd hi (h.large n beyond)
            | _ => rfl
        | _ => rfl
    | @entry js e mem => exact fault?_entry_eq_none_iff.mpr (h.pairs js hi e mem)
  · intro h
    refine ⟨fun hi => ?_, fun n beyond hi => ?_, fun js hi e he => ?_⟩
    · exact absurd (h _ ⟨_, hi, .tree _⟩) nofun
    · exact absurd (h _ ⟨_, hi, .tree _⟩) nofun
    · exact fault?_entry_eq_none_iff.mp (h _ ⟨_, hi, .entry he⟩)

/-! ## The first fault -/

/-- All faults of a tree, in the order of its sites. -/
def faults (j : Json) : List Refusal := j.sites.filterMap Site.fault?

theorem faults_eq_nil_iff {j : Json} : j.faults = [] ↔ Readable j := by
  rw [faults, List.filterMap_eq_nil_iff, readable_iff]

theorem faults_array (js : List Json) : (array js).faults = js.flatMap faults := by
  rw [faults, sites_array, List.filterMap_cons_none rfl, List.filterMap_flatMap]
  rfl

theorem faults_object {ms : List (String × Json)} (h : ∀ js, ms ≠ [(mapTag, .array js)]) :
    (object ms).faults = ms.flatMap fun m => m.2.faults := by
  rw [faults, sites_object h, List.filterMap_cons_none rfl, List.filterMap_flatMap]
  rfl

theorem faults_tagged_map (js : List Json) :
    (object [(mapTag, .array js)]).faults =
      js.flatMap fun j => (Site.entry j).fault?.toList ++ j.faults := by
  rw [faults, sites_tagged_map, List.filterMap_cons_none rfl, List.filterMap_cons_none rfl,
    List.filterMap_flatMap]
  congr 1
  funext j
  rw [List.filterMap_cons, faults]
  cases (Site.entry j).fault? with
  | none => rfl
  | some r => rfl

theorem toValueItems_reports {js : List Json} (h : ∀ j ∈ js, Reports j.toValue j.faults) :
    Reports (toValueItems js) (js.flatMap faults) := by
  induction js with
  | nil => exact .ok []
  | cons j js ih =>
      obtain ⟨hj, hjs⟩ := List.forall_mem_cons.mp h
      exact hj.gather (ih hjs) fun v => v

theorem toValueMembers_reports {ms : List (String × Json)}
    (h : ∀ m ∈ ms, Reports m.2.toValue m.2.faults) :
    Reports (toValueMembers ms) (ms.flatMap fun m => m.2.faults) := by
  induction ms with
  | nil => exact .ok []
  | cons m ms ih =>
      obtain ⟨hm, hms⟩ := List.forall_mem_cons.mp h
      exact hm.gather (ih hms) fun v => (.str m.1, v)

theorem toValuePairs_reports {js : List Json}
    (h : ∀ j ∈ js, ∀ i, Part i j → Reports i.toValue i.faults) :
    Reports (toValuePairs js) (js.flatMap fun j => (Site.entry j).fault?.toList ++ j.faults) := by
  induction js with
  | nil => exact .ok []
  | cons j js ih =>
      obtain ⟨hj, hjs⟩ := List.forall_mem_cons.mp h
      rw [List.flatMap_cons]
      by_cases hpair : ∃ k l, j = .array [k, l]
      · obtain ⟨k, l, rfl⟩ := hpair
        have hfaults : (Site.entry (.array [k, l])).fault?.toList ++ (array [k, l]).faults =
            k.faults ++ l.faults := by
          rw [faults_array]
          simp [Site.fault?]
        rw [toValuePairs, hfaults, List.append_assoc]
        refine (hj k (.item (by simp))).bind fun key _ => ?_
        exact (hj l (.item (by simp))).gather (ih hjs) fun x => (key, x)
      · rw [toValuePairs, fault?_entry_of_not_pair hpair]
        · exact .error _ _
        · exact fun k l hkl => hpair ⟨k, l, hkl⟩

/-- **Reading reports the first fault** of those at the sites of a tree. -/
theorem toValue_reports (j : Json) : Reports j.toValue j.faults := by
  induction j using (measure (sizeOf : Json → Nat)).wf.induction with
  | _ j ih =>
  have hparts : ∀ i, Part i j → Reports i.toValue i.faults :=
    fun i hi => ih i (sizeOf_lt_of_part hi)
  cases j with
  | null => exact Reports.error Refusal.null []
  | bool b => exact Reports.ok (Value.bool b)
  | number n =>
      cases n with
      | int n => exact Reports.ok (Value.int n)
      | large n beyond => exact Reports.error (Refusal.integer n.toNat) []
      | float x finite => exact Reports.ok (Value.float x)
  | text s => exact Reports.ok (Value.str s)
  | array js =>
      rw [toValue, faults_array]
      exact (toValueItems_reports fun i hi => hparts i (.item hi)).map _
  | object ms =>
      rcases object_forms ms with ⟨js, rfl⟩ | ⟨js, rfl⟩ | huntagged
      · have hlt := sizeOf_lt_tagged tupleTag js
        have htag : ∀ is, [(tupleTag, array js)] ≠ [(mapTag, .array is)] := by
          simp [tupleTag, mapTag]
        rw [toValue_tagged_tuple, faults_object htag, List.flatMap_singleton, faults_array]
        exact (toValueItems_reports fun i hi =>
          ih i (Nat.lt_trans (sizeOf_lt_array hi) hlt)).map _
      · have hlt := sizeOf_lt_tagged mapTag js
        rw [toValue_tagged_map, faults_tagged_map]
        refine (toValuePairs_reports fun e he i hi => ih i ?_).map _
        exact Nat.lt_trans (sizeOf_lt_of_part hi) (Nat.lt_trans (sizeOf_lt_array he) hlt)
      · have htag : ∀ js, ms ≠ [(mapTag, .array js)] := fun js hms =>
          (huntagged mapTag js hms).2 rfl
        rw [toValue_untagged huntagged, faults_object htag]
        exact (toValueMembers_reports fun m hm => hparts m.2 (.member hm)).map _

/-- **Reading accepts its grammar and reports the first fault.** Take any tree. It can be read if and
only if there is no null in it, no integer beyond the signed 64-bit range, and no entry under the map
tag that is not an array of two. Otherwise the report is that of the first site with a fault. If the
tree is in order, its sites come in the order of keys, since the members of all its objects do. -/
theorem reads_grammar_or_reports_first_fault (j : Json) :
    ((∃ v, j.toValue = .ok v) ↔ Readable j) ∧
    (∀ report, j.toValue.mapError Refusal.report = .error report ↔
      ∃ r, j.sites.findSome? Site.fault? = some r ∧
        report = ⟨.invalidArgument, some r.message⟩) ∧
    (j.ordered = j → ∀ ms, Within (.object ms) j → ms.Pairwise fun a b => a.1 < b.1) := by
  have hreports := toValue_reports j
  refine ⟨?_, ?_, fun h ms hms => names_ascend_of_ordered h hms⟩
  · rw [hreports.exists_ok_iff, faults_eq_nil_iff]
  · intro report
    rw [mapError_eq_error_iff]
    simp only [hreports.eq_error_iff, faults, List.head?_filterMap, eq_comm (b := report)]
    rfl

/-- A null in place of a pair is no pair in the first place, and what stands before it counts first. -/
example :
    (object [(mapTag, array [null])]).toValue = .error .entry ∧
    (object [(mapTag, array [array [text "a", null], null])]).toValue = .error .null := by
  exact ⟨rfl, rfl⟩

end Json

end TaggedValue
