import TaggedValue.Proofs.Plain.Scalars
import TaggedValue.Proofs.Properties.Conversion

/-!
# Extraction is all or nothing

Extraction goes through a value along the type that is wanted and stops at the first part that does
not fit. Beside it stands a plain list of all places that extraction would look at if it never stopped
(`places`): a list before its items, a table before its entries, and each key before its value. A place
fits by a rule that looks at this place alone (`Place.Fits`). Extraction succeeds exactly if every place
fits, and otherwise it reports the fault of the first that does not.
-/

namespace TaggedValue

open Number (Binary32 Binary64 IntType)

namespace PlainType

/-! ## Places -/

/-- What extraction looks at. -/
inductive Place
  /-- A value where a member of a type is wanted. The keys of a table are wanted as texts. -/
  | member (type : PlainType) (v : Value)
  /-- A key of properties. -/
  | name (k : Value)

end PlainType

namespace Value

/-- What stands in a list or a tuple. -/
def items : Value → List Value
  | .list vs | .tuple vs => vs
  | _ => []

/-- What stands in a map. -/
def entries : Value → List Entry
  | .map es => es
  | _ => []

end Value

namespace PlainType

/-- All places of a value, depth first and from left to right. -/
def places : PlainType → Value → List Place
  | list t, v => .member (list t) v :: v.items.flatMap t.places
  | table t, v =>
      .member (table t) v :: v.entries.flatMap fun e => .member text e.1 :: t.places e.2
  | properties, v => .member properties v :: v.entries.map fun e => .name e.1
  | t, v => [.member t v]

namespace Place

/-- A value fits if it has the form that the type wants, whatever its parts are. -/
inductive Fits : Place → Prop
  | value (v : Value) : Fits (.member .value v)
  | text (s : String) : Fits (.member .text (.str s))
  | bool {v : Value} {b : Bool} (denotes : v.DenotesBool b) : Fits (.member .bool v)
  | int {t : IntType} {v : Value} {n : Int64} (denotes : v.DenotesInt n)
      (range : t.Contains n.toInt) : Fits (.member (.int t) v)
  | float {v : Value} {x : Binary64} (denotes : v.DenotesFloat x) : Fits (.member .float v)
  | single {v : Value} {x : Binary64} (denotes : v.DenotesFloat x) : Fits (.member .single v)
  | properties (es : List Entry) : Fits (.member .properties (.map es))
  | list (t : PlainType) (vs : List Value) : Fits (.member (.list t) (.list vs))
  | tuple (t : PlainType) (vs : List Value) : Fits (.member (.list t) (.tuple vs))
  | table (t : PlainType) (es : List Entry) : Fits (.member (.table t) (.map es))
  | name (s : String) : Fits (.name (.str s))

end Place

/-! ## Faults -/

/-- The kind that all members of a type are boxed as, if there is one. -/
def ownKind? : PlainType → Option Kind
  | value => none
  | text => some .str
  | bool => some .bool
  | int _ => some .int
  | float | single => some .float
  | properties | table _ => some .map
  | list _ => some .list

/-- The other kind that members of a type are extracted from. -/
def otherKind? : PlainType → Option Kind
  | bool | int _ | float | single => some .str
  | list _ => some .tuple
  | _ => none

/-- What is wrong with an integer as a member of a type of integers. -/
def rangeFault? (t : IntType) (n : Int64) : Option Fault :=
  if t.Contains n.toInt then none else some (.outOfRange n t)

/-- What is wrong with a value of a kind that members are extracted from. -/
def flaw? : PlainType → Value → Option Fault
  | bool, .str s =>
      let word := String.ofList (Text.trim s.toList)
      if (readBool word).isSome then none else some (.notBool word)
  | int t, .int n => rangeFault? t n
  | int t, .str s =>
      match Number.readInt64 (Text.trim s.toList) with
      | .ok n => rangeFault? t n
      | .error flaw => some (.notInteger s flaw)
  | float, .str s | single, .str s =>
      match Number.readBinary64 (Text.trim s.toList) with
      | .ok _ => none
      | .error flaw => some (.notFloat s flaw)
  | _, _ => none

/-- What is wrong at a place. -/
def Place.fault? : Place → Option Fault
  | member t v =>
      match t.ownKind? with
      | none => none
      | some wanted =>
          if v.kind = wanted ∨ t.otherKind? = some v.kind then t.flaw? v
          else some (.wrongKind wanted v.kind)
  | name k => if k.kind = .str then none else some (.propertyName k.kind)

theorem code_of_rangeFault? {t : IntType} {n : Int64} {fault : Fault}
    (h : rangeFault? t n = some fault) : fault.code = .conversion := by
  unfold rangeFault? at h
  split at h
  · cases h
  · cases h
    rfl

/-- What is wrong with a value of a kind that is taken is its conversion. -/
theorem code_of_flaw? {t : PlainType} {v : Value} {fault : Fault} (h : t.flaw? v = some fault) :
    fault.code = .conversion := by
  unfold flaw? at h
  split at h
  · -- a text for a truth value
    dsimp only at h
    split at h
    · cases h
    · cases h
      rfl
  · -- an integer for an integer
    exact code_of_rangeFault? h
  · -- a text for an integer
    split at h
    · exact code_of_rangeFault? h
    · cases h
      rfl
  · -- a text for a double precision number
    split at h
    · cases h
    · cases h
      rfl
  · -- a text for a single precision number
    split at h
    · cases h
    · cases h
      rfl
  · cases h

theorem Place.fault?_member {t : PlainType} {wanted : Kind} (hwanted : t.ownKind? = some wanted)
    (v : Value) :
    fault? (.member t v) =
      if v.kind = wanted ∨ t.otherKind? = some v.kind then t.flaw? v
      else some (.wrongKind wanted v.kind) := by
  rw [fault?, hwanted]

/-- Whatever is wrong at a place is a matter of kinds or of conversion. -/
theorem Place.code_of_fault? {p : Place} {fault : Fault} (h : p.fault? = some fault) :
    fault.code = .typeMismatch ∨ fault.code = .conversion := by
  cases p with
  | member t v =>
      cases hwanted : t.ownKind? with
      | none =>
          rw [fault?, hwanted] at h
          cases h
      | some wanted =>
          rw [fault?_member hwanted] at h
          split at h
          · exact Or.inr (code_of_flaw? h)
          · cases h
            exact Or.inl rfl
  | name k =>
      rw [fault?] at h
      split at h
      · cases h
      · cases h
        exact Or.inl rfl

/-! ## Single values -/

theorem extractText_reports (v : Value) :
    Reports v.extractText (Place.fault? (.member text v)).toList := by
  cases v with
  | str s => exact .ok s
  | _ => exact .error _ []

theorem extractBool_reports (v : Value) :
    Reports v.extractBool (Place.fault? (.member bool v)).toList := by
  cases v with
  | bool b => exact .ok b
  | str s =>
      show Reports (Value.extractBool (.str s)) (flaw? bool (.str s)).toList
      rw [Value.extractBool, flaw?]
      cases readBool (String.ofList (Text.trim s.toList)) with
      | none => exact .error _ []
      | some b => exact .ok b
  | _ => exact .error _ []

theorem narrowing_reports (t : IntType) (n : Int64) :
    Reports ((Value.int n).extractInt t) (rangeFault? t n).toList := by
  have hinteger : (Value.int n).extractInt64 = .ok n := rfl
  unfold rangeFault?
  by_cases hn : t.Contains n.toInt
  · rw [Value.extractInt_of_contains hinteger hn, if_pos hn]
    exact .ok _
  · rw [Value.extractInt_of_not_contains hinteger hn, if_neg hn]
    exact .error _ []

theorem extractInt_reports (t : IntType) (v : Value) :
    Reports (v.extractInt t) (Place.fault? (.member (int t) v)).toList := by
  cases v with
  | int n => exact narrowing_reports t n
  | str s =>
      show Reports (Value.extractInt t (.str s)) (flaw? (int t) (.str s)).toList
      rw [Value.extractInt, Value.extractInt64, flaw?]
      cases Number.readInt64 (Text.trim s.toList) with
      | ok n => exact narrowing_reports t n
      | error flaw => exact .error _ []
  | _ => exact .error _ []

theorem extractFloat_reports (v : Value) :
    Reports v.extractFloat (Place.fault? (.member float v)).toList := by
  cases v with
  | float x => exact .ok x
  | str s =>
      show Reports (Value.extractFloat (.str s)) (flaw? float (.str s)).toList
      rw [Value.extractFloat, flaw?]
      cases Number.readBinary64 (Text.trim s.toList) with
      | ok x => exact .ok x
      | error flaw => exact .error _ []
  | _ => exact .error _ []

/-- Single precision numbers are extracted in double precision. -/
theorem Place.fault?_single (v : Value) : fault? (.member single v) = fault? (.member float v) := by
  cases v <;> rfl

theorem extractSingle_reports (v : Value) :
    Reports (single.extract v) (Place.fault? (.member single v)).toList := by
  rw [Place.fault?_single]
  exact (extractFloat_reports v).map Binary32.ofBinary64

/-! ## Whole values -/

theorem filterMap_fault?_cons (p : Place) (ps : List Place) :
    (p :: ps).filterMap Place.fault? = p.fault?.toList ++ ps.filterMap Place.fault? := by
  rw [List.filterMap_cons]
  cases p.fault? with
  | none => rfl
  | some fault => rfl

theorem extractItems_reports {α : Type} {item : Value → Except Fault α}
    {faults : Value → List Fault} (h : ∀ v, Reports (item v) (faults v)) (vs : List Value) :
    Reports (extractItems item vs) (vs.flatMap faults) := by
  induction vs with
  | nil => exact .ok []
  | cons v vs ih => exact (h v).gather ih fun x => x

theorem extractEntries_reports {α : Type} {item : Value → Except Fault α}
    {faults : Value → List Fault} (h : ∀ v, Reports (item v) (faults v)) (es : List Entry) :
    Reports (extractEntries item es)
      (es.flatMap fun e => (Place.fault? (.member text e.1)).toList ++ faults e.2) := by
  induction es with
  | nil => exact .ok []
  | cons e es ih =>
      rw [extractEntries, List.flatMap_cons, List.append_assoc]
      exact (extractText_reports e.1).bind fun name _ => (h e.2).gather ih fun x => (name, x)

theorem addEntries_reports (p : Properties) (es : List Entry) :
    Reports (Properties.addEntries p es)
      ((es.map fun e => Place.name e.1).filterMap Place.fault?) := by
  induction es generalizing p with
  | nil => exact .ok p
  | cons e es ih =>
      obtain ⟨k, v⟩ := e
      cases k with
      | str name => exact ih (p.insert name v)
      | _ => exact .error _ _

/-- **Extraction reports the first fault** at the places that it goes through. -/
theorem extract_reports :
    ∀ (t : PlainType) (v : Value), Reports (t.extract v) ((t.places v).filterMap Place.fault?)
  | value, v => .ok v
  | text, v => extractText_reports v
  | bool, v => extractBool_reports v
  | int t, v => extractInt_reports t v
  | float, v => extractFloat_reports v
  | single, v => extractSingle_reports v
  | properties, v => by
      rw [places]
      cases v with
      | map es =>
          rw [List.filterMap_cons_none rfl]
          exact addEntries_reports {} es
      | _ => exact .error _ _
  | list t, v => by
      rw [places]
      cases v with
      | list vs =>
          rw [List.filterMap_cons_none rfl, List.filterMap_flatMap]
          exact extractItems_reports (extract_reports t) vs
      | tuple vs =>
          rw [List.filterMap_cons_none rfl, List.filterMap_flatMap]
          exact extractItems_reports (extract_reports t) vs
      | _ => exact .error _ _
  | table t, v => by
      rw [places]
      cases v with
      | map es =>
          rw [List.filterMap_cons_none rfl, List.filterMap_flatMap]
          simp only [filterMap_fault?_cons]
          exact (extractEntries_reports (extract_reports t) es).map Table.ofList
      | _ => exact .error _ _

/-- Whatever fails to be extracted fails for its kind or its conversion, and never for want of a key. -/
theorem code_of_extract {t : PlainType} {v : Value} {fault : Fault}
    (h : t.extract v = .error fault) : fault.code = .typeMismatch ∨ fault.code = .conversion := by
  rw [(extract_reports t v).eq_error_iff, List.head?_filterMap] at h
  obtain ⟨p, -, hp⟩ := List.exists_of_findSome?_eq_some h
  exact Place.code_of_fault? hp

/-! ## Fitting means that nothing is wrong -/

namespace Place

variable {v : Value}

theorem fits_bool_iff : Fits (.member .bool v) ↔ ∃ b, v.DenotesBool b := by
  constructor
  · intro h
    cases h with
    | bool denotes => exact ⟨_, denotes⟩
  · rintro ⟨b, hb⟩
    exact .bool hb

theorem fits_int_iff {t : IntType} :
    Fits (.member (.int t) v) ↔ ∃ m : t.Member, ∃ n, v.DenotesInt n ∧ n.toInt = m.val := by
  constructor
  · intro h
    cases h with
    | @int _ _ n denotes range => exact ⟨⟨n.toInt, range⟩, n, denotes, rfl⟩
  · rintro ⟨m, n, hn, hm⟩
    exact .int hn (hm ▸ m.property)

theorem fits_float_iff : Fits (.member .float v) ↔ ∃ x, v.DenotesFloat x := by
  constructor
  · intro h
    cases h with
    | float denotes => exact ⟨_, denotes⟩
  · rintro ⟨x, hx⟩
    exact .float hx

theorem fits_single_iff : Fits (.member .single v) ↔ ∃ x, v.DenotesFloat x := by
  constructor
  · intro h
    cases h with
    | single denotes => exact ⟨_, denotes⟩
  · rintro ⟨x, hx⟩
    exact .single hx

theorem fault?_eq_none_iff_of_reports {α : Type} {x : Except Fault α} {p : Place}
    (h : Reports x p.fault?.toList) : p.fault? = none ↔ ∃ a, x = .ok a := by
  rw [h.exists_ok_iff, Option.toList_eq_nil_iff]

/-- A place fits exactly if nothing is wrong at it. -/
theorem fault?_eq_none_iff {p : Place} : p.fault? = none ↔ p.Fits := by
  cases p with
  | name k =>
      cases k with
      | str s => exact iff_of_true rfl (.name s)
      | _ => exact iff_of_false nofun nofun
  | member t v =>
      cases t with
      | value => exact iff_of_true rfl (.value v)
      | text =>
          cases v with
          | str s => exact iff_of_true rfl (.text s)
          | _ => exact iff_of_false nofun nofun
      | bool =>
          rw [fits_bool_iff, fault?_eq_none_iff_of_reports (extractBool_reports v)]
          simp only [Value.extractBool_eq_ok_iff]
      | int t =>
          rw [fits_int_iff, fault?_eq_none_iff_of_reports (extractInt_reports t v)]
          simp only [Value.extractInt_eq_ok_iff, Value.extractInt64_eq_ok_iff]
      | float =>
          rw [fits_float_iff, fault?_eq_none_iff_of_reports (extractFloat_reports v)]
          simp only [Value.extractFloat_eq_ok_iff]
      | single =>
          rw [fits_single_iff, fault?_single,
            fault?_eq_none_iff_of_reports (extractFloat_reports v)]
          simp only [Value.extractFloat_eq_ok_iff]
      | properties =>
          cases v with
          | map es => exact iff_of_true rfl (.properties es)
          | _ => exact iff_of_false nofun nofun
      | list t =>
          cases v with
          | list vs => exact iff_of_true rfl (.list t vs)
          | tuple vs => exact iff_of_true rfl (.tuple t vs)
          | _ => exact iff_of_false nofun nofun
      | table t =>
          cases v with
          | map es => exact iff_of_true rfl (.table t es)
          | _ => exact iff_of_false nofun nofun

/-- No kind passes for another, but for texts that are read and tuples in the place of lists. -/
theorem kind_of_fits {t : PlainType} {wanted : Kind}
    (hwanted : t.ownKind? = some wanted) (h : Fits (.member t v)) :
    v.kind = wanted ∨ t.otherKind? = some v.kind := by
  by_contra hkind
  rw [← fault?_eq_none_iff, fault?_member hwanted, if_neg hkind] at h
  cases h

end Place

/-! ## What is extracted -/

/-- A value holds a member: single values stand for theirs, a list or a tuple holds as many items as the
list that is extracted, and a map binds the same names as the table. -/
def Holds : (t : PlainType) → Value → t.Member → Prop
  | value, v, w => v = w
  | text, v, s => v = .str s
  | bool, v, b => v.DenotesBool b
  | int _, v, m => ∃ n, v.DenotesInt n ∧ n.toInt = m.val
  | float, v, x => v.DenotesFloat x
  | single, v, x => ∃ y, v.DenotesFloat y ∧ Binary32.ofBinary64 y = x
  | properties, v, p => v = p.toValue
  | list t, v, xs => ∃ vs, (v = .list vs ∨ v = .tuple vs) ∧ List.Forall₂ t.Holds vs xs
  | table t, v, xs => ∃ es, v = .map es ∧
      List.Forall₂ (fun e b => e.1 = .str b.1 ∧ t.Holds e.2 b.2) es xs.bindings

theorem extract_list_eq_ok_iff {t : PlainType} {v : Value} {xs : List t.Member} :
    (list t).extract v = .ok xs ↔
      ∃ vs, (v = .list vs ∨ v = .tuple vs) ∧ extractItems t.extract vs = .ok xs := by
  constructor
  · intro h
    unfold extract at h
    split at h
    · exact ⟨_, Or.inl rfl, h⟩
    · exact ⟨_, Or.inr rfl, h⟩
    · cases h
  · rintro ⟨vs, rfl | rfl, h⟩
    · exact h
    · exact h

theorem extract_table_eq_ok_iff {t : PlainType} {v : Value} {x : Table t.Member} :
    (table t).extract v = .ok x ↔
      ∃ es, v = .map es ∧ ∃ bs, extractEntries t.extract es = .ok bs ∧ Table.ofList bs = x := by
  constructor
  · intro h
    unfold extract at h
    split at h
    · exact ⟨_, rfl, map_eq_ok_iff.mp h⟩
    · cases h
  · rintro ⟨es, rfl, h⟩
    exact map_eq_ok_iff.mpr h

/-- Bindings of the names in ascending entries make a table with these bindings. -/
theorem exists_ofList_iff {α : Type} {R : Value → α → Prop} {es : List Entry} {x : Table α}
    (hes : Entries.Ascending es) :
    (∃ bs, List.Forall₂ (fun e b => e.1 = .str b.1 ∧ R e.2 b.2) es bs ∧ Table.ofList bs = x) ↔
      List.Forall₂ (fun e b => e.1 = .str b.1 ∧ R e.2 b.2) es x.bindings := by
  constructor
  · rintro ⟨bs, hbs, rfl⟩
    have hkeys : List.Forall₂ (fun e b => e.1 = .str b.1) es bs := hbs.imp fun _ _ h => h.1
    have hnames := (Entries.ascending_iff_of_keys hkeys).mp hes
    rwa [Table.bindings_ofList hnames]
  · intro h
    exact ⟨x.bindings, h, Table.ofList_bindings x⟩

/-- **Extraction gives what the value holds**, and nothing else. -/
theorem extract_eq_ok_iff :
    ∀ (t : PlainType) {v : Value} {x : t.Member}, v.Ordered → (t.extract v = .ok x ↔ t.Holds v x)
  | value, v, w, _ => by
      rw [extract, Except.ok.injEq, Holds]
  | text, v, s, _ => Value.extractText_eq_ok_iff
  | bool, v, b, _ => Value.extractBool_eq_ok_iff
  | int t, v, m, _ => by
      rw [extract, Value.extractInt_eq_ok_iff, Holds]
      simp only [Value.extractInt64_eq_ok_iff]
  | float, v, x, _ => Value.extractFloat_eq_ok_iff
  | single, v, x, _ => by
      rw [extract, map_eq_ok_iff, Holds]
      simp only [Value.extractFloat_eq_ok_iff]
  | properties, v, p, hv => by
      rw [extract, Holds]
      constructor
      · intro h
        exact (Properties.toValue_of_ofValue hv h).symm
      · rintro rfl
        exact Properties.ofValue_toValue p
  | list t, v, xs, hv => by
      rw [extract_list_eq_ok_iff, Holds]
      refine exists_congr fun vs => and_congr_right fun hvs => ?_
      have hitems : ∀ w ∈ vs, w.Ordered := by
        rcases hvs with rfl | rfl
        · exact Value.ordered_list_iff.mp hv
        · exact Value.ordered_tuple_iff.mp hv
      rw [extractItems_eq_ok_iff]
      exact forall₂_congr fun w hw x => extract_eq_ok_iff t (hitems w hw)
  | table t, v, x, hv => by
      rw [extract_table_eq_ok_iff, Holds]
      refine exists_congr fun es => and_congr_right fun hes => ?_
      subst hes
      obtain ⟨hasc, hparts⟩ := Value.ordered_map_iff.mp hv
      simp only [extractEntries_eq_ok_iff]
      rw [exists_ofList_iff (R := fun w y => t.extract w = .ok y) hasc]
      refine forall₂_congr fun e he b => and_congr_right fun _ => ?_
      exact extract_eq_ok_iff t (hparts e he).2

/-! ## The law -/

/-- Extraction of members of one type from one value. -/
structure AllOrNothing (t : PlainType) (v : Value) : Prop where
  /-- A member is extracted exactly if every place fits. -/
  succeeds : (∃ x, t.extract v = .ok x) ↔ ∀ p ∈ t.places v, p.Fits
  /-- It has the parts of the value: as many items and the same names at every level. -/
  result : ∀ x, t.extract v = .ok x ↔ t.Holds v x
  /-- Otherwise the fault is that of the first place that does not fit. -/
  fails : ∀ fault, t.extract v = .error fault ↔
    ∃ before p after, t.places v = before ++ p :: after ∧
      (∀ q ∈ before, q.Fits) ∧ ¬ p.Fits ∧ p.fault? = some fault
  code : ∀ fault, t.extract v = .error fault →
    fault.code = .typeMismatch ∨ fault.code = .conversion
  /-- Where a kind is wanted, a value that fits is of that kind, or it is a text that is read or a
  tuple for a list. -/
  strict : ∀ s w wanted, .member s w ∈ t.places v → Place.Fits (.member s w) →
    s.ownKind? = some wanted → w.kind = wanted ∨ s.otherKind? = some w.kind

/-- The places that fit are those where nothing is wrong, so the first fault is at the first place that
does not fit. -/
theorem first_fault_iff {ps : List Place} {fault : Fault} :
    ps.findSome? Place.fault? = some fault ↔
      ∃ before p after, ps = before ++ p :: after ∧
        (∀ q ∈ before, q.Fits) ∧ ¬ p.Fits ∧ p.fault? = some fault := by
  rw [List.findSome?_eq_some_iff]
  simp only [Place.fault?_eq_none_iff]
  refine exists_congr fun before => exists_congr fun p => exists_congr fun after => ?_
  constructor
  · rintro ⟨hsplit, hfault, hbefore⟩
    refine ⟨hsplit, hbefore, ?_, hfault⟩
    rw [← Place.fault?_eq_none_iff, hfault]
    exact nofun
  · rintro ⟨hsplit, hbefore, -, hfault⟩
    exact ⟨hsplit, hfault, hbefore⟩

/-- **Extraction is all or nothing, with a fixed first fault**, for every plain type and every value that
a program can build. All maps of such a value are in order, so the places in a map come in the order of
its keys. -/
theorem extraction_is_all_or_nothing (t : PlainType) {v : Value} (hv : v.Built) :
    v.Ordered ∧ t.AllOrNothing v := by
  have hreports := extract_reports t v
  have hfails : ∀ fault, t.extract v = .error fault ↔
      (t.places v).findSome? Place.fault? = some fault := by
    intro fault
    rw [hreports.eq_error_iff, List.head?_filterMap]
  refine ⟨hv.ordered, ?_, ?_, ?_, ?_, ?_⟩
  · rw [hreports.exists_ok_iff, List.filterMap_eq_nil_iff]
    simp only [Place.fault?_eq_none_iff]
  · intro x
    exact extract_eq_ok_iff t hv.ordered
  · intro fault
    rw [hfails, first_fault_iff]
  · intro fault hfault
    obtain ⟨p, -, hp⟩ := List.exists_of_findSome?_eq_some ((hfails fault).mp hfault)
    exact Place.code_of_fault? hp
  · intro s w wanted _ hfits hwanted
    exact Place.kind_of_fits hwanted hfits

/-- Lists of unsigned integers under names, from texts. The third numeral is out of range, and the text
behind it is never looked at. -/
theorem extraction_is_all_or_nothing_in_table :
    (Value.map [(.str "a", .list [.str " 7 ", .str "+1"]),
      (.str "b", .list [.str "-1", .str "x"])]).Built ∧
    (table (list (int .unsigned32))).extract
        (.map [(.str "a", .list [.str " 7 ", .str "+1"]),
          (.str "b", .list [.str "-1", .str "x"])]) =
      .error (.outOfRange (-1) .unsigned32) := by
  have hbuilt : (Value.map [(.str "a", .list [.str " 7 ", .str "+1"]),
      (.str "b", .list [.str "-1", .str "x"])]).Built :=
    Value.built_box (t := .map (.plain .text) (.list (.plain .text)))
      (x := [("b", ["-1", "x"]), ("a", [" 7 ", "+1"])]) rfl
  have hlaw := (extraction_is_all_or_nothing (table (list (int .unsigned32))) hbuilt).2
  refine ⟨hbuilt, (hlaw.fails _).mpr (first_fault_iff.mp ?_)⟩
  rfl

end PlainType

end TaggedValue
