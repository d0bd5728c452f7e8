import TaggedValue.Json.Text
import TaggedValue.Proofs.Json.Encoding
import TaggedValue.Proofs.Json.Lexemes
import TaggedValue.Proofs.Runs

/-!
# The text layer

A tree whose numbers are all integers comes back from its text, as far as it may nest. The statement
carried through the tree is `ReadsBack`: the reader takes exactly what was written and leaves what
follows, whatever that is, unless it continues a number. Two calls for each written character are
enough for the reader at every depth. As the tree of a value has its members in order, it is also
the tree that the text stands for, so reading a value from text is reading it from its tree.
-/

namespace TaggedValue

open JsonNumber (BeginsNumber Stops stops_nil stops_cons)

namespace Json

/-- A tree whose numbers are all integers. -/
inductive IsWhole : Json → Prop
  | null : IsWhole .null
  | bool (b : Bool) : IsWhole (.bool b)
  | number {n : JsonNumber} (integer : n.IsInteger) : IsWhole (.number n)
  | text (s : String) : IsWhole (.text s)
  | array {js : List Json} (items : ∀ j ∈ js, IsWhole j) : IsWhole (.array js)
  | object {ms : List (String × Json)} (members : ∀ m ∈ ms, IsWhole m.2) : IsWhole (.object ms)

/-! ## The first character -/

theorem isBlank_of_beginsNumber {c : Char} (hc : BeginsNumber c) : isBlank c = false := by
  simp [isBlank, hc.ne (show ' ' ≠ '-' ∧ ' '.isDigit = false by decide),
    hc.ne (show '\n' ≠ '-' ∧ '\n'.isDigit = false by decide),
    hc.ne (show '\t' ≠ '-' ∧ '\t'.isDigit = false by decide),
    hc.ne (show '\r' ≠ '-' ∧ '\r'.isDigit = false by decide)]

/-- No written tree begins with a blank or a closing bracket. -/
theorem exists_head_write {j : Json} (hj : j.IsWhole) :
    ∃ c cs, j.write = c :: cs ∧ isBlank c = false ∧ c ≠ ']' := by
  cases hj with
  | null => exact ⟨'n', _, rfl, rfl, by decide⟩
  | bool b =>
      cases b with
      | true => exact ⟨'t', _, rfl, rfl, by decide⟩
      | false => exact ⟨'f', _, rfl, rfl, by decide⟩
  | number integer =>
      obtain ⟨c, cs, hcs, hc⟩ := JsonNumber.exists_head_write integer
      exact ⟨c, cs, hcs, isBlank_of_beginsNumber hc, hc.ne (by decide)⟩
  | text s => exact ⟨'"', _, rfl, rfl, by decide⟩
  | array items => exact ⟨'[', _, rfl, rfl, by decide⟩
  | object members => exact ⟨'{', _, rfl, rfl, by decide⟩

/-! ## Reading, by the first character -/

theorem readTree_number {fuel depth : Nat} {c : Char} (hc : BeginsNumber c) (cs : List Char) :
    readTree (fuel + 1) depth (c :: cs) =
      (JsonNumber.read (c :: cs)).map fun (n, r) => (.number n, r) := by
  rw [readTree, skipBlanks_cons (isBlank_of_beginsNumber hc)]
  split
  case h_7 => rfl
  all_goals
    next r heq =>
      obtain ⟨rfl, -⟩ := List.cons.inj heq
      exact absurd rfl (hc.ne (by decide))

theorem readTree_quote (fuel depth : Nat) (r : List Char) :
    readTree (fuel + 1) depth ('"' :: r) = (readText r).map fun (s, r) => (.text s, r) := rfl

theorem readTree_bracket (fuel depth : Nat) (r : List Char) :
    readTree (fuel + 1) (depth + 1) ('[' :: r) =
      match skipBlanks r with
      | ']' :: r => some (.array [], r)
      | _ => (readItems fuel depth r).map fun (js, r) => (.array js, r) := rfl

theorem readTree_brace (fuel depth : Nat) (r : List Char) :
    readTree (fuel + 1) (depth + 1) ('{' :: r) =
      match skipBlanks r with
      | '}' :: r => some (.object [], r)
      | _ => (readMembers fuel depth r).map fun (ms, r) => (.object ms, r) := rfl

/-! ## Items and members -/

theorem depth_le_depthItems {j : Json} {js : List Json} (h : j ∈ js) :
    j.depth ≤ depthItems js := by
  induction js with
  | nil => cases h
  | cons k js ih =>
      rw [depthItems]
      rcases List.mem_cons.mp h with rfl | h
      · exact Nat.le_max_left _ _
      · exact Nat.le_trans (ih h) (Nat.le_max_right _ _)

theorem depth_le_depthMembers {m : String × Json} {ms : List (String × Json)} (h : m ∈ ms) :
    m.2.depth ≤ depthMembers ms := by
  induction ms with
  | nil => cases h
  | cons n ms ih =>
      rw [depthMembers]
      rcases List.mem_cons.mp h with rfl | h
      · exact Nat.le_max_left _ _
      · exact Nat.le_trans (ih h) (Nat.le_max_right _ _)

/-- A tree comes back from its text, and the reader stops right behind it, wherever it may nest
as deeply as it does and nothing continues it. -/
def ReadsBack (j : Json) : Prop :=
  ∀ fuel depth rest, 2 * j.write.length ≤ fuel → j.depth ≤ depth → Stops rest →
    readTree fuel depth (j.write ++ rest) = some (j, rest)

theorem stops_mark {c : Char} (hc : c = ',' ∨ c = ']' ∨ c = '}') (cs : List Char) :
    Stops (c :: cs) := by
  rcases hc with rfl | rfl | rfl <;> exact stops_cons (by decide) cs

theorem writeItems_cons_cons (j k : Json) (js : List Json) :
    writeItems (j :: k :: js) = j.write ++ ',' :: writeItems (k :: js) := rfl

theorem writeItems_singleton (j : Json) : writeItems [j] = j.write := List.append_nil _

/-- **Items.** Items come back if each of them does. -/
theorem readItems_write {js : List Json} (hjs : ∀ j ∈ js, ReadsBack j) (hne : js ≠ [])
    {fuel depth : Nat} (hfuel : 2 * (writeItems js).length < fuel)
    (hdepth : ∀ j ∈ js, j.depth ≤ depth) (rest : List Char) :
    readItems fuel depth (writeItems js ++ ']' :: rest) = some (js, rest) := by
  induction js generalizing fuel with
  | nil => exact absurd rfl hne
  | cons j js ih =>
      obtain ⟨hj, hjs⟩ := List.forall_mem_cons.mp hjs
      obtain ⟨hd, hds⟩ := List.forall_mem_cons.mp hdepth
      cases fuel with
      | zero => cases hfuel
      | succ fuel =>
      rw [readItems]
      cases js with
      | nil =>
          rw [writeItems_singleton] at hfuel ⊢
          rw [hj fuel depth _ (by omega) hd (stops_mark (by decide) rest)]
          rfl
      | cons k js =>
          -- the comma behind an item stops it, and all that follows is written as items are
          rw [writeItems_cons_cons, List.length_append, List.length_cons] at hfuel
          rw [writeItems_cons_cons, List.append_assoc, List.cons_append]
          rw [hj fuel depth _ (by omega) hd (stops_mark (by decide) _)]
          show (readItems fuel depth (writeItems (k :: js) ++ ']' :: rest)).map _ = _
          rw [ih hjs (List.cons_ne_nil k js) (by omega) hds]
          rfl

theorem writeMembers_cons_cons (m n : String × Json) (ms : List (String × Json)) :
    writeMembers (m :: n :: ms) =
      writeText m.1 ++ ':' :: (m.2.write ++ ',' :: writeMembers (n :: ms)) := rfl

theorem writeMembers_singleton (m : String × Json) :
    writeMembers [m] = writeText m.1 ++ ':' :: m.2.write :=
  congrArg (writeText m.1 ++ ':' :: ·) (List.append_nil _)

/-- **Members.** Members come back if what stands under each name does. -/
theorem readMembers_write {ms : List (String × Json)} (hms : ∀ m ∈ ms, ReadsBack m.2)
    (hne : ms ≠ []) {fuel depth : Nat} (hfuel : 2 * (writeMembers ms).length < fuel)
    (hdepth : ∀ m ∈ ms, m.2.depth ≤ depth) (rest : List Char) :
    readMembers fuel depth (writeMembers ms ++ '}' :: rest) = some (ms, rest) := by
  induction ms generalizing fuel with
  | nil => exact absurd rfl hne
  | cons m ms ih =>
      obtain ⟨hm, hms⟩ := List.forall_mem_cons.mp hms
      obtain ⟨hd, hds⟩ := List.forall_mem_cons.mp hdepth
      cases fuel with
      | zero => cases hfuel
      | succ fuel =>
      rw [readMembers]
      cases ms with
      | nil =>
          rw [writeMembers_singleton, List.length_append, List.length_cons] at hfuel
          rw [writeMembers_singleton, List.append_assoc, List.cons_append, readKey_write]
          show (readTree fuel depth (m.2.write ++ '}' :: rest)).bind _ = _
          rw [hm fuel depth _ (by omega) hd (stops_mark (by decide) rest)]
          rfl
      | cons n ms =>
          rw [writeMembers_cons_cons, List.length_append, List.length_cons, List.length_append,
            List.length_cons] at hfuel
          rw [writeMembers_cons_cons, List.append_assoc, List.cons_append, List.append_assoc,
            List.cons_append, readKey_write]
          show (readTree fuel depth (m.2.write ++ ',' :: _)).bind _ = _
          rw [hm fuel depth _ (by omega) hd (stops_mark (by decide) _)]
          show (readMembers fuel depth (writeMembers (n :: ms) ++ '}' :: rest)).map _ = _
          rw [ih hms (List.cons_ne_nil n ms) (by omega) hds]
          rfl

theorem exists_head_writeItems {js : List Json} (hne : js ≠ []) (hjs : ∀ j ∈ js, j.IsWhole) :
    ∃ c cs, writeItems js = c :: cs ∧ isBlank c = false ∧ c ≠ ']' := by
  cases js with
  | nil => exact absurd rfl hne
  | cons j js =>
      obtain ⟨c, cs, hcs, hc⟩ := exists_head_write (hjs j List.mem_cons_self)
      exact ⟨c, cs ++ writeMoreItems js, by rw [writeItems, hcs, List.cons_append], hc⟩

theorem exists_head_writeMembers {ms : List (String × Json)} (hne : ms ≠ []) :
    ∃ cs, writeMembers ms = '"' :: cs := by
  cases ms with
  | nil => exact absurd rfl hne
  | cons m ms => exact ⟨_, rfl⟩

/-! ## Trees -/

/-- Whatever is written with a character leaves the reader a call to read it. -/
theorem readsBack_of_succ {j : Json} (hpos : 0 < j.write.length)
    (h : ∀ fuel depth rest, 2 * j.write.length ≤ fuel + 1 → j.depth ≤ depth → Stops rest →
      readTree (fuel + 1) depth (j.write ++ rest) = some (j, rest)) : j.ReadsBack := by
  intro fuel depth rest hfuel
  cases fuel with
  | zero => omega
  | succ fuel => exact h fuel depth rest hfuel

theorem readsBack_number {n : JsonNumber} (hn : n.IsInteger) : ReadsBack (.number n) := by
  obtain ⟨c, cs, hcs, hc⟩ := JsonNumber.exists_head_write hn
  have hwrite : (number n).write = c :: cs := hcs
  refine readsBack_of_succ (by rw [hwrite]; exact Nat.succ_pos _) ?_
  intro fuel depth rest _ _ hstops
  have hread := JsonNumber.read_write hn hstops
  rw [hcs, List.cons_append] at hread
  rw [hwrite, List.cons_append, readTree_number hc, hread]
  rfl

theorem readsBack_text (s : String) : ReadsBack (.text s) := by
  refine readsBack_of_succ (Nat.succ_pos _) ?_
  intro fuel depth rest _ _ _
  show readTree (fuel + 1) depth (writeText s ++ rest) = _
  rw [writeText_append, readTree_quote, readText_write]
  rfl

theorem readsBack_array {js : List Json} (hwhole : ∀ j ∈ js, j.IsWhole)
    (hjs : ∀ j ∈ js, j.ReadsBack) : ReadsBack (.array js) := by
  refine readsBack_of_succ (Nat.succ_pos _) ?_
  intro fuel depth rest hfuel hdepth _
  cases depth with
  | zero => cases hdepth
  | succ depth =>
  have hdeep : ∀ j ∈ js, j.depth ≤ depth := by
    intro j hj
    exact Nat.le_trans (depth_le_depthItems hj) (Nat.le_of_succ_le_succ hdepth)
  have hwrite : (array js).write ++ rest = '[' :: (writeItems js ++ ']' :: rest) := by
    simp [write]
  have hlength : (array js).write.length = (writeItems js).length + 2 := by
    simp [write]
  rw [hwrite, readTree_bracket]
  by_cases hne : js = []
  · subst hne
    rfl
  · obtain ⟨c, cs, hcs, hblank, hclose⟩ := exists_head_writeItems hne hwhole
    have hread : readItems fuel depth (writeItems js ++ ']' :: rest) = some (js, rest) :=
      readItems_write hjs hne (by omega) hdeep rest
    rw [hcs, List.cons_append] at hread ⊢
    rw [skipBlanks_cons hblank]
    split
    case h_1 r heq =>
      -- no item begins as the end of an array does
      obtain ⟨rfl, -⟩ := List.cons.inj heq
      exact absurd rfl hclose
    case h_2 =>
      rw [hread]
      rfl

theorem readsBack_object {ms : List (String × Json)} (hms : ∀ m ∈ ms, m.2.ReadsBack) :
    ReadsBack (.object ms) := by
  refine readsBack_of_succ (Nat.succ_pos _) ?_
  intro fuel depth rest hfuel hdepth _
  cases depth with
  | zero => cases hdepth
  | succ depth =>
  have hdeep : ∀ m ∈ ms, m.2.depth ≤ depth := by
    intro m hm
    exact Nat.le_trans (depth_le_depthMembers hm) (Nat.le_of_succ_le_succ hdepth)
  have hwrite : (object ms).write ++ rest = '{' :: (writeMembers ms ++ '}' :: rest) := by
    simp [write]
  have hlength : (object ms).write.length = (writeMembers ms).length + 2 := by
    simp [write]
  rw [hwrite, readTree_brace]
  by_cases hne : ms = []
  · subst hne
    rfl
  · obtain ⟨cs, hcs⟩ := exists_head_writeMembers hne
    have hread : readMembers fuel depth (writeMembers ms ++ '}' :: rest) = some (ms, rest) :=
      readMembers_write hms hne (by omega) hdeep rest
    rw [hcs, List.cons_append] at hread ⊢
    show (readMembers fuel depth _).map _ = _
    rw [hread]
    rfl

/-- **Trees.** A tree whose numbers are all integers comes back from its text. -/
theorem readsBack_of_isWhole {j : Json} (hj : j.IsWhole) : j.ReadsBack := by
  induction hj with
  | null => exact readsBack_of_succ (Nat.succ_pos _) fun _ _ _ _ _ _ => rfl
  | bool b =>
      cases b with
      | true => exact readsBack_of_succ (Nat.succ_pos _) fun _ _ _ _ _ _ => rfl
      | false => exact readsBack_of_succ (Nat.succ_pos _) fun _ _ _ _ _ _ => rfl
  | number integer => exact readsBack_number integer
  | text s => exact readsBack_text s
  | array items ih => exact readsBack_array items ih
  | object members ih => exact readsBack_object ih

/-- **Whole texts.** The text of such a tree is read as that tree, with nothing left, if it nests no
deeper than may be read. -/
theorem readWritten_render {j : Json} (hj : j.IsWhole) (hdepth : j.depth ≤ maxDepth) :
    readWritten maxDepth j.render.toList = some (j, []) := by
  have htext : j.render.toList = j.write := String.toList_ofList
  have hread := readsBack_of_isWhole hj (2 * j.write.length + 2) maxDepth [] (by omega) hdepth
    stops_nil
  rw [List.append_nil] at hread
  rw [htext]
  exact hread

theorem parse?_render {j : Json} (hj : j.IsWhole) (hdepth : j.depth ≤ maxDepth) :
    parse? j.render = some j.ordered := by
  rw [parse?, parseWritten?, readWritten_render hj hdepth]
  rfl

end Json

namespace Value

/-! ## Values -/

/-- No floating point number occurs in a value. -/
def IsFloatless (v : Value) : Prop := ∀ u, Within u v → u.kind ≠ .float

theorem isFloatless_iff {v : Value} :
    IsFloatless v ↔ v.kind ≠ .float ∧ ∀ u, Part u v → IsFloatless u :=
  forall_within_iff

/-- A value without floating point numbers is written without fractions. -/
theorem isWhole_toJson {v : Value} (hv : v.IsFloatless) {j : Json} (h : v.toJson = .ok j) :
    j.IsWhole := by
  induction v using part_wellFounded.induction generalizing j with
  | _ v ih =>
  have hparts : ∀ u, Part u v → ∀ k, u.toJson = .ok k → k.IsWhole := by
    intro u hu k hk
    exact ih u hu ((isFloatless_iff.mp hv).2 u hu) hk
  cases toJson_eq_ok_iff.mp h with
  | str s => exact .text s
  | int n => exact .number (.int n)
  | float x finite => exact absurd rfl (isFloatless_iff.mp hv).1
  | bool b => exact .bool b
  | list items =>
      refine .array ?_
      exact forall_of_forall₂_right items fun u hu k hk => hparts u (.item hu) k hk
  | tuple items =>
      refine .object (List.forall_mem_singleton.mpr (.array ?_))
      exact forall_of_forall₂_right items fun u hu k hk => hparts u (.component hu) k hk
  | members members =>
      refine .object ?_
      exact forall_of_forall₂_right members fun e he m hm => hparts e.2 (.value he) m.2 hm.2
  | pairs keys pairs =>
      refine .object (List.forall_mem_singleton.mpr (.array ?_))
      refine forall_of_forall₂_right pairs fun e he j hj => ?_
      obtain ⟨k, l, hk, hl, rfl⟩ := hj
      refine .array fun i hi => ?_
      rcases List.mem_pair.mp hi with rfl | rfl
      · exact hparts e.1 (.key he) i hk
      · exact hparts e.2 (.value he) i hl

/-- The text of a tree without fractions and with its members in order is read as the tree is. -/
theorem ofJsonText_render {j : Json} (hj : j.IsWhole) (hordered : j.ordered = j)
    (hdepth : j.depth ≤ Json.maxDepth) :
    ofJsonText j.render = j.toValue.mapError .refused := by
  have hfront : Json.readFront Json.maxDepth j.render.toList = some (j, []) := by
    rw [Json.readFront, Json.readWritten_render hj hdepth]
    exact congrArg (fun k => some (k, [])) hordered
  rw [ofJsonText, hfront]
  cases hread : j.toValue with
  | ok w =>
      simp only [hread]
      rfl
  | error r =>
      simp only [hread]
      rfl

/-- **The text layer adds nothing.** Take any value that a program can build, without floating point
numbers, and with a tree that nests at most 127 arrays and objects. Its text is that of its tree, is
parsed as that very tree, and is read as a value just as the tree is: as the same value, or with the
same refusal. -/
theorem text_layer_adds_nothing {v : Value} (hv : v.Built) (hfloat : v.IsFloatless) {j : Json}
    (h : v.toJson = .ok j) (hdepth : j.depth ≤ 127) :
    v.toJsonText = .ok j.render ∧ Json.parse? j.render = some j ∧
      ofJsonText j.render = j.toValue.mapError .refused := by
  have hwhole := isWhole_toJson hfloat h
  have hordered := ordered_toJson hv.ordered h
  refine ⟨?_, ?_, ?_⟩
  · rw [toJsonText, h]
    rfl
  · rw [Json.parse?_render hwhole hdepth, hordered]
  · exact ofJsonText_render hwhole hordered hdepth

/-- The least integer comes back under a name of escaped characters, and what is refused as a tree
is refused as a text. -/
theorem text_layer_adds_nothing_escapes :
    ofJsonText (Json.object [("\"\\\n\x01é",
        .array [.number (.int (Int64.ofInt (-9223372036854775808)))])]).render =
      .ok (map [(str "\"\\\n\x01é", list [int (Int64.ofInt (-9223372036854775808))])]) ∧
    ofJsonText (Json.object [(mapTag, .array [.bool true])]).render = .error (.refused .entry) := by
  have hfloatless : ∀ s v, Value.kind v ≠ .float → (∀ u, ¬ Part u v) →
      (map [(str s, list [v])]).IsFloatless := by
    intro s v hv hleaf
    refine isFloatless_iff.mpr ⟨by simp [kind], fun u hu => ?_⟩
    obtain ⟨e, he, hu⟩ := part_map_iff.mp hu
    obtain rfl := List.mem_singleton.mp he
    rcases hu with rfl | rfl
    · exact isFloatless_iff.mpr ⟨by simp [kind], nofun⟩
    · refine isFloatless_iff.mpr ⟨by simp [kind], fun u hu => ?_⟩
      obtain rfl := List.mem_singleton.mp (part_list_iff.mp hu)
      exact isFloatless_iff.mpr ⟨hv, fun u hu => absurd hu (hleaf u)⟩
  have hnames : (map [(str "\"\\\n\x01é",
      list [int (Int64.ofInt (-9223372036854775808))])]).Built :=
    built_box (t := .map (.plain .text) (.list (.plain (.int .signed64))))
      (x := [("\"\\\n\x01é", [⟨-9223372036854775808, by decide⟩])]) rfl
  have htag : (map [(str mapTag, list [bool true])]).Built :=
    built_box (t := .map (.plain .text) (.list (.plain .bool))) (x := [(mapTag, [true])]) rfl
  constructor
  · exact (text_layer_adds_nothing hnames (hfloatless _ _ (by decide) nofun) rfl (by decide)).2.2
  · exact (text_layer_adds_nothing htag (hfloatless _ _ (by decide) nofun) rfl (by decide)).2.2

end Value

end TaggedValue
