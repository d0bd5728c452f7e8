import TaggedValue.Json.Codec

/-!
# Settings

What a configuration layer holds before it is turned into values. A setting is an interchange tree
in which an integer may also be beyond 64 bits, which no value can stand for. Layers are merged: a
later table adds its members to an earlier one, member by member, and everything else takes the
place of what was there.

Two keys are reserved in every table inside a layer, but not in the layer itself. The member with
the content key stands for the whole table around it, and the member with the origin key only says
where that table comes from. An origin has to be an integer of 64 bits without sign; a layer with
any other origin in it, be it that of a member that does not stay, cannot be read.
-/

namespace TaggedValue

/-- The key of a member that stands for the table around it. -/
def contentKey : String := "___figment_value_value"

/-- The key of a member that says where the table around it comes from. -/
def originKey : String := "___figment_value_id"

/-- A part of a configuration layer. -/
inductive Setting
  | null
  | bool (b : Bool)
  | number (n : JsonNumber)
  /-- An integer beyond 64 bits. -/
  | huge
  | text (s : String)
  | list (items : List Setting)
  /-- Members in ascending order of their names. -/
  | table (members : List (String × Setting))

namespace Setting

/-- Any members in order. The last one given for a name stays. -/
def collect (ms : List (String × Setting)) : List (String × Setting) :=
  ms.foldl (fun kept m => Table.insertInto m.1 m.2 kept) []

/-- What a table inside a layer stands for: its content, if it has one, and otherwise its members
without the origin. -/
def ofMembers (ms : List (String × Setting)) : Setting :=
  match Table.lookup contentKey (collect ms) with
  | some content => content
  | none => .table (collect (ms.filter fun m => m.1 != originKey))

/-! ## From trees -/

/-- Whether a tree is an integer of 64 bits without sign. -/
def isOriginTree : Json → Bool
  | .number (.int n) => 0 ≤ n
  | .number (.large _ _) => true
  | _ => false

mutual

/-- What a tree stands for, as it is written, if every origin in it is one. -/
def ofJson : Json → Option Setting
  | .null => some .null
  | .bool b => some (.bool b)
  | .number n => some (.number n)
  | .text s => some (.text s)
  | .array js => (ofJsonItems js).map .list
  | .object ms =>
      if ms.all fun (k, j) => k != originKey || isOriginTree j then
        (ofJsonMembers ms).map ofMembers
      else none
termination_by structural j => j

def ofJsonItems : List Json → Option (List Setting)
  | [] => some []
  | j :: js => (ofJson j).bind fun s => (ofJsonItems js).map (s :: ·)
termination_by structural js => js

def ofJsonMembers : List (String × Json) → Option (List (String × Setting))
  | [] => some []
  | (k, j) :: ms => (ofJson j).bind fun s => (ofJsonMembers ms).map ((k, s) :: ·)
termination_by structural ms => ms

end

/-! ## To trees -/

mutual

/-- The tree of a setting, if no integer in it is beyond 64 bits. -/
def toJson? : Setting → Option Json
  | .null => some .null
  | .bool b => some (.bool b)
  | .number n => some (.number n)
  | .huge => none
  | .text s => some (.text s)
  | .list ss => (toJsonItems? ss).map .array
  | .table ms => (toJsonMembers? ms).map .object
termination_by structural s => s

def toJsonItems? : List Setting → Option (List Json)
  | [] => some []
  | s :: ss => (toJson? s).bind fun j => (toJsonItems? ss).map (j :: ·)
termination_by structural ss => ss

def toJsonMembers? : List (String × Setting) → Option (List (String × Json))
  | [] => some []
  | (k, s) :: ms => (toJson? s).bind fun j => (toJsonMembers? ms).map ((k, j) :: ·)
termination_by structural ms => ms

end

/-! ## Merging -/

mutual

/-- The later of two settings, on top of the earlier one. -/
def merge : Setting → Setting → Setting
  | .table earlier, .table later => .table (mergeMembers earlier later)
  | _, later => later
termination_by structural _ later => later

/-- Puts members into a table one by one, each merged with what has its name. -/
def mergeMembers : List (String × Setting) → List (String × Setting) → List (String × Setting)
  | members, [] => members
  | members, (k, s) :: later =>
      let merged :=
        match Table.lookup k members with
        | some t => merge t s
        | none => s
      mergeMembers (Table.insertInto k merged members) later
termination_by structural _ later => later

end

end Setting

end TaggedValue
