import TaggedValue.Plain.Extract

/-!
# Typed properties

A typed property is a name together with the plain type of its members. Setting it boxes a member,
and getting it extracts one. A default stands in for an unset name only, never for a value that
does not fit.
-/

namespace TaggedValue

/-- The value of a name, as a member of a plain type. -/
def Properties.getAs (p : Properties) (t : PlainType) (name : String) : Except Fault t.Member :=
  (p.get name).bind t.extract

/-- A name with a plain type. -/
structure Property where
  name : String
  type : PlainType
deriving DecidableEq, Repr

namespace Property

/-- The member that is set. -/
def get (q : Property) (p : Properties) : Except Fault q.type.Member := p.getAs q.type q.name

/-- The member that is set, or a default if none is. -/
def getOr (q : Property) (p : Properties) (default : q.type.Member) :
    Except Fault q.type.Member :=
  match p.get? q.name with
  | some v => q.type.extract v
  | none => .ok default

/-- Sets a member, and gives the value that was bound before. -/
def set (q : Property) (p : Properties) (x : q.type.Member) : Properties × Option Value :=
  Properties.set p q.name (q.type.box x)

def outline (q : Property) : String := "Property(" ++ q.name ++ ")"

end Property

/-! ## Properties of processors -/

namespace Processor

/-- Whether subnormal numbers may be flushed to zero. -/
def denormalsOptimization : Property := ⟨"CPU_DENORMALS_OPTIMIZATION", .bool⟩

/-- From which rate on sparse weights are decompressed. -/
def sparseWeightsRate : Property := ⟨"CPU_SPARSE_WEIGHTS_DECOMPRESSION_RATE", .single⟩

/-- Whether memory is allocated for the largest size. -/
def allocateMaxSize : Property := ⟨"CPU_ALLOCATE_MAX_SIZE", .bool⟩

end Processor

end TaggedValue
