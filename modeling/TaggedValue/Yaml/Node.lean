import TaggedValue.Yaml.Token

/-!
# Nodes

The tree that a row of tokens stands for. A missing item, key or value is an empty plain scalar.
Each reader takes what it needs from the front of the tokens and gives the others, or nothing if the
tokens do not begin with what it reads; its number bounds the calls that follow.
-/

namespace TaggedValue.Yaml

inductive Node
  | scalar (text : String) (plain : Bool)
  | sequence (items : List Node)
  | mapping (pairs : List (Node × Node))

namespace Node

/-- What stands where nothing is written. -/
def missing : Node := .scalar "" true

/-- Nodes read from the front of some tokens, and the other tokens. -/
abbrev Front (α : Type) := Option (α × List Token)

/-- Whether no item of a block sequence follows. -/
def endsBlockItem : List Token → Bool
  | .blockEntry :: _ | .blockEnd :: _ => true
  | _ => false

/-- Whether no item of a sequence that stands at the column of its key follows. -/
def endsFlushItem : List Token → Bool
  | .blockEntry :: _ | .key :: _ | .value :: _ | .blockEnd :: _ => true
  | _ => false

/-- Whether no key or value of a block mapping follows. -/
def endsBlockPart : List Token → Bool
  | .key :: _ | .value :: _ | .blockEnd :: _ => true
  | _ => false

/-- Whether no part of a pair in a flow sequence follows. -/
def endsSequencePart : List Token → Bool
  | .value :: _ | .flowEntry :: _ | .flowSequenceEnd :: _ => true
  | _ => false

/-- Whether no part of a flow mapping follows. -/
def endsMappingPart : List Token → Bool
  | .value :: _ | .flowEntry :: _ | .flowMappingEnd :: _ => true
  | _ => false

mutual

/-- A node. Block collections are read only where they may stand, and a sequence at the column of
its key only behind a key or colon. -/
def read (inBlock flush : Bool) : Nat → List Token → Front Node
  | 0, _ => none
  | fuel + 1, ts =>
      match ts with
      | .scalar text plain :: r => some (.scalar text plain, r)
      | .blockEntry :: _ =>
          if flush then (readFlushItems fuel ts).map fun (ns, r) => (.sequence ns, r) else none
      | .flowSequence :: r =>
          (readFlowItems true fuel r).map fun (ns, r) => (.sequence ns, r)
      | .flowMapping :: r =>
          (readFlowPairs true fuel r).map fun (ps, r) => (.mapping ps, r)
      | .blockSequence :: r =>
          if inBlock then (readBlockItems fuel r).map fun (ns, r) => (.sequence ns, r) else none
      | .blockMapping :: r =>
          if inBlock then (readBlockPairs fuel r).map fun (ps, r) => (.mapping ps, r) else none
      | _ => none
termination_by structural fuel => fuel

def readBlockItems : Nat → List Token → Front (List Node)
  | 0, _ => none
  | fuel + 1, ts =>
      match ts with
      | .blockEntry :: r =>
          let item := if endsBlockItem r then some (missing, r) else read true false fuel r
          item.bind fun (n, r) => (readBlockItems fuel r).map fun (ns, r) => (n :: ns, r)
      | .blockEnd :: r => some ([], r)
      | _ => none
termination_by structural fuel => fuel

/-- The items of a sequence that stands at the column of its key. -/
def readFlushItems : Nat → List Token → Front (List Node)
  | 0, _ => none
  | fuel + 1, ts =>
      match ts with
      | .blockEntry :: r =>
          let item := if endsFlushItem r then some (missing, r) else read true false fuel r
          item.bind fun (n, r) => (readFlushItems fuel r).map fun (ns, r) => (n :: ns, r)
      | _ => some ([], ts)
termination_by structural fuel => fuel

def readBlockPairs : Nat → List Token → Front (List (Node × Node))
  | 0, _ => none
  | fuel + 1, ts =>
      match ts with
      | .key :: r =>
          let key := if endsBlockPart r then some (missing, r) else read true true fuel r
          key.bind fun (k, r) =>
            let value :=
              match r with
              | .value :: r =>
                  if endsBlockPart r then some (missing, r) else read true true fuel r
              | r => some (missing, r)
            value.bind fun (v, r) =>
              (readBlockPairs fuel r).map fun (ps, r) => ((k, v) :: ps, r)
      | .blockEnd :: r => some ([], r)
      | _ => none
termination_by structural fuel => fuel

/-- The items of a flow sequence, of which a pair is one with a single pair. Behind the first item
there is a comma before each. -/
def readFlowItems (first : Bool) : Nat → List Token → Front (List Node)
  | 0, _ => none
  | fuel + 1, ts =>
      match ts with
      | .flowSequenceEnd :: r => some ([], r)
      | _ =>
          let behindComma :=
            if first then some ts
            else
              match ts with
              | .flowEntry :: r => some r
              | _ => none
          behindComma.bind fun ts =>
            match ts with
            | .flowSequenceEnd :: r => some ([], r)
            | .key :: r =>
                (readFlowPair fuel r).bind fun (p, r) =>
                  (readFlowItems false fuel r).map fun (ns, r) => (.mapping [p] :: ns, r)
            | _ =>
                (read false false fuel ts).bind fun (n, r) =>
                  (readFlowItems false fuel r).map fun (ns, r) => (n :: ns, r)
termination_by structural fuel => fuel

/-- The pair behind a key mark in a flow sequence. Without a key the token that follows the mark
is passed over. -/
def readFlowPair : Nat → List Token → Front (Node × Node)
  | 0, _ => none
  | fuel + 1, ts =>
      let key := if endsSequencePart ts then some (missing, ts.drop 1) else read false false fuel ts
      key.bind fun (k, r) =>
        match r with
        | .value :: r =>
            match r with
            | .flowEntry :: _ | .flowSequenceEnd :: _ => some ((k, missing), r)
            | _ => (read false false fuel r).map fun (v, r) => ((k, v), r)
        | _ => some ((k, missing), r)
termination_by structural fuel => fuel

/-- The pairs of a flow mapping. Behind the first pair there is a comma before each. -/
def readFlowPairs (first : Bool) : Nat → List Token → Front (List (Node × Node))
  | 0, _ => none
  | fuel + 1, ts =>
      match ts with
      | .flowMappingEnd :: r => some ([], r)
      | _ =>
          let behindComma :=
            if first then some ts
            else
              match ts with
              | .flowEntry :: r => some r
              | _ => none
          behindComma.bind fun ts =>
            match ts with
            | .flowMappingEnd :: r => some ([], r)
            | .key :: r =>
                let key := if endsMappingPart r then some (missing, r) else read false false fuel r
                key.bind fun (k, r) =>
                  let value :=
                    match r with
                    | .value :: r =>
                        match r with
                        | .flowEntry :: _ | .flowMappingEnd :: _ => some (missing, r)
                        | _ => read false false fuel r
                    | r => some (missing, r)
                  value.bind fun (v, r) =>
                    (readFlowPairs false fuel r).map fun (ps, r) => ((k, v) :: ps, r)
            | _ =>
                (read false false fuel ts).bind fun (k, r) =>
                  (readFlowPairs false fuel r).map fun (ps, r) => ((k, missing) :: ps, r)
termination_by structural fuel => fuel

end

/-- What a row of tokens holds: nothing at all, or one document. -/
inductive Content
  | nothing
  | document (root : Node)

/-- The content of a row of tokens. Three calls for each token are enough. -/
def content? (ts : List Token) : Option Content :=
  let fuel := 3 * ts.length + 3
  match ts with
  | [] => some .nothing
  | _ =>
      let root :=
        match ts with
        | .documentStart :: r =>
            match r with
            | .documentStart :: _ | .documentEnd :: _ | [] => some (missing, r)
            | _ => read true false fuel r
        | _ => read true false fuel ts
      root.bind fun (n, rest) =>
        if rest.all (· == .documentEnd) then some (.document n) else none

/-- The content of a text. -/
def parse? (text : String) : Option Content := (tokens? text).bind content?

mutual

/-- How many collections lie around the innermost part. -/
def depth : Node → Nat
  | .scalar _ _ => 0
  | .sequence ns => depthItems ns + 1
  | .mapping ps => depthPairs ps + 1
termination_by structural n => n

def depthItems : List Node → Nat
  | [] => 0
  | n :: ns => max (depth n) (depthItems ns)
termination_by structural ns => ns

def depthPairs : List (Node × Node) → Nat
  | [] => 0
  | (k, v) :: ps => max (max (depth k) (depth v)) (depthPairs ps)
termination_by structural ps => ps

end

end Node

end TaggedValue.Yaml
