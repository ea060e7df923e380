/-
TreeLint/Yaml/Parser.lean

Reading YAML: the nodes that tokens stand for.  A text holds at most one
document; more, or anything that is not YAML, is refused, and no document is
as good as an empty one.

Anchors are numbered.  The number of an anchor is the number of different
names in use before it, so an anchor that takes a name again can get a number
that is in use.  An alias stands for the number that its name has last got,
and a number for the last node in the document that has got it.

Each reader takes the tokens from where it stands and the anchors so far, and
gives a node with what is left of the tokens and the anchors that are known
then.  Every call consumes a token or calls one that does, so the number of
tokens bounds the nesting of calls.
-/
import TreeLint.Yaml.Lexer

namespace TreeLint.Yaml

/-- Where a reader stands: the tokens that are left, the numbers of the names in use, and the
anchored nodes so far with the one that starts last first. -/
structure Cursor where
  tokens : List Token
  names : List (String × Nat)
  anchored : List (Nat × Node)
  deriving Repr

namespace Cursor

/-- Goes on to other tokens. -/
def goto (cur : Cursor) (tokens : List Token) : Cursor := { cur with tokens := tokens }

/-- Gives a name the number of names in use before. -/
def name (cur : Cursor) (a : String) : Cursor :=
  { cur with names := (a, cur.names.length) :: cur.names.filter (·.1 != a) }

/-- Keeps a node that has been read since `start`; the nodes in it start later. -/
def keep (cur start : Cursor) (v : Node) : Cursor :=
  let inner := cur.anchored.take (cur.anchored.length - start.anchored.length)
  { cur with anchored := inner ++ (start.names.length, v) :: start.anchored }

end Cursor

/-- What a reader gives. -/
abbrev Reading (α : Type) := Option (α × Cursor)

/-- Which nodes may stand at a place: only those of flow collections, all, or also a sequence that
is not indented. -/
inductive Place where
  | flow | block | entry
  deriving DecidableEq, Repr

/-- The handles for tags, with what each stands for. -/
abbrev Handles := List (String × TagText)

/-- What a tag stands for, if its handle is known. -/
def resolveTag? (handles : Handles) (handle : String) (suffix : TagText) : Option TagText :=
  if handle.isEmpty then some suffix else (handles.lookup handle).map (· ++ suffix)

/-- What stands before a node: an anchor, and a tag.  A tag that spells no text is none, but it is
still `given`. -/
structure Properties where
  anchor : Option String := none
  tag : Option String := none
  given : Bool := false
  deriving DecidableEq, Repr

/-- The properties with a tag. -/
def Properties.withTag (p : Properties) (tag : TagText) : Properties :=
  { p with tag := (tag.mapM id).map String.ofList, given := true }

/-- The properties that an anchor alone makes. -/
def Properties.ofAnchor (a : String) : Properties := { anchor := some a, given := true }

/-- The anchor and the tag before a node, in either order. -/
def properties? (handles : Handles) : List Token → Option (Properties × List Token)
  | .anchor a :: .tag handle suffix :: rest | .tag handle suffix :: .anchor a :: rest =>
    (resolveTag? handles handle suffix).map fun tag =>
      ((Properties.ofAnchor a).withTag tag, rest)
  | .anchor a :: rest => some (.ofAnchor a, rest)
  | .tag handle suffix :: rest =>
    (resolveTag? handles handle suffix).map fun tag => (Properties.withTag {} tag, rest)
  | rest => some ({}, rest)

mutual

/-- A node. -/
def node (handles : Handles) : (bound : Nat) → Place → Cursor → Reading Node
  | 0, _, _ => none
  | bound + 1, place, cur =>
    match cur.tokens with
    | .reference name :: rest =>
      (cur.names.lookup name).map fun number => (.reference number, cur.goto rest)
    | tokens =>
      match properties? handles tokens with
      | none => none
      | some (p, tokens) =>
        match p.anchor with
        | none => content handles bound place p (cur.goto tokens)
        | some a =>
          (content handles bound place p ((cur.goto tokens).name a)).map
            fun (v, after) => (v, after.keep cur v)

/-- A node behind its properties; where one is given, the node may be empty. -/
def content (handles : Handles) :
    (bound : Nat) → Place → Properties → Cursor → Reading Node
  | 0, _, _, _ => none
  | bound + 1, place, p, cur =>
    match place, cur.tokens with
    | _, .scalar text style :: rest => some (.scalar text style p.tag, cur.goto rest)
    | _, .flowSequence :: rest =>
      (flowItems handles bound true (cur.goto rest)).map fun (vs, cur) => (.sequence vs, cur)
    | _, .flowMapping :: rest =>
      (flowEntries handles bound true (cur.goto rest)).map fun (es, cur) => (.mapping es, cur)
    | .entry, .item :: _ =>
      (looseItems handles bound cur).map fun (vs, cur) => (.sequence vs, cur)
    | .block, .blockSequence :: rest | .entry, .blockSequence :: rest =>
      (blockItems handles bound (cur.goto rest)).map fun (vs, cur) => (.sequence vs, cur)
    | .block, .blockMapping :: rest | .entry, .blockMapping :: rest =>
      (blockEntries handles bound (cur.goto rest)).map fun (es, cur) => (.mapping es, cur)
    | _, _ => if p.given then some (.scalar "" .plain p.tag, cur) else none

/-- The items of a block sequence. -/
def blockItems (handles : Handles) : (bound : Nat) → Cursor → Reading (List Node)
  | 0, _ => none
  | bound + 1, cur =>
    match cur.tokens with
    | .blockEnd :: rest => some ([], cur.goto rest)
    | .item :: rest =>
      let item : Reading Node := match rest with
        | .item :: _ | .blockEnd :: _ => some (.void, cur.goto rest)
        | _ => node handles bound .block (cur.goto rest)
      match item with
      | none => none
      | some (v, cur) => (blockItems handles bound cur).map fun (vs, cur) => (v :: vs, cur)
    | _ => none

/-- The items of a sequence that is not indented. -/
def looseItems (handles : Handles) : (bound : Nat) → Cursor → Reading (List Node)
  | 0, _ => none
  | bound + 1, cur =>
    match cur.tokens with
    | .item :: rest =>
      let item : Reading Node := match rest with
        | .item :: _ | .key :: _ | .value :: _ | .blockEnd :: _ => some (.void, cur.goto rest)
        | _ => node handles bound .block (cur.goto rest)
      match item with
      | none => none
      | some (v, cur) => (looseItems handles bound cur).map fun (vs, cur) => (v :: vs, cur)
    | _ => some ([], cur)

/-- A key or a value of a block mapping. -/
def blockSide (handles : Handles) : (bound : Nat) → Cursor → Reading Node
  | 0, _ => none
  | bound + 1, cur =>
    match cur.tokens with
    | .key :: _ | .value :: _ | .blockEnd :: _ => some (.void, cur)
    | _ => node handles bound .entry cur

/-- The entries of a block mapping. -/
def blockEntries (handles : Handles) : (bound : Nat) → Cursor → Reading (List (Node × Node))
  | 0, _ => none
  | bound + 1, cur =>
    match cur.tokens with
    | .blockEnd :: rest => some ([], cur.goto rest)
    | .key :: rest =>
      match blockSide handles bound (cur.goto rest) with
      | none => none
      | some (k, cur) =>
        let value : Reading Node := match cur.tokens with
          | .value :: rest => blockSide handles bound (cur.goto rest)
          | _ => some (.void, cur)
        match value with
        | none => none
        | some (v, cur) =>
          (blockEntries handles bound cur).map fun (es, cur) => ((k, v) :: es, cur)
    | _ => none

/-- The items of a flow sequence; all but the first follow a comma. -/
def flowItems (handles : Handles) :
    (bound : Nat) → (first : Bool) → Cursor → Reading (List Node)
  | 0, _, _ => none
  | bound + 1, first, cur =>
    match cur.tokens, first with
    | .flowSequenceEnd :: rest, _ | .comma :: .flowSequenceEnd :: rest, false =>
      some ([], cur.goto rest)
    | .comma :: rest, false | rest, true =>
      let item : Reading Node := match rest with
        | .key :: rest =>
          (pair handles bound (cur.goto rest)).map fun (e, cur) => (.mapping [e], cur)
        | _ => node handles bound .flow (cur.goto rest)
      match item with
      | none => none
      | some (v, cur) =>
        (flowItems handles bound false cur).map fun (vs, cur) => (v :: vs, cur)
    | _, _ => none

/-- A key and a value in a flow sequence, behind the mark of the key.  Where no key follows, the
token that stands there instead is passed over. -/
def pair (handles : Handles) : (bound : Nat) → Cursor → Reading (Node × Node)
  | 0, _ => none
  | bound + 1, cur =>
    let key : Reading Node := match cur.tokens with
      | .value :: rest | .comma :: rest | .flowSequenceEnd :: rest => some (.void, cur.goto rest)
      | _ => node handles bound .flow cur
    match key with
    | none => none
    | some (k, cur) =>
      match cur.tokens with
      | .value :: .comma :: rest => some ((k, .void), cur.goto (.comma :: rest))
      | .value :: .flowSequenceEnd :: rest =>
        some ((k, .void), cur.goto (.flowSequenceEnd :: rest))
      | .value :: rest =>
        (node handles bound .flow (cur.goto rest)).map fun (v, cur) => ((k, v), cur)
      | _ => some ((k, .void), cur)

/-- A key of a flow mapping, or a value of it behind its mark. -/
def flowSide (handles : Handles) : (bound : Nat) → (ends : List Token) → Cursor → Reading Node
  | 0, _, _ => none
  | bound + 1, ends, cur =>
    if cur.tokens.head?.any (ends.contains ·) then some (.void, cur)
    else node handles bound .flow cur

/-- The entries of a flow mapping; all but the first follow a comma. -/
def flowEntries (handles : Handles) :
    (bound : Nat) → (first : Bool) → Cursor → Reading (List (Node × Node))
  | 0, _, _ => none
  | bound + 1, first, cur =>
    match cur.tokens, first with
    | .flowMappingEnd :: rest, _ | .comma :: .flowMappingEnd :: rest, false =>
      some ([], cur.goto rest)
    | .comma :: rest, false | rest, true =>
      let entry : Reading (Node × Node) := match rest with
        | .key :: rest =>
          match flowSide handles bound [.value, .comma, .flowMappingEnd] (cur.goto rest) with
          | none => none
          | some (k, cur) =>
            match cur.tokens with
            | .value :: rest =>
              (flowSide handles bound [.comma, .flowMappingEnd] (cur.goto rest)).map
                fun (v, cur) => ((k, v), cur)
            | _ => some ((k, .void), cur)
        | _ => (node handles bound .flow (cur.goto rest)).map fun (k, cur) => ((k, .void), cur)
      match entry with
      | none => none
      | some (e, cur) =>
        (flowEntries handles bound false cur).map fun (es, cur) => (e :: es, cur)
    | _, _ => none

end

/-! ### Documents -/

/-- The handles that are known without a directive. -/
def standardHandles : Handles := [("!", [some '!']), ("!!", (coreTag "").toList.map some)]

/-- The directives before a document: the handles they make, whether a version is given, and what
is left. -/
def directives? : (handles : Handles) → (versioned : Bool) → List Token →
    Option (Handles × List Token)
  | handles, versioned, .version major minor :: rest =>
    if versioned || major ≠ 1 || !(minor == 1 || minor == 2) then none
    else directives? handles true rest
  | handles, versioned, .shorthand handle stem :: rest =>
    if (handles.lookup handle).isSome then none
    else directives? ((handle, stem) :: handles) versioned rest
  | handles, _, rest => some (handles, rest)

/-- A document, and the tokens behind it. -/
def document? (tokens : List Token) : Option (Yaml × List Token) := do
  let (made, rest) ← directives? [] false tokens
  let void : Yaml := ⟨.void, []⟩
  let read (tokens : List Token) : Option (Yaml × List Token) :=
    (node (made ++ standardHandles) (4 * tokens.length + 4) .block ⟨tokens, [], []⟩).map
      fun (v, cur) => (⟨v, cur.anchored⟩, cur.tokens)
  match rest with
  | .documentStart :: rest =>
    match rest with
    | [] | .version _ _ :: _ | .shorthand _ _ :: _ | .documentStart :: _ | .documentEnd :: _ =>
      some (void, rest)
    | _ => read rest
  | _ =>
    if rest.length < tokens.length then none
    else if rest.isEmpty then some (void, [])
    else read rest

/-- The only document of a text. -/
def parse (text : String) : Option Yaml := do
  let (v, rest) ← document? (← tokens? (← cells? text))
  if rest.all (· == .documentEnd) then some v else none

end TreeLint.Yaml
