/-
  The tree of a YAML text: scalars, sequences and mappings with their tags, before it is known what
  the scalars stand for.  An alias stands for the node of its anchor.

  * `Tree.ofPieces` is the tree of the pieces of a text; a text may hold one document only.
-/
import Schemata.Yaml.Piece

namespace Schemata.Yaml

/-- A node of a document. -/
inductive Tree where
  /-- A scalar; without quotes and without a tag it stands for what it is spelled like. -/
  | scalar (tag : Option String) (isPlain : Bool) (text : String)
  | sequence (tag : Option String) (items : List Tree)
  | mapping (tag : Option String) (entries : List (Tree × Tree))
deriving Repr

namespace Tree

instance : Inhabited Tree := ⟨.scalar none true ""⟩

/-- The node that stands where there is none. -/
def empty : Tree := .scalar none true ""

/-! ## Reading -/

/-- What remains of the pieces of a document, and its nodes by anchor. -/
structure Source where
  pieces : List Piece
  anchors : List (String × Tree) := []
  /-- The prefixes of tags by handle. -/
  handles : List (String × String) := []

/-- The properties of a node. -/
structure Properties where
  anchor : Option String := none
  tag : Option String := none

namespace Source

/-- The source without its first piece. -/
def skip (s : Source) : Source := { s with pieces := s.pieces.tail }

/-- Whether the next piece is one of some. -/
def startsWith (s : Source) (pieces : List Piece) : Bool := s.pieces.head?.any pieces.contains

/-- The prefixes that every document knows. -/
def knownHandles : List (String × String) := [("!", "!"), ("!!", "tag:yaml.org,2002:")]

/-- The tag of a handle and a suffix. -/
def tagOf (s : Source) (handle : Option String) (suffix : String) : Except Problem String :=
  match handle with
  | none => .ok suffix
  | some h =>
    match (s.handles ++ knownHandles).lookup h with
    | some meaning => .ok (meaning ++ suffix)
    | none => .error .form

/-- The properties at the start of a node: an anchor, a tag, or both in any order. -/
def properties (s : Source) : Except Problem (Properties × Source) :=
  match s.pieces with
  | .anchor a :: .tag h x :: rest =>
    (s.tagOf h x).map fun t => ({ anchor := some a, tag := some t }, { s with pieces := rest })
  | .tag h x :: .anchor a :: rest =>
    (s.tagOf h x).map fun t => ({ anchor := some a, tag := some t }, { s with pieces := rest })
  | .anchor a :: rest => .ok ({ anchor := some a }, { s with pieces := rest })
  | .tag h x :: rest => (s.tagOf h x).map fun t => ({ tag := some t }, { s with pieces := rest })
  | _ => .ok ({}, s)

/-- The source with a node known by its anchor. -/
def bind (s : Source) (p : Properties) (t : Tree) : Source :=
  match p.anchor with
  | some a => { s with anchors := (a, t) :: s.anchors }
  | none => s

end Source

/-- The pieces before which a key or a value in a block mapping may be left out. -/
def blockEnds : List Piece := [.key, .value, .blockEnd]

/-- The pieces before which a value in a flow mapping may be left out. -/
def flowEnds : List Piece := [.comma, .flowMappingEnd]

/-- The pieces before which a value in a pair of a flow sequence may be left out. -/
def pairEnds : List Piece := [.comma, .flowSequenceEnd]

mutual

/-- A node.  `inBlock` says whether it may be a block collection, `underKey` whether it may be a
    sequence whose dashes are not indented. -/
def node (fuel : Nat) (inBlock underKey : Bool) (s : Source) : Except Problem (Tree × Source) :=
  match fuel with
  | 0 => .error .form
  | fuel + 1 =>
    match s.pieces with
    | .alias a :: rest =>
      match s.anchors.lookup a with
      | some t => .ok (t, { s with pieces := rest })
      | none => .error .form
    | _ => do
      let (p, s) ← s.properties
      if p.anchor.any fun a => (s.anchors.lookup a).isSome then .error .form
      else
        let (t, s) ← content fuel inBlock underKey p s
        return (t, s.bind p t)

/-- What a node holds, after its properties. -/
def content (fuel : Nat) (inBlock underKey : Bool) (p : Properties) (s : Source) :
    Except Problem (Tree × Source) :=
  match fuel with
  | 0 => .error .form
  | fuel + 1 =>
    let sequenceOf (x : Except Problem (List Tree × Source)) : Except Problem (Tree × Source) :=
      x.map fun (l, s) => (.sequence p.tag l, s)
    let mappingOf (x : Except Problem (List (Tree × Tree) × Source)) :
        Except Problem (Tree × Source) :=
      x.map fun (l, s) => (.mapping p.tag l, s)
    match s.pieces with
    | .scalar isPlain text :: _ => .ok (.scalar p.tag isPlain text, s.skip)
    | .flowSequence :: _ => sequenceOf (flowItems fuel true s.skip)
    | .flowMapping :: _ => mappingOf (flowEntries fuel true s.skip)
    | next =>
      if underKey && s.startsWith [.dash] then sequenceOf (looseItems fuel s)
      else if inBlock && next.head? == some .blockSequence then sequenceOf (blockItems fuel s.skip)
      else if inBlock && next.head? == some .blockMapping then
        mappingOf (blockEntries fuel s.skip)
      else if p.anchor.isSome || p.tag.isSome then .ok (.scalar p.tag true "", s)
      else .error .form

/-- A node, or an empty one before some pieces. -/
def nodeUnless (fuel : Nat) (inBlock underKey : Bool) (ends : List Piece) (s : Source) :
    Except Problem (Tree × Source) :=
  match fuel with
  | 0 => .error .form
  | fuel + 1 =>
    if s.startsWith ends then .ok (empty, s) else node fuel inBlock underKey s

/-- The items of a block sequence up to its end. -/
def blockItems (fuel : Nat) (s : Source) : Except Problem (List Tree × Source) :=
  match fuel with
  | 0 => .error .form
  | fuel + 1 =>
    match s.pieces with
    | .dash :: _ => do
      let (t, s) ← nodeUnless fuel true false [.dash, .blockEnd] s.skip
      let (l, s) ← blockItems fuel s
      return (t :: l, s)
    | .blockEnd :: _ => .ok ([], s.skip)
    | _ => .error .form

/-- The items of a sequence whose dashes stand in the column of the key before it. -/
def looseItems (fuel : Nat) (s : Source) : Except Problem (List Tree × Source) :=
  match fuel with
  | 0 => .error .form
  | fuel + 1 =>
    match s.pieces with
    | .dash :: _ => do
      let (t, s) ← nodeUnless fuel true false [.dash, .key, .value, .blockEnd] s.skip
      let (l, s) ← looseItems fuel s
      return (t :: l, s)
    | _ => .ok ([], s)

/-- The entries of a block mapping up to its end. -/
def blockEntries (fuel : Nat) (s : Source) : Except Problem (List (Tree × Tree) × Source) :=
  match fuel with
  | 0 => .error .form
  | fuel + 1 =>
    match s.pieces with
    | .blockEnd :: _ => .ok ([], s.skip)
    | .key :: _ => do
      let (k, s) ← nodeUnless fuel true true blockEnds s.skip
      let (v, s) ← valueAfter fuel true blockEnds s
      let (l, s) ← blockEntries fuel s
      return ((k, v) :: l, s)
    | _ => .error .form

/-- The value after a key; without a colon it is empty. -/
def valueAfter (fuel : Nat) (inBlock : Bool) (ends : List Piece) (s : Source) :
    Except Problem (Tree × Source) :=
  match fuel with
  | 0 => .error .form
  | fuel + 1 =>
    if s.startsWith [.value] then nodeUnless fuel inBlock inBlock ends s.skip else .ok (empty, s)

/-- The items of a flow sequence up to its end. -/
def flowItems (fuel : Nat) (isFirst : Bool) (s : Source) : Except Problem (List Tree × Source) :=
  match fuel with
  | 0 => .error .form
  | fuel + 1 =>
    if s.startsWith [.flowSequenceEnd] then .ok ([], s.skip)
    else if !isFirst && !s.startsWith [.comma] then .error .form
    else
      let s := if isFirst then s else s.skip
      if s.startsWith [.flowSequenceEnd] then .ok ([], s.skip)
      else if s.startsWith [.key] then do
        let (k, s) ← nodeUnless fuel false false (.value :: pairEnds) s.skip
        let (v, s) ← valueAfter fuel false pairEnds s
        let (l, s) ← flowItems fuel false s
        return (.mapping none [(k, v)] :: l, s)
      else do
        let (t, s) ← node fuel false false s
        let (l, s) ← flowItems fuel false s
        return (t :: l, s)

/-- The entries of a flow mapping up to its end. -/
def flowEntries (fuel : Nat) (isFirst : Bool) (s : Source) :
    Except Problem (List (Tree × Tree) × Source) :=
  match fuel with
  | 0 => .error .form
  | fuel + 1 =>
    if s.startsWith [.flowMappingEnd] then .ok ([], s.skip)
    else if !isFirst && !s.startsWith [.comma] then .error .form
    else
      let s := if isFirst then s else s.skip
      if s.startsWith [.flowMappingEnd] then .ok ([], s.skip)
      else if s.startsWith [.key] then do
        let (k, s) ← nodeUnless fuel false false (.value :: flowEnds) s.skip
        let (v, s) ← valueAfter fuel false flowEnds s
        let (l, s) ← flowEntries fuel false s
        return ((k, v) :: l, s)
      else do
        let (k, s) ← node fuel false false s
        let (l, s) ← flowEntries fuel false s
        return ((k, empty) :: l, s)

end

/-! ## Documents -/

/-- Whether a piece belongs to the head of a document. -/
def isDirective : Piece → Bool
  | .directive | .tagPrefix .. => true
  | _ => false

/-- The prefix that a directive declares. -/
def prefixOf? : Piece → Option (String × String)
  | .tagPrefix handle meaning => some (handle, meaning)
  | _ => none

/-- The pieces of a document after its head, and the prefixes that the head declares. -/
def afterHead (pieces : List Piece) : Except Problem (List Piece × List (String × String)) :=
  let body := pieces.dropWhile isDirective
  match body with
  | .documentStart :: rest => .ok (rest, (pieces.takeWhile isDirective).filterMap prefixOf?)
  | _ => if pieces.any isDirective then .error .form else .ok (pieces, [])

/-- The tree of the pieces of a text, if it is one document. -/
def ofPieces (pieces : List Piece) : Except Problem Tree := do
  if pieces.isEmpty then return empty
  let explicit := pieces.head?.any fun p => isDirective p || p == .documentStart
  let (body, handles) ← afterHead pieces
  let s : Source := { pieces := body, handles }
  let (t, s) ←
    if explicit && (body.isEmpty || s.startsWith [.documentStart, .documentEnd]) then
      pure (empty, s)
    else node (8 * body.length + 8) true false s
  if (s.pieces.dropWhile (· == .documentEnd)).isEmpty then return t else .error .form

end Tree

end Schemata.Yaml
