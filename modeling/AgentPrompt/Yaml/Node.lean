import AgentPrompt.Yaml.Token.Lexer

/-! The nodes of a YAML document. An alias refers to an anchored node by number, also to one that
contains it. -/
namespace AgentPrompt.Yaml

inductive Node where
  | scalar (tag : Option Tag) (style : Style) (text : List Char)
  | sequence (items : List Node)
  | mapping (entries : List (Node × Node))
  | alias (id : Nat)
  deriving Repr

mutual
/-- The number of marks that a node consists of: a scalar or an alias is one, a collection is its
two ends and what stands between them. -/
def Node.size : Node → Nat
  | .scalar .. => 1
  | .sequence items => itemsSize items + 2
  | .mapping entries => entriesSize entries + 2
  | .alias _ => 1

def itemsSize : List Node → Nat
  | [] => 0
  | n :: rest => n.size + itemsSize rest

def entriesSize : List (Node × Node) → Nat
  | [] => 0
  | (k, v) :: rest => k.size + v.size + entriesSize rest
end

/-- An anchored node; `order` counts the anchors of the text up to it. -/
structure Anchored where
  id : Nat
  order : Nat
  node : Node

/-- What has been read of a document, and the tokens still to come. -/
structure Reader where
  tokens : List Token
  /-- Handles of tags and what they stand for. -/
  handles : List (List Char × Tag) := []
  /-- The number that each anchor's name stands for now. -/
  names : List (List Char × Nat) := []
  /-- How many anchors were read. -/
  started : Nat := 0
  anchored : List Anchored := []

/-- The anchor and the tag in front of a node. -/
structure Properties where
  anchor : Option (List Char) := none
  tag : Option (List Char × Tag) := none

namespace Reader

def head (r : Reader) : Token :=
  r.tokens.headD .streamEnd

def advance (r : Reader) : Reader :=
  { r with tokens := r.tokens.drop 1 }

/-- Passes a token that must come next. -/
def expect (r : Reader) (t : Token) : Except Fault Reader :=
  if r.head = t then .ok r.advance else .error .unexpectedToken

/-- Reads an anchor and a tag, in any order. -/
def properties (r : Reader) : Properties × Reader :=
  match r.head with
  | .anchor name =>
    let r := r.advance
    match r.head with
    | .tag handle suffix => ({ anchor := some name, tag := some (handle, suffix) }, r.advance)
    | _ => ({ anchor := some name }, r)
  | .tag handle suffix =>
    let r := r.advance
    match r.head with
    | .anchor name => ({ anchor := some name, tag := some (handle, suffix) }, r.advance)
    | _ => ({ tag := some (handle, suffix) }, r)
  | _ => ({}, r)

/-- The full text of a tag. -/
def resolveTag (r : Reader) : Option (List Char × Tag) → Except Fault (Option Tag)
  | none => .ok none
  | some ([], suffix) => .ok (some suffix)
  | some (handle, suffix) =>
    match r.handles.lookup handle with
    | some front => .ok (some (front ++ suffix))
    | none => .error .unknownTagHandle

/-- Numbers an anchor. The number counts the names known so far, so that a name used again takes
one that the next new name takes too. -/
def declare (r : Reader) : Option (List Char) → Option (Nat × Nat) × Reader
  | none => (none, r)
  | some name =>
    let id := r.names.length
    let others := r.names.filter fun n => n.1 != name
    (some (id, r.started),
      { r with names := (name, id) :: others, started := r.started + 1 })

/-- Keeps an anchored node for its aliases. -/
def keep (r : Reader) (place : Option (Nat × Nat)) (node : Node) : Reader :=
  match place with
  | some (id, order) => { r with anchored := ⟨id, order, node⟩ :: r.anchored }
  | none => r

def emptyNode : Node := .scalar none .plain []

end Reader

open Reader

mutual
/-- Reads a node. Block collections are read only where `block` holds, and a sequence without
indentation of its own only where `indentless` holds. `fuel` bounds the number of steps. -/
def readNode : Nat → Bool → Bool → Reader → Except Fault (Node × Reader)
  | 0, _, _, _ => .error .unexpectedToken
  | fuel + 1, block, indentless, r =>
    match r.head with
    | .alias name =>
      match r.names.lookup name with
      | some id => .ok (.alias id, r.advance)
      | none => .error .unknownAnchor
    | _ => do
      let (p, r) := r.properties
      let tag ← r.resolveTag p.tag
      let bare := p.anchor.isNone && p.tag.isNone
      let (place, r) := r.declare p.anchor
      let (node, r) ← readContent fuel block indentless bare tag r
      .ok (node, r.keep place node)

/-- Reads a node after its properties; `bare` tells that it has none. -/
def readContent : Nat → Bool → Bool → Bool → Option Tag → Reader → Except Fault (Node × Reader)
  | 0, _, _, _, _, _ => .error .unexpectedToken
  | fuel + 1, block, indentless, bare, tag, r =>
    let collection (read : Reader → Except Fault (List Node × Reader)) (r : Reader) :
        Except Fault (Node × Reader) := do
      let (items, r) ← read r
      .ok (.sequence items, r)
    let pairs (read : Reader → Except Fault (List (Node × Node) × Reader)) (r : Reader) :
        Except Fault (Node × Reader) := do
      let (entries, r) ← read r
      .ok (.mapping entries, r)
    match r.head with
    | .scalar style text => .ok (.scalar tag style text, r.advance)
    | .flowSequenceStart => collection (readFlowItems fuel true) r.advance
    | .flowMappingStart => pairs (readFlowPairs fuel true) r.advance
    | t =>
      if indentless && t = .blockEntry then collection (readLooseItems fuel) r
      else if block && t = .blockSequenceStart then collection (readBlockItems fuel) r.advance
      else if block && t = .blockMappingStart then pairs (readBlockPairs fuel) r.advance
      else if bare then .error .unexpectedToken
      else .ok (.scalar tag .plain [], r)

/-- Reads a node unless one of the given tokens comes next, which leaves it empty. -/
def readOrEmpty : Nat → Bool → Bool → List Token → Reader → Except Fault (Node × Reader)
  | 0, _, _, _, _ => .error .unexpectedToken
  | fuel + 1, block, indentless, ends, r =>
    if r.head ∈ ends then .ok (emptyNode, r) else readNode fuel block indentless r

/-- Reads the entries of a block sequence. -/
def readBlockItems : Nat → Reader → Except Fault (List Node × Reader)
  | 0, _ => .error .unexpectedToken
  | fuel + 1, r =>
    match r.head with
    | .blockEntry => do
      let (item, r) ← readOrEmpty fuel true false [.blockEntry, .blockEnd] r.advance
      let (items, r) ← readBlockItems fuel r
      .ok (item :: items, r)
    | .blockEnd => .ok ([], r.advance)
    | _ => .error .unexpectedToken

/-- Reads the entries of a sequence that has the indentation of the mapping around it. -/
def readLooseItems : Nat → Reader → Except Fault (List Node × Reader)
  | 0, _ => .error .unexpectedToken
  | fuel + 1, r =>
    match r.head with
    | .blockEntry => do
      let (item, r) ←
        readOrEmpty fuel true false [.blockEntry, .key, .value, .blockEnd] r.advance
      let (items, r) ← readLooseItems fuel r
      .ok (item :: items, r)
    | _ => .ok ([], r)

/-- Reads the value of a pair, which may be missing with its colon. -/
def readValue : Nat → Bool → Bool → List Token → Reader → Except Fault (Node × Reader)
  | 0, _, _, _, _ => .error .unexpectedToken
  | fuel + 1, block, indentless, ends, r =>
    match r.head with
    | .value => readOrEmpty fuel block indentless ends r.advance
    | _ => .ok (emptyNode, r)

/-- Reads the pairs of a block mapping. -/
def readBlockPairs : Nat → Reader → Except Fault (List (Node × Node) × Reader)
  | 0, _ => .error .unexpectedToken
  | fuel + 1, r =>
    let ends := [.key, .value, .blockEnd]
    match r.head with
    | .key => do
      let (k, r) ← readOrEmpty fuel true true ends r.advance
      let (v, r) ← readValue fuel true true ends r
      let (more, r) ← readBlockPairs fuel r
      .ok ((k, v) :: more, r)
    | .blockEnd => .ok ([], r.advance)
    | _ => .error .unexpectedToken

/-- Reads the items of a flow sequence; a comma stands before each but the `first`. An item that
starts as a key is a mapping of one pair. -/
def readFlowItems : Nat → Bool → Reader → Except Fault (List Node × Reader)
  | 0, _, _ => .error .unexpectedToken
  | fuel + 1, first, r => do
    if r.head = .flowSequenceEnd then .ok ([], r.advance)
    else
      let r ← if first then .ok r else r.expect .flowEntry
      match r.head with
      | .flowSequenceEnd => .ok ([], r.advance)
      | .key =>
        let (pair, r) ← readFlowPair fuel r.advance
        let (items, r) ← readFlowItems fuel false r
        .ok (.mapping [pair] :: items, r)
      | _ =>
        let (item, r) ← readNode fuel false false r
        let (items, r) ← readFlowItems fuel false r
        .ok (item :: items, r)

/-- Reads the pair of a flow sequence's item after its key token. Where the key is missing, the
token in its place is passed. -/
def readFlowPair : Nat → Reader → Except Fault ((Node × Node) × Reader)
  | 0, _ => .error .unexpectedToken
  | fuel + 1, r => do
    let (k, r) ←
      if r.head ∈ [.value, .flowEntry, .flowSequenceEnd] then .ok (emptyNode, r.advance)
      else readNode fuel false false r
    let (v, r) ← readValue fuel false false [.flowEntry, .flowSequenceEnd] r
    .ok ((k, v), r)

/-- Reads the pairs of a flow mapping; a comma stands before each but the `first`. -/
def readFlowPairs : Nat → Bool → Reader → Except Fault (List (Node × Node) × Reader)
  | 0, _, _ => .error .unexpectedToken
  | fuel + 1, first, r => do
    if r.head = .flowMappingEnd then .ok ([], r.advance)
    else
      let r ← if first then .ok r else r.expect .flowEntry
      let ends := [.flowEntry, .flowMappingEnd]
      match r.head with
      | .flowMappingEnd => .ok ([], r.advance)
      | .key =>
        let (k, r) ← readOrEmpty fuel false false (.value :: ends) r.advance
        let (v, r) ← readValue fuel false false ends r
        let (more, r) ← readFlowPairs fuel false r
        .ok ((k, v) :: more, r)
      | _ =>
        let (k, r) ← readNode fuel false false r
        let (more, r) ← readFlowPairs fuel false r
        .ok ((k, emptyNode) :: more, r)
end

/-- The node of a text, if it holds a document at all, and the nodes that aliases refer to. -/
structure Document where
  root : Option Node
  anchored : List Anchored

/-- Reads the directives of a document. -/
def readDirectives (version : Bool) : Nat → Reader → Except Fault Reader
  | 0, r => .ok r
  | fuel + 1, r =>
    match r.head with
    | .versionDirective major minor =>
      if version then .error .repeatedDirective
      else if major = 1 ∧ (minor = 1 ∨ minor = 2) then readDirectives true fuel r.advance
      else .error .badVersion
    | .tagDirective handle front =>
      if (r.handles.lookup handle).isSome then .error .repeatedDirective
      else
        readDirectives version fuel { r.advance with handles := (handle, front) :: r.handles }
    | _ => .ok r

/-- The handles that need no directive; those of the text come first. -/
def defaultHandles : List (List Char × Tag) :=
  [(['!'], .ofText ['!']), (['!', '!'], .ofText "tag:yaml.org,2002:".toList)]

/-- Reads the node of a document, before which its start was marked or not. -/
def readRoot (r : Reader) : Except Fault (Node × Reader) := do
  let fuel := 4 * r.tokens.length + 4
  match r.head with
  | .versionDirective .. | .tagDirective .. =>
    let r ← readDirectives false r.tokens.length r
    let r ← r.expect .documentStart
    readOrEmpty fuel true false [.documentStart, .documentEnd, .streamEnd]
      { r with handles := r.handles ++ defaultHandles }
  | .documentStart =>
    readOrEmpty fuel true false [.documentStart, .documentEnd, .streamEnd]
      { r.advance with handles := defaultHandles }
  | _ => readNode fuel true false { r with handles := defaultHandles }

/-- Reads a text that holds one document at most. -/
def readDocument (s : List Char) : Except Fault Document := do
  let ts ← tokens s
  if ts = [.streamEnd] then .ok ⟨none, []⟩
  else
    let (root, r) ← readRoot { tokens := ts }
    match r.tokens.dropWhile (· = .documentEnd) with
    | [.streamEnd] => .ok ⟨some root, r.anchored⟩
    | _ => .error .severalDocuments

end AgentPrompt.Yaml
