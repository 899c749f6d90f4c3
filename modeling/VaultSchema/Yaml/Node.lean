import VaultSchema.Yaml.Lexer
import VaultSchema.Yaml.Tag

/-! Nodes of a YAML document, built from its tokens. Aliases are replaced by what they name; a name
is given once and cannot be used inside what it names. -/

set_option autoImplicit false

namespace VaultSchema.Yaml

inductive Node where
  | scalar (tag : Tag) (text : String)
  | sequence (tag : Tag) (items : List Node)
  | mapping (tag : Tag) (pairs : List (Node × Node))
  deriving Repr

namespace Node

def empty : Node := .scalar .null ""

end Node

/-- What is left of the tokens, the names given so far (without a node while it is being built),
and the meaning of tag handles. -/
structure Reader where
  tokens : List Token
  anchors : List (String × Option Node)
  handles : List (String × String)

namespace Reader

def peek (r : Reader) : Option Token := r.tokens.head?

def skip (r : Reader) : Reader := { r with tokens := r.tokens.drop 1 }

def at? (r : Reader) (ts : List Token) : Bool :=
  match r.peek with
  | some t => ts.contains t
  | none => false

def nameAnchor (r : Reader) (anchor : Option String) (node : Option Node) : Reader :=
  match anchor with
  | none => r
  | some a => { r with anchors := (a, node) :: r.anchors.filter (·.1 != a) }

def fullTag? (r : Reader) (handle : Option String) (suffix : String) : Option String :=
  match handle with
  | none => some suffix
  | some h => (r.handles.find? (·.1 == h)).map (·.2 ++ suffix)

def properties? (r : Reader) : Option (Option String × Option String × Reader) :=
  match r.tokens with
  | .anchor a :: .tag h s :: rest => do
    some (some a, some (← r.fullTag? h s), { r with tokens := rest })
  | .tag h s :: .anchor a :: rest => do
    some (some a, some (← r.fullTag? h s), { r with tokens := rest })
  | .anchor a :: rest => some (some a, none, { r with tokens := rest })
  | .tag h s :: rest => do some (none, some (← r.fullTag? h s), { r with tokens := rest })
  | _ => some (none, none, r)

/-- The kind of a scalar: by its tag, by its form when it is plain or its tag is a bare mark, or
text. -/
def scalarTag (tag : Option String) (plain : Bool) (text : String) : Tag :=
  match tag with
  | some "!" => Tag.ofPlain text
  | some t => Tag.ofName t
  | none => if plain then Tag.ofPlain text else .text

def containerTag (tag : Option String) (default : Tag) : Tag :=
  match tag with
  | none | some "!" => default
  | some t => Tag.ofName t

mutual

/-- A node. Blocks begin only where `block` holds, and a sequence without indentation of its own
only where `indentless` does. -/
def node? : Nat → Bool → Bool → Reader → Option (Node × Reader)
  | 0, _, _, _ => none
  | fuel + 1, block, indentless, r =>
    match r.peek with
    | some (.alias name) => do
      let (_, found) ← r.anchors.find? (·.1 == name)
      some (← found, r.skip)
    | _ => do
      let (anchor, tag, r) ← r.properties?
      if anchor.any fun a => r.anchors.any (·.1 == a) then none
      else do
        let opened := r.nameAnchor anchor none
        let sequence (result : Option (List Node × Reader)) : Option (Node × Reader) := do
          let (items, r) ← result
          let node := Node.sequence (containerTag tag .sequence) items
          some (node, r.nameAnchor anchor (some node))
        let mapping (result : Option (List (Node × Node) × Reader)) : Option (Node × Reader) := do
          let (pairs, r) ← result
          let node := Node.mapping (containerTag tag .mapping) pairs
          some (node, r.nameAnchor anchor (some node))
        match r.peek with
        | some (.scalar text plain) =>
          let node := Node.scalar (scalarTag tag plain text) text
          some (node, r.skip.nameAnchor anchor (some node))
        | some .flowSequenceStart => sequence (flowItems? fuel true opened.skip)
        | some .flowMappingStart => mapping (flowPairs? fuel true opened.skip)
        | other =>
          if indentless && other == some .blockEntry then
            sequence (indentlessItems? fuel opened)
          else if block && other == some .blockSequenceStart then
            sequence (blockItems? fuel opened.skip)
          else if block && other == some .blockMappingStart then
            mapping (blockPairs? fuel opened.skip)
          else if anchor.isSome || tag.isSome then
            let node := Node.scalar (scalarTag tag true "") ""
            some (node, r.nameAnchor anchor (some node))
          else none

def nodeUnless? : Nat → List Token → Bool → Bool → Reader → Option (Node × Reader)
  | 0, _, _, _, _ => none
  | fuel + 1, ends, block, indentless, r =>
    if r.at? ends then some (.empty, r) else node? fuel block indentless r

def blockItems? : Nat → Reader → Option (List Node × Reader)
  | 0, _ => none
  | fuel + 1, r =>
    match r.peek with
    | some .blockEntry => do
      let (item, r) ← nodeUnless? fuel [.blockEntry, .blockEnd] true false r.skip
      let (items, r) ← blockItems? fuel r
      some (item :: items, r)
    | some .blockEnd => some ([], r.skip)
    | _ => none

def indentlessItems? : Nat → Reader → Option (List Node × Reader)
  | 0, _ => none
  | fuel + 1, r =>
    match r.peek with
    | some .blockEntry => do
      let (item, r) ← nodeUnless? fuel [.blockEntry, .key, .value, .blockEnd] true false r.skip
      let (items, r) ← indentlessItems? fuel r
      some (item :: items, r)
    | _ => some ([], r)

def blockPairs? : Nat → Reader → Option (List (Node × Node) × Reader)
  | 0, _ => none
  | fuel + 1, r =>
    match r.peek with
    | some .key => do
      let (k, r) ← nodeUnless? fuel [.key, .value, .blockEnd] true true r.skip
      let (v, r) ←
        match r.peek with
        | some .value => nodeUnless? fuel [.key, .value, .blockEnd] true true r.skip
        | _ => some (.empty, r)
      let (pairs, r) ← blockPairs? fuel r
      some ((k, v) :: pairs, r)
    | some .blockEnd => some ([], r.skip)
    | _ => none

/-- The members of a bracketed sequence up to its end; a key among them makes a mapping of one
pair. -/
def flowItems? : Nat → Bool → Reader → Option (List Node × Reader)
  | 0, _, _ => none
  | fuel + 1, first, r =>
    if r.at? [.flowSequenceEnd] then some ([], r.skip)
    else if !first && !r.at? [.flowEntry] then none
    else do
      let r := if first then r else r.skip
      match r.peek with
      | some .flowSequenceEnd => some ([], r.skip)
      | some .key => do
        let ends := [Token.flowEntry, .flowSequenceEnd]
        let (k, r) ← nodeUnless? fuel (.value :: ends) false false r.skip
        let (v, r) ←
          match r.peek with
          | some .value => nodeUnless? fuel ends false false r.skip
          | _ => some (.empty, r)
        let (items, r) ← flowItems? fuel false r
        some (.mapping .mapping [(k, v)] :: items, r)
      | _ => do
        let (item, r) ← node? fuel false false r
        let (items, r) ← flowItems? fuel false r
        some (item :: items, r)

def flowPairs? : Nat → Bool → Reader → Option (List (Node × Node) × Reader)
  | 0, _, _ => none
  | fuel + 1, first, r =>
    if r.at? [.flowMappingEnd] then some ([], r.skip)
    else if !first && !r.at? [.flowEntry] then none
    else do
      let r := if first then r else r.skip
      match r.peek with
      | some .flowMappingEnd => some ([], r.skip)
      | some .key => do
        let ends := [Token.flowEntry, .flowMappingEnd]
        let (k, r) ← nodeUnless? fuel (.value :: ends) false false r.skip
        let (v, r) ←
          match r.peek with
          | some .value => nodeUnless? fuel ends false false r.skip
          | _ => some (.empty, r)
        let (pairs, r) ← flowPairs? fuel false r
        some ((k, v) :: pairs, r)
      | _ => do
        let (k, r) ← node? fuel false false r
        let (pairs, r) ← flowPairs? fuel false r
        some ((k, .empty) :: pairs, r)

end

def directives? (dialect : Dialect) : Nat → Bool → Reader → Option Reader
  | 0, _, _ => none
  | fuel + 1, versioned, r =>
    match r.peek with
    | some (.version major minor) =>
      let known := major == 1 && (!dialect.knownVersionsOnly || minor == 1 || minor == 2)
      if versioned || !known then none else directives? dialect fuel true r.skip
    | some (.tagDirective handle lead) =>
      if r.handles.any (·.1 == handle) then none
      else
        directives? dialect fuel versioned { r.skip with handles := (handle, lead) :: r.handles }
    | some .otherDirective => directives? dialect fuel versioned r.skip
    | _ => some r

def defaultHandles : List (String × String) := [("!", "!"), ("!!", Tag.home)]

def addDefaultHandles (r : Reader) : Reader :=
  let missing := defaultHandles.filter fun h => !(r.handles.any fun g => g.1 == h.1)
  { r with handles := r.handles ++ missing }

def endsDocument : Option Token → Bool
  | none | some .documentStart | some .documentEnd | some .otherDirective
  | some (.version _ _) | some (.tagDirective _ _) => true
  | _ => false

def isDirective : Option Token → Bool
  | some .otherDirective | some (.version _ _) | some (.tagDirective _ _) => true
  | _ => false

end Reader

def Node.ofText? (dialect : Dialect) (text : String) : Option (Option Node) := do
  let tokens ← tokens? dialect text
  let fuel := 4 * tokens.length + 8
  let r : Reader := ⟨tokens, [], []⟩
  if tokens.isEmpty then some none
  else do
    let explicit := Reader.isDirective r.peek || r.peek == some .documentStart
    let r ← if explicit then r.directives? dialect fuel false else some r
    let r := r.addDefaultHandles
    if explicit && r.peek != some .documentStart then none
    else do
      let r := if explicit then r.skip else r
      let (node, r) ←
        if explicit && Reader.endsDocument r.peek then some (.empty, r)
        else r.node? fuel true false
      if r.tokens.all (· == .documentEnd) then some (some node) else none

end VaultSchema.Yaml
