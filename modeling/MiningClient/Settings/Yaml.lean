import MiningClient.Settings.Value
import MiningClient.Yaml.Token

namespace MiningClient.Settings.Yaml

open MiningClient.Yaml

inductive Node
  | value (value : Value)
  /-- Not what its tag says, or not finished where it is used; as a key it does not count. -/
  | bad
  deriving DecidableEq, Repr

namespace Node

def text (cs : String) : Node := value (.single (.text cs))

def nothing : Node := value .nothing

def toValue : Node → Value
  | value v => v
  | bad => .nothing

def ofItems (items : List Node) : Node := value (.ofItems (items.map toValue))

/-- The members of a table whose keys and values come in turn. A key is a text or a whole number. -/
def members? (key : Option String) : List Node → Option (List (String × Value))
  | [] => some []
  | node :: nodes =>
    match key, node with
    | some name, node => (members? none nodes).map ((name, node.toValue) :: ·)
    | none, .bad => members? none nodes
    | none, .value (.single (.text name)) => members? (some name) nodes
    | none, .value (.single (.integer n)) => members? (some (Decimal.signedText n)) nodes
    | none, .value _ => none

def ofMembers (nodes : List Node) : Node :=
  value (((members? none nodes).map .ofMembers).getD .invalid)

end Node

def integer? (word : List Char) : Option Int := (Decimal.signed? word).filter Decimal.fits64

def integerIn? (base : Nat) (word : List Char) : Option Int :=
  let (negative, ds) := Decimal.splitSign word
  if ds = [] then none
  else
    ((Radix.read? base ds).map fun n => if negative then -(n : Int) else n).filter Decimal.fits64

/-- Names of numbers that stand for themselves and cannot be read. -/
def numberNames : List String :=
  [".inf", ".Inf", ".INF", "+.inf", "+.Inf", "+.INF", "-.inf", "-.Inf", "-.INF", ".nan", ".NAN"]

def float? (word : List Char) : Option Value :=
  if numberNames.contains (String.ofList word) then some .invalid
  else (Binary64.ofWord? word).map fun x => .single (.float x)

def whole? (word : List Char) : Option Int :=
  (match word with
    | '0' :: 'x' :: ds => integerIn? 16 ds
    | '0' :: 'o' :: ds => integerIn? 8 ds
    | '+' :: ds => integer? ds
    | _ => none).or (integer? word)

def plainValue (text : String) : Value :=
  match whole? text.toList with
  | some n => .single (.integer n)
  | none =>
    if text = "~" ∨ text = "null" then .nothing
    else if text = "true" then .single (.flag true)
    else if text = "false" then .single (.flag false)
    else (float? text.toList).getD (.single (.text text))

def taggedNode (tag : Tag) (text : String) : Node :=
  let given : Option Value :=
    match tag.suffix with
    | "bool" =>
      if text = "true" then some (.single (.flag true))
      else if text = "false" then some (.single (.flag false))
      else none
    | "int" => (integer? text.toList).map fun n => .single (.integer n)
    | "float" => float? text.toList
    | "null" => if text = "~" ∨ text = "null" then some .nothing else none
    | _ => some (.single (.text text))
  if tag.handle = "!!" then given.elim .bad .value else .text text

structure Properties where
  anchor : Option Nat := none
  tag : Option Tag := none

def scalarNode (properties : Properties) (isPlain : Bool) (text : String) : Node :=
  if isPlain then
    match properties.tag with
    | some tag => taggedNode tag text
    | none => .value (plainValue text)
  else .text text

/-- The anchors so far: each has a number, and a node when this is finished. -/
structure Anchors where
  numbers : List (String × Nat) := []
  nodes : List (Nat × Node) := []

namespace Anchors

/-- Gives an anchor the next number, even if there is one of that name. -/
def add (a : Anchors) (name : String) : Anchors :=
  { a with numbers := (name, a.numbers.length) :: a.numbers }

def find? (a : Anchors) (name : String) : Option Node :=
  (a.numbers.lookup name).map fun number => (a.nodes.lookup number).getD .bad

/-- Gives its node to the anchor in front of it. -/
def finish (a : Anchors) (properties : Properties) (node : Node) : Anchors :=
  match properties.anchor with
  | some number => { a with nodes := (number, node) :: a.nodes }
  | none => a

end Anchors

structure Reading where
  tokens : List Token
  anchors : Anchors := {}

namespace Reading

def leave (r : Reading) (tokens : List Token) : Reading := { r with tokens }

def finish (r : Reading) (properties : Properties) (node : Node) : Node × Reading :=
  (node, { r with anchors := r.anchors.finish properties node })

def addAnchor (r : Reading) (name : String) (tokens : List Token) : Nat × Reading :=
  (r.anchors.numbers.length, ⟨tokens, r.anchors.add name⟩)

/-- An anchor and a tag, in any order, each possibly missing. -/
def properties (r : Reading) : Properties × Reading :=
  match r.tokens with
  | .anchor name :: .tag tag :: ts | .tag tag :: .anchor name :: ts =>
    let (number, r) := r.addAnchor name ts
    (⟨some number, some tag⟩, r)
  | .anchor name :: ts =>
    let (number, r) := r.addAnchor name ts
    (⟨some number, none⟩, r)
  | .tag tag :: ts => (⟨none, some tag⟩, r.leave ts)
  | _ => ({}, r)

def atBlockGap (r : Reading) : Bool :=
  match r.tokens with
  | .key :: _ | .value :: _ | .blockEnd :: _ => true
  | _ => false

def atFlowGap (close : Token) (r : Reading) : Bool :=
  r.tokens.head?.any fun token => token == .flowEntry || token == close

end Reading

mutual

/-- A value. There may be lists and tables by indentation `inBlock`, and lists that are no further
in than their key `besideKey`. -/
def readNode : Nat → (inBlock besideKey : Bool) → Reading → Option (Node × Reading)
  | 0, _, _, _ => none
  | most + 1, inBlock, besideKey, r =>
    match r.tokens with
    | .alias name :: ts => (r.anchors.find? name).map fun node => (node, r.leave ts)
    | _ =>
      let (properties, r) := r.properties
      let finish (node : Node) (r : Reading) := r.finish properties node
      match r.tokens, inBlock, besideKey with
      | .blockEntry :: _, _, true =>
        (readEntries most true r).map fun (items, r) => finish (.ofItems items) r
      | .scalar isPlain text :: ts, _, _ =>
        some (finish (scalarNode properties isPlain text) (r.leave ts))
      | .flowSequenceStart :: ts, _, _ =>
        (readFlowItems most true (r.leave ts)).map fun (items, r) => finish (.ofItems items) r
      | .flowMappingStart :: ts, _, _ =>
        (readFlowPairs most true (r.leave ts)).map fun (nodes, r) => finish (.ofMembers nodes) r
      | .blockSequenceStart :: ts, true, _ =>
        (readEntries most false (r.leave ts)).map fun (items, r) => finish (.ofItems items) r
      | .blockMappingStart :: ts, true, _ =>
        (readPairs most (r.leave ts)).map fun (nodes, r) => finish (.ofMembers nodes) r
      | _, _, _ =>
        if properties.anchor.isSome || properties.tag.isSome then
          some (finish (scalarNode properties true "") r)
        else none

/-- The items of a list by indentation, each behind its mark. If it is no further in than a key,
nothing marks its end. -/
def readEntries : Nat → (besideKey : Bool) → Reading → Option (List Node × Reading)
  | 0, _, _ => none
  | most + 1, besideKey, r =>
    match r.tokens with
    | .blockEntry :: ts =>
      let isEmpty :=
        match ts with
        | .blockEntry :: _ | .blockEnd :: _ => true
        | .key :: _ | .value :: _ => besideKey
        | _ => false
      (if isEmpty then some (.nothing, r.leave ts) else readNode most true false (r.leave ts)).bind
        fun (node, r) => (readEntries most besideKey r).map fun (nodes, r) => (node :: nodes, r)
    | ts =>
      if besideKey then some ([], r)
      else
        match ts with
        | .blockEnd :: ts => some ([], r.leave ts)
        | _ => none

def readBlockValue : Nat → Reading → Option (Node × Reading)
  | 0, _ => none
  | most + 1, r =>
    match r.tokens with
    | .value :: ts =>
      if (r.leave ts).atBlockGap then some (.nothing, r.leave ts)
      else readNode most true true (r.leave ts)
    | _ => some (.nothing, r)

def readPairs : Nat → Reading → Option (List Node × Reading)
  | 0, _ => none
  | most + 1, r =>
    match r.tokens with
    | .blockEnd :: ts => some ([], r.leave ts)
    | .key :: ts =>
      (if (r.leave ts).atBlockGap then some (.nothing, r.leave ts)
        else readNode most true true (r.leave ts)).bind fun (key, r) =>
          (readBlockValue most r).bind fun (value, r) =>
            (readPairs most r).map fun (nodes, r) => (key :: value :: nodes, r)
    | .value :: _ =>
      (readBlockValue most r).bind fun (value, r) =>
        (readPairs most r).map fun (nodes, r) => (.nothing :: value :: nodes, r)
    | _ => none

def readFlowValue : Nat → (close : Token) → Reading → Option (Node × Reading)
  | 0, _, _ => none
  | most + 1, close, r =>
    match r.tokens with
    | .value :: ts =>
      if (r.leave ts).atFlowGap close then some (.nothing, r.leave ts)
      else readNode most false false (r.leave ts)
    | _ => some (.nothing, r)

/-- The items of a list in brackets. A key begins a table that has it alone; a missing key takes the
mark behind it along. -/
def readFlowItems : Nat → (isFirst : Bool) → Reading → Option (List Node × Reading)
  | 0, _, _ => none
  | most + 1, isFirst, r =>
    if r.tokens.head? = some .flowSequenceEnd then some ([], r.leave r.tokens.tail)
    else if !isFirst && r.tokens.head? != some .flowEntry then none
    else
      let r := if isFirst then r else r.leave r.tokens.tail
      match r.tokens with
      | .flowSequenceEnd :: ts => some ([], r.leave ts)
      | .key :: ts =>
        (if ts.head? = some .value || (r.leave ts).atFlowGap .flowSequenceEnd then
            some (.nothing, r.leave ts.tail)
          else readNode most false false (r.leave ts)).bind fun (key, r) =>
            (readFlowValue most .flowSequenceEnd r).bind fun (value, r) =>
              (readFlowItems most false r).map fun (nodes, r) =>
                (.ofMembers [key, value] :: nodes, r)
      | _ =>
        (readNode most false false r).bind fun (node, r) =>
          (readFlowItems most false r).map fun (nodes, r) => (node :: nodes, r)

def readFlowPairs : Nat → (isFirst : Bool) → Reading → Option (List Node × Reading)
  | 0, _, _ => none
  | most + 1, isFirst, r =>
    if r.tokens.head? = some .flowMappingEnd then some ([], r.leave r.tokens.tail)
    else if !isFirst && r.tokens.head? != some .flowEntry then none
    else
      let r := if isFirst then r else r.leave r.tokens.tail
      match r.tokens with
      | .flowMappingEnd :: ts => some ([], r.leave ts)
      | .key :: ts =>
        (if ts.head? = some .value || (r.leave ts).atFlowGap .flowMappingEnd then
            some (.nothing, r.leave ts)
          else readNode most false false (r.leave ts)).bind fun (key, r) =>
            (readFlowValue most .flowMappingEnd r).bind fun (value, r) =>
              (readFlowPairs most false r).map fun (nodes, r) => (key :: value :: nodes, r)
      | .value :: _ =>
        (readFlowValue most .flowMappingEnd r).bind fun (value, r) =>
          (readFlowPairs most false r).map fun (nodes, r) => (.nothing :: value :: nodes, r)
      | _ =>
        (readNode most false false r).bind fun (key, r) =>
          (readFlowPairs most false r).map fun (nodes, r) => (key :: .nothing :: nodes, r)

end

def readContent (most : Nat) (tokens : List Token) : Option (Node × Reading) :=
  match tokens with
  | [] | .directive :: _ | .documentStart :: _ | .documentEnd :: _ => some (.nothing, ⟨tokens, {}⟩)
  | _ => readNode most true false ⟨tokens, {}⟩

/-- A document, and nothing behind it. -/
def readDocument (tokens : List Token) : Option Node :=
  let most := 3 * tokens.length + 8
  let content :=
    match tokens with
    | .directive :: _ | .documentStart :: _ =>
      match tokens.dropWhile (· == Token.directive) with
      | .documentStart :: ts => readContent most ts
      | _ => none
    | _ => readNode most true false ⟨tokens, {}⟩
  content.bind fun (node, r) => if r.tokens.all (· == Token.documentEnd) then some node else none

/-- The value that a text writes. One without a document is an empty table. -/
def read? (text : String) : Option Value :=
  (tokens? text).bind fun tokens =>
    if tokens = [] then some (.table []) else (readDocument tokens).map Node.toValue

end MiningClient.Settings.Yaml
