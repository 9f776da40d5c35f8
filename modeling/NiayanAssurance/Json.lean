import NiayanAssurance.Lib.Attempt
import NiayanAssurance.Numbers

/-!
The JSON documents that the sources accept, and the queries on them.

A document is an array of nodes in the order in which the parser meets them, numbered from 1;
0 stands for none. Every node has its first and its last byte in the text, the container it is
directly in, and the last node that belongs to it.
-/

namespace NiayanAssurance.Json

open NiayanAssurance.Lib NiayanAssurance.Types
open NiayanAssurance.Numbers (isDigit)

abbrev maximumNodes : ℕ := 4096

inductive Kind
  | objectNode | arrayNode | stringNode | numberNode | trueNode | falseNode | nullNode
  deriving DecidableEq, Repr

structure Node where
  nodeKind : Kind := .nullNode
  first : ℕ := 0
  last : ℕ := 0
  parent : ℕ := 0
  endIndex : ℕ := 0
  deriving DecidableEq, Repr

/-- The node, with its last byte set. -/
def Node.upTo (last : ℕ) (x : Node) : Node := { x with last := last }

/-- The node of a container when it is closed. -/
def Node.closed (last endIndex : ℕ) (x : Node) : Node :=
  { x with last := last, endIndex := endIndex }

structure Document where
  nodes : Vector Node maximumNodes := Vector.replicate maximumNodes {}
  count : Fin (maximumNodes + 1) := 0

/-- `D.Nodes (I)`, unless `I` is no index of the array. -/
def Document.node (d : Document) : ℕ → Option Node
  | 0 => none
  | i + 1 => d.nodes[i]?

/-! ### Bytes of the text -/

def isSpace (b : Byte) : Bool := b = 9#8 ∨ b = 10#8 ∨ b = 13#8 ∨ b = 32#8

/-- The byte that `b` stands for after a backslash. -/
def escape (b : Byte) : Option Byte :=
  if b = 34#8 ∨ b = 92#8 ∨ b = 47#8 then some b
  else if b = 98#8 then some 8#8
  else if b = 102#8 then some 12#8
  else if b = 110#8 then some 10#8
  else if b = 114#8 then some 13#8
  else if b = 116#8 then some 9#8
  else none

/-- The loop of `String_Bytes` over the bytes between the quotes, with what it has written. -/
def unescape (capacity : ℕ) : Bytes → Bytes → Bytes × Outcome
  | [], value => (value, .ok)
  | b :: rest, value =>
    if b = 92#8 then
      match rest with
      | [] => (value, .invalidInput)
      | c :: rest =>
        match escape c with
        | none => (value, .invalidInput)
        | some b =>
          if value.length = capacity then (value, .exhausted)
          else unescape capacity rest (value ++ [b])
    else if b < 32#8 ∨ 126#8 < b ∨ b = 34#8 then (value, .invalidInput)
    else if value.length = capacity then (value, .exhausted)
    else unescape capacity rest (value ++ [b])

/-- `String_Bytes`, into a buffer of `capacity` bytes: `Value (1 .. Used)`, the rest of the
buffer being zeros. -/
def stringBytes (data : Bytes) (d : Document) (n capacity : ℕ) : Option (Bytes × Outcome) :=
  if n = 0 ∨ (d.count : ℕ) < n then some ([], .invalidInput)
  else (d.node n).map fun x =>
    if x.nodeKind ≠ .stringNode ∨ x.first < 1 ∨ data.length < x.last ∨ x.last ≤ x.first then
      ([], .invalidInput)
    else if data[x.first - 1]? ≠ some 34#8 ∨ data[x.last - 1]? ≠ some 34#8 then
      ([], .invalidInput)
    else unescape capacity (range data (x.first + 1) (x.last - 1)) []

/-! ### Queries -/

/-- The loop of `Member` from the node `i` on. -/
def memberFrom (data : Bytes) (d : Document) (object : ℕ) (x : Node) (key : Bytes) :
    ℕ → ℕ → Option ℕ
  | 0, _ => none
  | fuel + 1, i => do
    if x.endIndex < i then return 0
    if (d.count : ℕ) ≤ i ∨ x.endIndex ≤ i then return 0
    if (← d.node i).parent ≠ object then return 0
    let v ← d.node (i + 1)
    if v.parent ≠ object ∨ v.endIndex < i + 1 ∨ x.endIndex < v.endIndex then return 0
    let (b, s) ← stringBytes data d i 256
    if s ≠ .ok then return 0
    if b = key then return i + 1
    memberFrom data d object x key fuel (v.endIndex + 1)

/-- `Member`. There is no result where an index is out of its range or the loop does not end. -/
def member (data : Bytes) (d : Document) (object : ℕ) (key : Bytes) : Option ℕ := do
  if object = 0 ∨ (d.count : ℕ) < object then return 0
  let x ← d.node object
  if x.nodeKind ≠ .objectNode then return 0
  if (d.count : ℕ) < x.endIndex then return 0
  memberFrom data d object x key (maximumNodes + 1) (object + 1)

/-- The loop of `Element` from the node `i` on, which is the element number `p`. -/
def elementFrom (d : Document) (array : ℕ) (x : Node) (position : ℕ) :
    ℕ → ℕ → ℕ → Option ℕ
  | 0, _, _ => none
  | fuel + 1, i, p => do
    if x.endIndex < i then return 0
    let v ← d.node i
    if v.parent ≠ array ∨ v.endIndex < i ∨ x.endIndex < v.endIndex then return 0
    if p = position then return i
    elementFrom d array x position fuel (v.endIndex + 1) (p + 1)

/-- `Element`. There is no result where an index is out of its range or the loop does not end. -/
def element (d : Document) (array position : ℕ) : Option ℕ := do
  if array = 0 ∨ (d.count : ℕ) < array then return 0
  let x ← d.node array
  if x.nodeKind ≠ .arrayNode then return 0
  if (d.count : ℕ) < x.endIndex then return 0
  elementFrom d array x position (maximumNodes + 1) (array + 1) 1

/-- `Natural_Number`. -/
def naturalNumber (data : Bytes) (d : Document) (n : ℕ) : Option (Counter × Outcome) :=
  if n = 0 ∨ (d.count : ℕ) < n then some (0, .invalidInput)
  else do
    let x ← d.node n
    if x.nodeKind = .stringNode then
      let (b, s) ← stringBytes data d n 20
      if s ≠ .ok then return (0, s) else Numbers.parse b
    else if x.nodeKind = .numberNode then
      if ¬ (1 ≤ x.first ∧ x.first ≤ data.length)
          ∨ ¬ (x.first ≤ x.last ∧ x.last ≤ data.length) ∨ 20 ≤ x.last - x.first then
        return (0, .invalidInput)
      else Numbers.parse (range data x.first x.last)
    else return (0, .invalidInput)

/-! ### Reading -/

/-- What the procedures inside `Parse` share: `Pos` and `D`. They give up where the source sets
`Bad`. -/
structure Parser where
  pos : ℕ
  d : Document

/-- The text from `Pos` on. -/
def Parser.rest (s : Parser) (data : Bytes) : Bytes := data.drop (s.pos - 1)

def Parser.advance (k : ℕ) (s : Parser) : Parser := { s with pos := s.pos + k }

/-- `D.Nodes (N) := X`. -/
def Parser.setNode (n : ℕ) (x : Node) (s : Parser) : Parser :=
  { s with d := { s.d with nodes := s.d.nodes.setIfInBounds (n - 1) x } }

open Attempt in
section

variable (data : Bytes)

/-- `Data (Pos)`, unless `Pos` is past the end. -/
def peek : Attempt Parser (Option Byte) := do return ((← get).rest data).head?

def space : Attempt Parser Unit :=
  modify fun s => s.advance ((s.rest data).takeWhile isSpace).length

/-- A change to `D.Nodes (N)`. -/
def update (n : ℕ) (f : Node → Node) : Attempt Parser Unit := do
  let x ← lift ((← get).d.node n)
  modify (Parser.setNode n (f x))

def add (k : Kind) (parent : ℕ) : Attempt Parser ℕ := do
  let s ← get
  require ((s.d.count : ℕ) ≠ maximumNodes)
  let n := s.d.count + 1
  modify fun s => { s with d := { s.d with count := n } }
  modify (Parser.setNode n ⟨k, s.pos, s.pos, parent, n⟩)
  return n

/-- The loop of `String_Node_Read` over the bytes that are left: how many of them belong to the
string, the closing quote included. -/
def stringLength : Bool → Bytes → Option ℕ
  | _, [] => none
  | true, b :: rest => if (escape b).isSome then (stringLength false rest).map (· + 1) else none
  | false, b :: rest =>
    if b = 92#8 then (stringLength true rest).map (· + 1)
    else if b = 34#8 then some 1
    else if b < 32#8 ∨ 126#8 < b then none
    else (stringLength false rest).map (· + 1)

def stringNodeRead (parent : ℕ) : Attempt Parser ℕ := do
  let n ← add .stringNode parent
  require ((← peek data) = some 34#8)
  modify (Parser.advance 1)
  let s ← get
  match stringLength false (s.rest data) with
  | none => refuse
  | some k =>
    update n (Node.upTo (s.pos + k - 1))
    modify (Parser.advance k)
    return n

/-- The comparison of the key `key`, at the node `k`, with the keys from the node `earlier` on. -/
def distinct (key : Bytes) (k : ℕ) : ℕ → ℕ → Attempt Parser Unit
  | 0, _ => raise
  | fuel + 1, earlier => do
    if earlier < k then
      let d := (← get).d
      let (other, s) ← lift (stringBytes data d earlier 256)
      require (s = .ok ∧ key ≠ other)
      let v ← lift (d.node (earlier + 1))
      distinct key k fuel (v.endIndex + 1)
    else return ()

/-- The key of a member of the object `n`, and the colon after it. -/
def keyRead (n : ℕ) : Attempt Parser Unit := do
  let k ← stringNodeRead data n
  let (key, s) ← lift (stringBytes data (← get).d k 256)
  require (s = .ok)
  distinct data key k (maximumNodes + 1) (n + 1)
  space data
  require ((← peek data) = some 58#8)
  modify (Parser.advance 1)

/-- Objects and arrays: `Object_Form`. -/
inductive Form
  | object | array
  deriving DecidableEq, Repr

namespace Form

def kind : Form → Kind
  | .object => .objectNode
  | .array => .arrayNode

def openByte : Form → Byte
  | .object => 123#8
  | .array => 91#8

def closeByte : Form → Byte
  | .object => 125#8
  | .array => 93#8

end Form

/-- One member or element of the container `n`, and the whitespace after it. The source calls
itself here: `valueRead` is the reading of a value one level deeper. -/
def itemRead (valueRead : ℕ → Attempt Parser ℕ) (form : Form) (n : ℕ) : Attempt Parser Unit := do
  if form = .object then keyRead data n
  let v ← valueRead n
  require (v ≠ 0)
  space data

/-- The loop over the members or elements of the container `n`. -/
def itemsRead (valueRead : ℕ → Attempt Parser ℕ) (form : Form) (n : ℕ) : ℕ → Attempt Parser Unit
  | 0 => raise
  | fuel + 1 => do
    itemRead data valueRead form n
    let b ← peek data
    if b = some form.closeByte then
      let s ← get
      update n (Node.closed s.pos s.d.count)
      modify (Parser.advance 1)
    else
      require (b = some 44#8)
      modify (Parser.advance 1)
      space data
      itemsRead valueRead form n fuel

def containerRead (valueRead : ℕ → Attempt Parser ℕ) (form : Form) (parent : ℕ) :
    Attempt Parser ℕ := do
  let n ← add form.kind parent
  modify (Parser.advance 1)
  space data
  if (← peek data) = some form.closeByte then
    let s ← get
    update n (Node.upTo s.pos)
    modify (Parser.advance 1)
  else itemsRead data valueRead form n (data.length + 1)
  return n

def numberRead (parent : ℕ) : Attempt Parser ℕ := do
  let n ← add .numberNode parent
  let s ← get
  let ds := (s.rest data).takeWhile isDigit
  modify (Parser.advance ds.length)
  update n (Node.upTo (s.pos + ds.length - 1))
  require (¬ (20 < ds.length ∨ 1 < ds.length ∧ ds.head? = some 48#8))
  return n

/-- `true`, `false` and `null`. -/
inductive Literal
  | true | false | null
  deriving DecidableEq, Repr

namespace Literal

/-- Which literal is tried on a text that starts with `b`. -/
def ofByte (b : Byte) : Literal :=
  if b = 116#8 then .true else if b = 102#8 then .false else .null

def kind : Literal → Kind
  | .true => .trueNode
  | .false => .falseNode
  | .null => .nullNode

def text : Literal → Bytes
  | .true => [116#8, 114#8, 117#8, 101#8]
  | .false => [102#8, 97#8, 108#8, 115#8, 101#8]
  | .null => [110#8, 117#8, 108#8, 108#8]

end Literal

def literalRead (l : Literal) (parent : ℕ) : Attempt Parser ℕ := do
  let n ← add l.kind parent
  let s ← get
  require (l.text <+: s.rest data)
  modify (Parser.advance l.text.length)
  update n (Node.upTo (s.pos + l.text.length - 1))
  return n

/-- The branches of `Value_Read` on the first byte of the value. -/
def valueStart (valueRead : ℕ → Attempt Parser ℕ) (parent : ℕ) (b : Byte) : Attempt Parser ℕ :=
  if b = 34#8 then stringNodeRead data parent
  else if b = 123#8 then containerRead data valueRead .object parent
  else if b = 91#8 then containerRead data valueRead .array parent
  else if isDigit b then numberRead data parent
  else literalRead data (.ofByte b) parent

/-- `Value_Read`, with `levels` for `25 - Depth`. -/
def valueRead : ℕ → ℕ → Attempt Parser ℕ
  | 0, _ => do
    space data
    refuse
  | levels + 1, parent => do
    space data
    match ← peek data with
    | none => refuse
    | some b => valueStart data (valueRead levels) parent b

/-- The reading of the whole text. -/
def parseRead : Attempt Parser ℕ := do
  let n ← valueRead data 25 0
  space data
  return n

/-- `Parse`. There is no result where it would raise. -/
def parse : Option (Document × Outcome) :=
  if data.length = 0 ∨ 262144 < data.length then some ({}, .invalidInput)
  else
    match (parseRead data).run { pos := 1, d := {} } with
    | .done n s =>
      some (s.d, if s.pos = data.length + 1 ∧ n = 1 then .ok else .invalidInput)
    | .refused s => some (s.d, .invalidInput)
    | .raised => none

end

end NiayanAssurance.Json
