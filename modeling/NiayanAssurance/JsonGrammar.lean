import NiayanAssurance.Json

/-!
The JSON grammar of the sources, as trees that keep how they are written, and the nodes that stand
for a tree.
-/

namespace NiayanAssurance.Json

open NiayanAssurance.Lib NiayanAssurance.Types
open NiayanAssurance.Numbers (isDigit)

/-- One character of a string: a byte for itself, or a backslash with the byte after it. -/
inductive Letter
  | plain (b : Byte)
  | escaped (c : Byte)
  deriving DecidableEq, Repr

namespace Letter

def text : Letter → Bytes
  | plain b => [b]
  | escaped c => [92#8, c]

/-- The byte that the character stands for. -/
def value : Letter → Byte
  | plain b => b
  | escaped c => (escape c).getD c

/-- Bytes 32 to 126 stand for themselves, the quote and the backslash apart; and the escapes are
those of `escape`. -/
def WellFormed : Letter → Prop
  | plain b => 32#8 ≤ b ∧ b ≤ 126#8 ∧ b ≠ 34#8 ∧ b ≠ 92#8
  | escaped c => (escape c).isSome

end Letter

/-- What a string is written with, between the quotes. -/
def lettersText (ls : List Letter) : Bytes := ls.flatMap Letter.text

/-- The bytes of a string. -/
def lettersValue (ls : List Letter) : Bytes := ls.map Letter.value

/-- Optional whitespace. -/
def Gap (g : Bytes) : Prop := ∀ b ∈ g, isSpace b = true

/-- A key, with the whitespace before and after its colon. -/
structure Key where
  letters : List Letter
  before : Bytes
  after : Bytes

/-- `string ws ':' ws`. -/
def Key.text (k : Key) : Bytes :=
  34#8 :: lettersText k.letters ++ 34#8 :: (k.before ++ 58#8 :: k.after)

mutual

/-- A value as it is written. Containers have whitespace after the opening byte, items after
their value and after the comma. -/
inductive Value
  | string (letters : List Letter)
  | number (digits : Bytes)
  | literal (l : Literal)
  | empty (form : Form) (gap : Bytes)
  | filled (form : Form) (gap : Bytes) (items : Items)

/-- A member, or an element if there is no key. -/
inductive Item
  | mk (key : Option Key) (value : Value) (trail : Bytes)

inductive Items
  | last (i : Item)
  | cons (i : Item) (gap : Bytes) (rest : Items)

end

/-! ### What is written -/

mutual

def Value.text : Value → Bytes
  | .string ls => 34#8 :: lettersText ls ++ [34#8]
  | .number ds => ds
  | .literal l => l.text
  | .empty form gap => form.openByte :: gap ++ [form.closeByte]
  | .filled form gap items => form.openByte :: gap ++ items.text ++ [form.closeByte]

def Item.text : Item → Bytes
  | .mk key value trail => (key.elim [] Key.text) ++ value.text ++ trail

def Items.text : Items → Bytes
  | .last i => i.text
  | .cons i gap rest => i.text ++ 44#8 :: gap ++ rest.text

end

/-! ### Sizes -/

mutual

/-- How deep values are nested in a value. -/
def Value.height : Value → ℕ
  | .filled _ _ items => items.height + 1
  | _ => 0

def Item.height : Item → ℕ
  | .mk _ value _ => value.height

def Items.height : Items → ℕ
  | .last i => i.height
  | .cons i _ rest => max i.height rest.height

end

mutual

/-- The nodes of a value: each key and each value counts. -/
def Value.size : Value → ℕ
  | .filled _ _ items => items.size + 1
  | _ => 1

def Item.size : Item → ℕ
  | .mk key value _ => (if key.isSome then 1 else 0) + value.size

def Items.size : Items → ℕ
  | .last i => i.size
  | .cons i _ rest => i.size + rest.size

end

/-! ### What is accepted -/

/-- The bytes of the key. -/
def Item.key : Item → Option Bytes
  | .mk key _ _ => key.map fun k => lettersValue k.letters

/-- The keys, as bytes. -/
def Items.keys : Items → List Bytes
  | .last i => i.key.toList
  | .cons i _ rest => i.key.toList ++ rest.keys

/-- A number of at most 20 digits without a leading zero. -/
def Digits (ds : Bytes) : Prop :=
  ds ≠ [] ∧ (∀ b ∈ ds, isDigit b = true) ∧ ds.length ≤ 20 ∧
    (1 < ds.length → ds.head? ≠ some 48#8)

def Key.WellFormed (k : Key) : Prop :=
  (∀ l ∈ k.letters, l.WellFormed) ∧ Gap k.before ∧ Gap k.after

mutual

def Value.WellFormed : Value → Prop
  | .string ls => ∀ l ∈ ls, l.WellFormed
  | .number ds => Digits ds
  | .literal _ => True
  | .empty _ gap => Gap gap
  | .filled form gap items =>
    Gap gap ∧ items.WellFormed form ∧ (∀ k ∈ items.keys, k.length ≤ 256) ∧ items.keys.Nodup

/-- The items of objects have keys, those of arrays have none. -/
def Item.WellFormed (form : Form) : Item → Prop
  | .mk key value trail =>
    (key.isSome ↔ form = .object) ∧ (∀ k ∈ key, k.WellFormed) ∧ value.WellFormed ∧ Gap trail

def Items.WellFormed (form : Form) : Items → Prop
  | .last i => i.WellFormed form
  | .cons i gap rest => i.WellFormed form ∧ Gap gap ∧ rest.WellFormed form

end

/-- The grammar: one value between optional whitespace, of bounded length, depth and size. -/
structure Spells (data lead : Bytes) (v : Value) (trail : Bytes) : Prop where
  text : data = lead ++ v.text ++ trail
  length : 1 ≤ data.length ∧ data.length ≤ 262144
  lead : Gap lead
  trail : Gap trail
  value : v.WellFormed
  height : v.height ≤ 24
  size : v.size ≤ maximumNodes

/-! ### The nodes of a tree -/

/-- The node of the string `ls`, as node `n` at the byte `p` in the container `parent`. -/
def stringNode (ls : List Letter) (n p parent : ℕ) : Node :=
  ⟨.stringNode, p, p + (lettersText ls).length + 1, parent, n⟩

mutual

/-- The nodes of a value in preorder, from node `n` at the byte `p` in the container `parent`. -/
def Value.nodes : Value → ℕ → ℕ → ℕ → List Node
  | .string ls, n, p, parent => [stringNode ls n p parent]
  | .number ds, n, p, parent => [⟨.numberNode, p, p + ds.length - 1, parent, n⟩]
  | .literal l, n, p, parent => [⟨l.kind, p, p + l.text.length - 1, parent, n⟩]
  | .empty form gap, n, p, parent => [⟨form.kind, p, p + gap.length + 1, parent, n⟩]
  | .filled form gap items, n, p, parent =>
    ⟨form.kind, p, p + gap.length + items.text.length + 1, parent, n + items.size⟩ ::
      items.nodes (n + 1) (p + gap.length + 1) n

def Item.nodes : Item → ℕ → ℕ → ℕ → List Node
  | .mk none value _, m, p, n => value.nodes m p n
  | .mk (some k) value _, m, p, n =>
    stringNode k.letters m p n :: value.nodes (m + 1) (p + k.text.length) n

def Items.nodes : Items → ℕ → ℕ → ℕ → List Node
  | .last i, m, p, n => i.nodes m p n
  | .cons i gap rest, m, p, n =>
    i.nodes m p n ++ rest.nodes (m + i.size) (p + i.text.length + gap.length + 1) n

end

end NiayanAssurance.Json
