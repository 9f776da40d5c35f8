import NiayanAssurance.Sha256

/-!
What the recovery tool reads: values that were decoded, and files that nobody vouches for.
-/

namespace NiayanAssurance.RecoveryIo

open NiayanAssurance.Lib NiayanAssurance.Types

/-! ### Values -/

abbrev Text := List Char

instance (priority := 2000) lawfulBEq_text : LawfulBEq Text := List.instLawfulBEq

/-- What `json.loads` gives. -/
inductive Value
  | null
  | bool (b : Bool)
  | int (n : ℤ)
  | float (literal : Text)
  | text (s : Text)
  | list (l : List Value)
  /-- The keys differ. -/
  | dict (d : List (Text × Value))

inductive Error
  | invalid (why : String)
  /-- `Incomplete`, which is an `Invalid` too. -/
  | incomplete (why : String)
  /-- An `OSError`, by the name of its class. -/
  | os (name : String)
  /-- A `ValueError` that is not `Invalid`. -/
  | value
  deriving DecidableEq

/-- What the tool uses of the libraries that it rests on. -/
structure Library where
  /-- `json.loads` of UTF-8, without a key twice and without numbers that are not finite. -/
  loads : Bytes → Except Error Value
  /-- `json.dumps` with sorted keys and no blanks. -/
  dumps : Value → Bytes
  /-- `Ed25519PublicKey.from_public_bytes(key).verify(signature, message)` does not raise. -/
  verify : (key signature message : Bytes) → Bool

def LIMIT : ℕ := 8 * 1024 * 1024

def require (p : Prop) [Decidable p] (why : String) : Except Error Unit :=
  if p then .ok () else .error (.invalid why)

lemma require_ok {p : Prop} [Decidable p] {why : String} {u : Unit} :
    require p why = .ok u ↔ p := by
  unfold require
  split <;> simp_all

def decode (L : Library) (b : Bytes) : Except Error Value := do
  require (b.length ≤ LIMIT) "metadata size"
  L.loads b

/-! ### Digests as text -/

def hexDigit (n : ℕ) : Char := if n < 10 then .ofNat (48 + n) else .ofNat (87 + n)

def hex (b : Bytes) : Text := b.flatMap fun x => [hexDigit (x.toNat / 16), hexDigit (x.toNat % 16)]

def isHex (c : Char) : Bool := ('0' ≤ c ∧ c ≤ '9') ∨ ('a' ≤ c ∧ c ≤ 'f')

def unhexDigit (c : Char) : ℕ := if c ≤ '9' then c.toNat - 48 else c.toNat - 87

/-- `bytes.fromhex`, of text that is hexadecimal. -/
def fromhex : Text → Bytes
  | c :: d :: s => BitVec.ofNat 8 (unhexDigit c * 16 + unhexDigit d) :: fromhex s
  | _ => []

def sha (b : Bytes) : Text := hex (Sha256.hash b).bytes

/-! ### Fields -/

abbrev Dict := List (Text × Value)

/-- `d[k]`, of a key that is there. -/
def Dict.get (d : Dict) (k : String) : Value := (d.lookup k.toList).getD .null

def fields (v : Value) (s : List String) : Except Error Dict :=
  match v with
  | .dict d => do
    require ((∀ x ∈ d, x.1 ∈ s.map String.toList) ∧ ∀ k ∈ s, k.toList ∈ d.map Prod.fst) "schema"
    return d
  | _ => .error (.invalid "schema")

def integer (v : Value) (low : ℕ := 0) (high : ℕ := 2 ^ 63 - 1) : Except Error ℕ :=
  match v with
  | .int n => do
    require (low ≤ n ∧ n ≤ high) "integer"
    return n.toNat
  | _ => .error (.invalid "integer")

def fullmatch (p : Char → Bool) (low high : ℕ) (s : Text) : Prop :=
  low ≤ s.length ∧ s.length ≤ high ∧ s.all p = true

instance (p : Char → Bool) (low high : ℕ) (s : Text) : Decidable (fullmatch p low high s) := by
  unfold fullmatch
  infer_instance

def digest (v : Value) : Except Error Text :=
  match v with
  | .text s => do
    require (fullmatch isHex 64 64 s) "digest"
    return s
  | _ => .error (.invalid "digest")

def isAlnum (c : Char) : Bool :=
  ('a' ≤ c ∧ c ≤ 'z') ∨ ('A' ≤ c ∧ c ≤ 'Z') ∨ ('0' ≤ c ∧ c ≤ '9')

def ident (v : Value) : Except Error Text :=
  match v with
  | .text s => do
    require (s.head?.any isAlnum ∧ fullmatch (fun c => isAlnum c || "._-".toList.contains c) 1 96 s)
      "identifier"
    return s
  | _ => .error (.invalid "identifier")

/-- `[a-zA-Z0-9_.+@-]{1,160}`, but for the two names of directories. -/
def Component (p : Text) : Prop :=
  p ≠ [] ∧ p ≠ ".".toList ∧ p ≠ "..".toList
    ∧ fullmatch (fun c => isAlnum c || "_.+@-".toList.contains c) 1 160 p

instance (p : Text) : Decidable (Component p) := by unfold Component; infer_instance

def relative (s : Text) : Except Error Text := do
  require (s ≠ [] ∧ s.length ≤ 1024 ∧ .ofNat 92 ∉ s ∧ .ofNat 0 ∉ s) "path"
  let ps := s.splitOn '/'
  require (ps.length ≤ 32 ∧ ∀ p ∈ ps, Component p) "path traversal/encoding"
  return s

def path (v : Value) : Except Error Text :=
  match v with
  | .text s => relative s
  | _ => .error (.invalid "path")

/-! ### Reading a file -/

/-- What the host answers while a file is read. An error is the name of an `OSError`. -/
structure ReadHost where
  /-- The directories above the file are opened, and lie on its mount. -/
  parent : Except String Bool := .ok true
  stat : Except String Unit := .ok ()
  regular : Bool := true
  size : ℕ := 0
  sameDevice : Bool := true
  opened : Except String Unit := .ok ()
  same : Except String Bool := .ok true
  /-- What there is to read, up to the end of the file. -/
  content : Bytes := []
  /-- How much of it the reads give, at most. -/
  reads : ℕ → Except String ℕ := fun _ => .ok 65536
  /-- Neither what is open nor what the name leads to has changed. -/
  unchanged : Except String Bool := .ok true

def answer {α : Type} (x : Except String α) : Except Error α := x.mapError .os

lemma answer_ok {α : Type} {x : Except String α} {a : α} : answer x = .ok a ↔ x = .ok a := by
  cases x <;> simp [answer, Except.mapError]

/-- The loop of `Directory.read`, of which `n` rounds are over. Every round but the last one
reads a byte, so that `fuel` lasts. -/
def readLoop (h : ReadHost) (limit : ℕ) : (fuel n : ℕ) → Bytes → Except Error Bytes
  | 0, _, out => .ok out
  | fuel + 1, n, out =>
    if limit < out.length then .ok out
    else
      match answer (h.reads n) with
      | .error e => .error e
      | .ok k =>
        let b := (h.content.drop out.length).take
          (min (max 1 k) (min 65536 (limit + 1 - out.length)))
        if b = [] then .ok out else readLoop h limit fuel (n + 1) (out ++ b)

def read (path : Text) (limit : ℕ) (h : ReadHost) : Except Error Bytes := do
  let _ ← relative path
  let way ← answer h.parent
  require (way = true) "mount crossing"
  answer h.stat
  require (h.regular = true ∧ h.size ≤ limit ∧ h.sameDevice = true) "not bounded regular file"
  answer h.opened
  let same ← answer h.same
  require (same = true) "file changed/mount crossing"
  let out ← readLoop h limit (limit + 2) 0 []
  require (out.length ≤ limit) "changed during read"
  let unchanged ← answer h.unchanged
  require (unchanged = true) "changed during read"
  return out

end NiayanAssurance.RecoveryIo
