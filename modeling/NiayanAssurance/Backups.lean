import NiayanAssurance.Sha256
import Mathlib.Data.Finset.Dedup
import Mathlib.Data.Finset.Insert

/-!
Backups of a dataset, and the choice of what to restore.

An incremental backup names its parent by the digest of the parent's manifest, so what is
needed to restore it is found by walking from parent to parent up to a full backup. Entries of a
catalog are numbered from 1, and 0 stands for none.
-/

namespace NiayanAssurance.Backups

open NiayanAssurance.Lib NiayanAssurance.Types

abbrev capacity : ℕ := 64
abbrev maxCopies : ℕ := 8

structure CopyReceipt where
  storeId : Identity := zeroIdentity
  domainId : Fin 65536 := 0
  objectHash : Digest := zeroDigest
  receiptHash : Digest := zeroDigest
  validUntil : Counter := 0
  immutableUntil : Counter := 0
  authenticated : Bool := false
  integrityVerified : Bool := false
  durable : Bool := false

structure Backup where
  scope : Identity := zeroIdentity
  dataset : Identity := zeroIdentity
  lineage : Identity := zeroIdentity
  manifest : Digest := zeroDigest
  payload : Digest := zeroDigest
  parent : Digest := zeroDigest
  restoreTestChain : Digest := zeroDigest
  fromPosition : Counter := 0
  throughPosition : Counter := 0
  completedAt : Counter := 0
  testedAt : Counter := 0
  trustEpoch : Counter := 0
  full : Bool := false
  authenticated : Bool := false
  headerPayloadBound : Bool := false
  keyAvailable : Bool := false
  keyRevoked : Bool := true
  integrityIncident : Bool := true
  locations : Vector CopyReceipt maxCopies := Vector.replicate maxCopies {}

abbrev Catalog := Vector Backup capacity

/-- `Selection`: which entries are selected. -/
abbrev Selection := Finset ℕ

structure Policy where
  scope : Identity := zeroIdentity
  dataset : Identity := zeroIdentity
  lineage : Identity := zeroIdentity
  nowLower : Counter := 0
  nowUpper : Counter := 0
  requiredPosition : Counter := 0
  minimumTrustEpoch : Counter := 0
  maximumTestAge : Counter := 0
  immutableFor : Counter := 0
  minimumCopies : ℕ := 2
  minimumDomains : ℕ := 2
  copies_range : 1 ≤ minimumCopies ∧ minimumCopies ≤ maxCopies := by decide
  domains_range : 1 ≤ minimumDomains ∧ minimumDomains ≤ maxCopies := by decide

/-- `C (I)`. -/
def Catalog.entry (c : Catalog) (i : ℕ) : Backup := c.toList.getD (i - 1) {}

/-- `1 .. n`. -/
def indices (n : ℕ) : List ℕ := List.range' 1 n

@[simp] lemma mem_indices {i n : ℕ} : i ∈ indices n ↔ 1 ≤ i ∧ i ≤ n := by
  simp [indices]
  omega

/-- `Valid` of a policy. -/
def Policy.Valid (p : Policy) : Prop :=
  p.scope ≠ zeroIdentity ∧ p.dataset ≠ zeroIdentity ∧ p.lineage ≠ zeroIdentity
    ∧ (p.nowLower : ℕ) ≤ p.nowUpper ∧ 0 < (p.minimumTrustEpoch : ℕ)
    ∧ 0 < (p.maximumTestAge : ℕ) ∧ p.minimumDomains ≤ p.minimumCopies
    ∧ (p.immutableFor : ℕ) ≤ Counter.last - p.nowUpper

/-- What `Valid_Catalog` asks of one entry. -/
def Backup.WellFormed (b : Backup) : Prop :=
  b.manifest ≠ zeroDigest ∧ b.scope ≠ zeroIdentity ∧ b.dataset ≠ zeroIdentity
    ∧ b.lineage ≠ zeroIdentity ∧ b.payload ≠ zeroDigest
    ∧ (b.fromPosition : ℕ) ≤ b.throughPosition
    ∧ (b.full = true ↔ b.parent = zeroDigest)
    ∧ (b.full = true → (b.fromPosition : ℕ) = 0)

instance (p : Policy) : Decidable p.Valid := by unfold Policy.Valid; infer_instance

instance (b : Backup) : Decidable b.WellFormed := by unfold Backup.WellFormed; infer_instance

def ValidCatalog (c : Catalog) (count : ℕ) : Prop :=
  ¬ (count = 0 ∨ capacity < count) ∧ ∀ i ∈ indices count,
    (c.entry i).WellFormed ∧ ∀ j ∈ indices (i - 1), (c.entry i).manifest ≠ (c.entry j).manifest

instance (c : Catalog) (count : ℕ) : Decidable (ValidCatalog c count) := by
  unfold ValidCatalog; infer_instance

/-! ### The walk to a full backup -/

/-- The first entry with the manifest that an entry names as its parent. -/
def parentOf (c : Catalog) (count here : ℕ) : Option ℕ :=
  (indices count).find? fun i => (c.entry i).manifest = (c.entry here).parent

/-- What the walk asks of an entry and its parent. -/
def Linked (c : Catalog) (here parent : ℕ) : Prop :=
  (c.entry parent).scope = (c.entry here).scope ∧ (c.entry parent).dataset = (c.entry here).dataset
    ∧ (c.entry parent).lineage = (c.entry here).lineage
    ∧ (c.entry parent).throughPosition = (c.entry here).fromPosition
    ∧ ((c.entry parent).completedAt : ℕ) ≤ (c.entry here).completedAt

instance (c : Catalog) (here parent : ℕ) : Decidable (Linked c here parent) := by
  unfold Linked; infer_instance

/-- The loop of `Chain`: `room` entries may still be taken, `path` are those taken so far, which
are also the members marked. -/
def walk (c : Catalog) (count : ℕ) : ℕ → ℕ → List ℕ → List ℕ × Outcome
  | 0, _, path => (path, .corrupt)
  | room + 1, here, path =>
    if here ∈ path then (path, .corrupt)
    else if (c.entry here).full then (path ++ [here], .ok)
    else
      match parentOf c count here with
      | none => (path ++ [here], .corrupt)
      | some parent =>
        if Linked c here parent then walk c count room parent (path ++ [here])
        else (path ++ [here], .corrupt)

/-- The hash of a manifest and of the commitment to those before it. -/
def commit (commitment manifest : Digest) : Digest :=
  Sha256.hash ([77, 67, 66, 67, 72, 48, 48, 49] ++ manifest.bytes ++ commitment.bytes)

/-- `Commitment`, from the last entry of the path back to the first. -/
def commitment (c : Catalog) (path : List ℕ) : Digest :=
  path.reverse.foldl (fun d i => commit d (c.entry i).manifest) zeroDigest

def chain (c : Catalog) (count terminal : ℕ) : Selection × Digest × Outcome :=
  if ¬ ValidCatalog c count ∨ terminal = 0 ∨ count < terminal then (∅, zeroDigest, .invalidInput)
  else
    let w := walk c count capacity terminal []
    if w.2 = .ok then (w.1.toFinset, commitment c w.1, .ok)
    else (w.1.toFinset, zeroDigest, w.2)

/-! ### What a policy asks of a backup -/

/-- What makes a copy count. -/
def Accepted (p : Policy) (b : Backup) (x : CopyReceipt) : Prop :=
  x.authenticated = true ∧ x.integrityVerified = true ∧ x.durable = true
    ∧ x.storeId ≠ zeroIdentity ∧ 0 < (x.domainId : ℕ) ∧ x.receiptHash ≠ zeroDigest
    ∧ x.objectHash = b.payload ∧ (p.nowUpper : ℕ) < x.validUntil
    ∧ (p.nowUpper : ℕ) + p.immutableFor ≤ x.immutableUntil

instance (p : Policy) (b : Backup) (x : CopyReceipt) : Decidable (Accepted p b x) := by
  unfold Accepted; infer_instance

/-- Where the loop over the copies of a backup stands: the copies seen, those accepted, how many
these are, and in how many domains. -/
structure Tally where
  seen : List CopyReceipt := []
  accepted : List CopyReceipt := []
  total : ℕ := 0
  domains : ℕ := 0

/-- One turn of the loop; it ends the loop at a store that is named twice. -/
def tally (p : Policy) (b : Backup) (t : Tally) (x : CopyReceipt) : Option Tally :=
  if x.storeId ≠ zeroIdentity ∧ ∃ y ∈ t.seen, x.storeId = y.storeId then none
  else if Accepted p b x then
    some
      { seen := t.seen ++ [x]
        accepted := t.accepted ++ [x]
        total := t.total + 1
        domains :=
          if ∃ y ∈ t.accepted, y.domainId = x.domainId then t.domains else t.domains + 1 }
  else some { t with seen := t.seen ++ [x] }

/-- What is asked of a backup apart from its copies. -/
def Eligible (p : Policy) (b : Backup) : Prop :=
  p.Valid ∧ b.scope = p.scope ∧ b.dataset = p.dataset ∧ b.lineage = p.lineage
    ∧ b.authenticated = true ∧ b.headerPayloadBound = true ∧ b.keyAvailable = true
    ∧ b.keyRevoked = false ∧ b.integrityIncident = false
    ∧ (p.minimumTrustEpoch : ℕ) ≤ b.trustEpoch ∧ (b.completedAt : ℕ) ≤ p.nowLower

instance (p : Policy) (b : Backup) : Decidable (Eligible p b) := by
  unfold Eligible; infer_instance

def usable (p : Policy) (b : Backup) : Bool :=
  if ¬ Eligible p b then false
  else
    match b.locations.toList.foldlM (tally p b) {} with
    | none => false
    | some t => p.minimumCopies ≤ t.total ∧ p.minimumDomains ≤ t.domains

/-! ### The choice -/

/-- What is asked of the terminal of a chain with the commitment `d`. -/
def Tested (p : Policy) (b : Backup) (d : Digest) : Prop :=
  p.Valid ∧ (p.requiredPosition : ℕ) ≤ b.throughPosition ∧ b.restoreTestChain = d
    ∧ (b.completedAt : ℕ) ≤ b.testedAt ∧ (b.testedAt : ℕ) ≤ p.nowLower
    ∧ (p.nowUpper : ℕ) - b.testedAt ≤ p.maximumTestAge

instance (p : Policy) (b : Backup) (d : Digest) : Decidable (Tested p b d) := by
  unfold Tested; infer_instance

def restoreSet (p : Policy) (c : Catalog) (count terminal : ℕ) : Selection × Outcome :=
  let x := chain c count terminal
  if x.2.2 ≠ .ok then (x.1, x.2.2)
  else if ¬ Tested p (c.entry terminal) x.2.1 then (x.1, .denied)
  else if ∃ i ∈ indices count, i ∈ x.1 ∧ usable p (c.entry i) = false then (x.1, .denied)
  else (x.1, .ok)

/-- One turn of the loop of `Choose`. -/
def better (p : Policy) (c : Catalog) (count : ℕ) (best : ℕ × Selection) (i : ℕ) :
    ℕ × Selection :=
  let r := restoreSet p c count i
  if r.2 = .ok ∧ (best.1 = 0
      ∨ ((c.entry best.1).throughPosition : ℕ) < (c.entry i).throughPosition
      ∨ (c.entry i).throughPosition = (c.entry best.1).throughPosition
        ∧ ((c.entry best.1).testedAt : ℕ) < (c.entry i).testedAt) then (i, r.1)
  else best

def choose (p : Policy) (c : Catalog) (count : ℕ) : ℕ × Selection × Outcome :=
  if ¬ p.Valid ∨ ¬ ValidCatalog c count then (0, ∅, .invalidInput)
  else
    let best := (indices count).foldl (better p c count) (0, ∅)
    (best.1, best.2, if best.1 = 0 then .denied else .ok)

end NiayanAssurance.Backups
