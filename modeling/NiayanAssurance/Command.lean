import NiayanAssurance.FileSystem
import NiayanAssurance.Text
import NiayanAssurance.Lib.Trace

/-!
Running a command: its input is written to one pipe and its output read from another, until it
has ended, its time is over or it has written too much; then its process group is killed and it is
waited for.

The calls of the system may answer anything. A loop has at most `fuel` turns in the model.
-/

namespace NiayanAssurance.Command

open NiayanAssurance.Lib NiayanAssurance.Types NiayanAssurance.Text NiayanAssurance.FileSystem

abbrev maxArguments : ℕ := 48

abbrev maxOutput : ℕ := 262144

structure Invocation where
  executable : Value
  executableDigest : Digest := zeroDigest
  /-- `Arguments (1 .. Count)` -/
  arguments : List Value := []
  count_le : arguments.length ≤ maxArguments := by decide
  passDescriptor : ℤ := -1
  deadline : Counter := 0
  mayHaveExternalEffects : Bool := false

inductive Completion
  | notStarted | exited | timedOut | signalled | outputLimit | unknown
  deriving DecidableEq

structure Result where
  state : Completion := .notStarted
  exitCode : ℕ := 0
  /-- `Output (1 .. Used)` -/
  output : Bytes := []
  deriving DecidableEq

/-! ### The calls -/

inductive Descriptor
  | executable | input | output | extra

/-- What the child calls between `Fork` and `Execveat`. -/
inductive ChildCall
  | deathSignal
  | getppid
  | setsid
  | noNewPrivileges
  | dup2 (source : Descriptor) (target : ℕ)
  | closeRange (first : ℕ)
  | execveat (arguments : List Value)

inductive Call
  | openRoot (path : Bytes)
  | openRead (path : Bytes)
  | info
  | euid
  | hash
  | readAt
  | clock
  | pipe2
  | dup (source : Descriptor)
  | nonblock (d : Descriptor)
  | getpid
  | fork
  | child (c : ChildCall)
  | pidfdOpen (child : ℤ)
  | kill (pid : ℤ)
  | waitpid (child : ℤ)
  | sleep
  | poll (timeout : ℕ)
  | read
  | write (data : Bytes)

/-- What a call returns, and the error number. -/
structure Answer where
  result : ℤ
  errno : ℤ := 0

structure WaitAnswer extends Answer where
  /-- What ended the child in bits 0 to 6, the code it ended with in bits 8 to 15. -/
  exitState : ℕ := 0

/-- With what is reported of the child. -/
structure PollAnswer extends Answer where
  returned : ℤ := 0

structure ReadAnswer extends Answer where
  /-- What is in the buffer. -/
  buffer : ℕ → Byte := fun _ => 0

abbrev Reply : Call → Type
  | .openRoot _ | .openRead _ => Outcome
  | .info => Info × Outcome
  | .euid => ℕ
  | .hash => Digest × Outcome
  | .readAt => Bytes × Outcome
  | .clock => Counter × Outcome
  | .pipe2 | .dup _ | .nonblock _ | .getpid | .fork | .child _ | .pidfdOpen _ | .sleep => ℤ
  | .kill _ | .write _ => Answer
  | .waitpid _ => WaitAnswer
  | .poll _ => PollAnswer
  | .read => ReadAnswer

abbrev Prog := Program Call Reply

abbrev ask (c : Call) : Prog (Reply c) := Program.ask c

def ESRCH : ℤ := 3
def EINTR : ℤ := 4
def EAGAIN : ℤ := 11

/-- `Natural'Last` -/
def naturalLast : ℤ := 2147483647

/-! ### Before the fork -/

/-- The index of the last `/`, from 0. -/
def lastSlash (path : Bytes) : ℕ := path.length - 1 - path.reverse.idxOf 47

/-- `V` is not that of a file to be executed. -/
def refusedInfo (v : Info) (euid : ℕ) : Bool :=
  v.kind ≠ .regular ∨ v.mode &&& 0o022 ≠ 0 ∨ v.mode &&& 0o7000 ≠ 0 ∨ v.mode &&& 0o111 = 0
    ∨ v.uid ≠ 0 ∧ v.uid ≠ euid

/-- The checks of the file that is to be executed. -/
def verify (c : Invocation) : Prog Outcome := do
  let (v, status) ← ask .info
  if status ≠ .ok then return status
  let euid ← ask .euid
  if refusedInfo v euid then return .denied
  let (d, status) ← ask .hash
  if status ≠ .ok then return status
  if d ≠ c.executableDigest then return .denied
  let (magic, status) ← ask .readAt
  if status ≠ .ok then return status
  if magic ≠ [0x7F, 0x45, 0x4C, 0x46] then return .unsupported
  let (vAfter, status) ← ask .info
  if status ≠ .ok then return status
  if vAfter ≠ v then return .stale
  return .ok

/-- The pipes and the descriptors for the child. -/
def descriptors (c : Invocation) : Prog Outcome := do
  let inputPipe ← ask .pipe2
  if inputPipe ≠ 0 then return .ioError
  let outputPipe ← ask .pipe2
  if outputPipe ≠ 0 then return .ioError
  let execFd ← ask (.dup .executable)
  let childInput ← ask (.dup .input)
  let childOutput ← ask (.dup .output)
  if execFd < 0 ∨ childInput < 0 ∨ childOutput < 0 then return .ioError
  if 0 ≤ c.passDescriptor then
    let extraFd ← ask (.dup .extra)
    if extraFd < 0 then return .ioError
  return .ok

/-- What `Run` does before `Fork`: the status with which it returns, or `OK`. -/
def prepare (c : Invocation) (input : Bytes) : Prog Outcome := do
  let path := c.executable.image
  if c.executableDigest = zeroDigest ∨ maxMessage < input.length then return .invalidInput
  if path.length < 2 ∨ path.head? ≠ some 47 then return .invalidInput
  if lastSlash path + 1 = path.length then return .invalidInput
  let top := if lastSlash path = 0 then [47] else path.take (lastSlash path)
  let status ← ask (.openRoot top)
  if status ≠ .ok then return status
  let status ← ask (.openRead (path.drop (lastSlash path + 1)))
  if status ≠ .ok then return status
  let status ← verify c
  if status ≠ .ok then return status
  let (now, status) ← ask .clock
  if status ≠ .ok ∨ c.deadline ≤ now ∨ 3600000 < (c.deadline : ℕ) - now then return .stale
  descriptors c

/-! ### The child -/

/-- What the child does: the code with which it ends, unless the executable takes its place. -/
def childBranch (c : Invocation) (parentId : ℤ) : Prog ℕ := do
  let death ← ask (.child .deathSignal)
  if death ≠ 0 then return 126
  let parent ← ask (.child .getppid)
  if parent ≠ parentId then return 126
  let session ← ask (.child .setsid)
  if session < 0 then return 126
  let privileges ← ask (.child .noNewPrivileges)
  if privileges ≠ 0 then return 126
  let stdin ← ask (.child (.dup2 .input 0))
  if stdin < 0 then return 126
  let stdout ← ask (.child (.dup2 .output 1))
  if stdout < 0 then return 126
  let stderr ← ask (.child (.dup2 .output 2))
  if stderr < 0 then return 126
  let file ← ask (.child (.dup2 .executable 3))
  if file < 0 then return 126
  if 0 ≤ c.passDescriptor then
    let extra ← ask (.child (.dup2 .extra 4))
    if extra < 0 then return 126
    let closed ← ask (.child (.closeRange 5))
    if closed ≠ 0 then return 126
  else
    let closed ← ask (.child (.closeRange 4))
    if closed ≠ 0 then return 126
  let _ ← ask (.child (.execveat (c.executable :: c.arguments)))
  return 127

/-! ### The parent -/

/-- The variables of `Run`. -/
structure Vars where
  written : ℕ := 0
  /-- `R.Output (1 .. R.Used)` -/
  output : Bytes := []
  state : Completion := .notStarted
  /-- `Input_Pipe (1) >= 0` -/
  inputOpen : Bool := true
  outputOpen : Bool := false
  childExited : Bool := false
  childReaped : Bool := false
  forced : Bool := false
  cleanupComplete : Bool := true
  exitState : ℕ := 0

/-- How a part of `Run` ends. -/
inductive Flow
  | next (v : Vars)
  | raised (v : Vars)
  | stuck

/-- A signal that is not delivered, though there is somebody to get it, is not forgotten. -/
def kill (pid : ℤ) (v : Vars) : Prog Vars := do
  let k ← ask (.kill pid)
  if k.result ≠ 0 ∧ k.errno ≠ ESRCH then return { v with cleanupComplete := false }
  return v

/-- The loop of `Terminate_Child`. -/
def reap : (fuel : ℕ) → (child : ℤ) → (stopStart : Counter) → Vars → Prog (Option Vars)
  | 0, _, _, _ => return none
  | fuel + 1, child, stopStart, v => do
    let w ← ask (.waitpid child)
    let v := { v with exitState := w.exitState }
    if w.result = child then return some { v with childReaped := true }
    if w.result < 0 ∧ w.errno ≠ EINTR then
      return some { v with childReaped := true, cleanupComplete := false }
    let (stopNow, status) ← ask .clock
    if status ≠ .ok ∨ stopNow < stopStart ∨ 1000 ≤ (stopNow : ℕ) - stopStart then
      return some { v with cleanupComplete := false }
    let _ ← ask .sleep
    reap fuel child stopStart v

def terminateChild (fuel : ℕ) (child : ℤ) (v : Vars) : Prog (Option Vars) := do
  if 0 < child ∧ v.childReaped = false then
    let v ← kill child v
    let v ← kill (-child) v
    let (stopStart, status) ← ask .clock
    if status ≠ .ok then return some { v with cleanupComplete := false }
    reap fuel child stopStart v
  else return some v

/-- The inner loop: the output is read as long as there is any. -/
def readLoop : (fuel : ℕ) → Vars → Prog Flow
  | 0, _ => return .stuck
  | fuel + 1, v => do
    let r ← ask .read
    if 0 < r.result then
      if naturalLast < r.result then return .raised v
      if (maxOutput : ℤ) - v.output.length < r.result then
        return .next { v with state := .outputLimit, forced := true }
      if 8192 < r.result then return .raised v
      readLoop fuel { v with output := v.output ++ (List.range r.result.toNat).map r.buffer }
    else if r.result = 0 then return .next { v with outputOpen := false }
    else if r.errno = EAGAIN then return .next v
    else if r.errno = EINTR then readLoop fuel v
    else return .next { v with state := .unknown, forced := true }

/-- The input that is left is offered once. -/
def writeInput (input : Bytes) (v : Vars) : Prog Flow := do
  if v.inputOpen then
    -- `Input (Input'First + Written)` has to be a component of the array.
    if input.length ≤ v.written then return .raised v
    let w ← ask (.write (input.drop v.written))
    if 0 < w.result then
      if naturalLast < v.written + w.result then return .raised v
      let written := v.written + w.result.toNat
      return .next { v with written := written, inputOpen := decide (written ≠ input.length) }
    else if w.result < 0 ∧ (w.errno = EINTR ∨ w.errno = EAGAIN) then return .next v
    else return .next { v with inputOpen := false }
  else return .next v

/-- The outer loop. -/
def pollLoop (c : Invocation) (input : Bytes) : (fuel : ℕ) → Vars → Prog Flow
  | 0, _ => return .stuck
  | fuel + 1, v => do
    let (now, status) ← ask .clock
    if status ≠ .ok ∨ c.deadline ≤ now then
      return .next { v with state := .timedOut, forced := true }
    let p ← ask (.poll (min 100 (c.deadline - now)))
    if p.result < 0 ∧ p.errno ≠ EINTR then
      return .next { v with state := .unknown, forced := true }
    match ← (if v.outputOpen then readLoop fuel v else return .next v) with
    | .next v =>
      if v.forced then return .next v
      match ← writeInput input v with
      | .next v =>
        if p.returned ≠ 0 ∧ p.returned % 2 ≠ 1 then
          return .next { v with state := .unknown, forced := true }
        let v := { v with childExited := v.childExited || decide (p.returned ≠ 0) }
        if v.childExited && !v.outputOpen then return .next v
        pollLoop c input fuel v
      | f => return f
    | f => return f

/-- The state, when the child has been waited for. -/
def finalResult (v : Vars) : Result :=
  if v.cleanupComplete = false then ⟨.unknown, 0, v.output⟩
  else if v.forced then ⟨v.state, 0, v.output⟩
  else if v.exitState % 128 ≠ 0 then ⟨.signalled, 0, v.output⟩
  else ⟨.exited, v.exitState / 256 % 256, v.output⟩

def finalStatus (c : Invocation) (input : Bytes) (r : Result) (v : Vars) : Outcome :=
  if r.state = .exited ∧ v.written = input.length then
    if r.exitCode = 0 then .ok
    else if c.mayHaveExternalEffects then .indeterminate
    else .ioError
  else if c.mayHaveExternalEffects then .indeterminate
  else .ioError

/-- How the process that calls `Run` goes on. -/
inductive Ending
  | returned (r : Result) (status : Outcome)
  | exits (code : ℕ)
  | stuck
  deriving DecidableEq

/-- The child has been left to its fate, and what it has done is unknown. -/
def abandon (fuel : ℕ) (child : ℤ) (v : Vars) : Prog Ending := do
  match ← terminateChild fuel child v with
  | none => return .stuck
  | some v => return .returned ⟨.unknown, 0, v.output⟩ .indeterminate

/-- The parent's branch, with the exception handler. -/
def parentBranch (fuel : ℕ) (c : Invocation) (input : Bytes) (child : ℤ) : Prog Ending := do
  let childFd ← ask (.pidfdOpen child)
  if childFd < 0 then abandon fuel child {} else
  let i ← ask (.nonblock .input)
  if i < 0 then abandon fuel child {} else
  let o ← ask (.nonblock .output)
  if o < 0 then abandon fuel child {} else
  match ← pollLoop c input fuel { outputOpen := true, inputOpen := decide (input ≠ []) } with
  | .stuck => return .stuck
  | .raised v => abandon fuel child v
  | .next v =>
    match ← terminateChild fuel child v with
    | none => return .stuck
    | some v => return .returned (finalResult v) (finalStatus c input (finalResult v) v)

def run (fuel : ℕ) (c : Invocation) (input : Bytes) : Prog Ending := do
  let status ← prepare c input
  if status ≠ .ok then return .returned {} status
  let parentId ← ask .getpid
  let child ← ask .fork
  if child < 0 then return .returned {} .ioError
  if child = 0 then
    let code ← childBranch c parentId
    return .exits code
  parentBranch fuel c input child

/-! ### The record of the calls -/

abbrev Record := Trace Call Reply

/-- The bytes that the input pipe has taken. -/
def accepted (t : Record) : Bytes :=
  t.flatMap fun
    | ⟨.write data, w⟩ => data.take w.result.toNat
    | _ => []

/-- The bytes that have come out of the output pipe. -/
def delivered (t : Record) : Bytes :=
  t.flatMap fun
    | ⟨.read, r⟩ => (List.range r.result.toNat).map r.buffer
    | _ => []

/-- The output pipe has been read to its end, and not after it. -/
def Ended (t : Record) : Prop :=
  ∃ (t₁ t₂ : Record) (r : ReadAnswer), t = t₁ ++ ⟨.read, r⟩ :: t₂ ∧ r.result = 0 ∧
    ∀ x ∈ t₂, x.1 ≠ .read

/-- There may be a child. -/
def Forked (t : Record) : Prop := ∃ pid : ℤ, 0 ≤ pid ∧ ⟨.fork, pid⟩ ∈ t

/-- The child has been waited for and ended as `exitState` says. -/
def Reaped (child : ℤ) (exitState : ℕ) (t : Record) : Prop :=
  ∃ w : WaitAnswer, ⟨.waitpid child, w⟩ ∈ t ∧ w.result = child ∧ w.exitState = exitState

/-- The command has done its work, and nothing of it is lost. -/
structure Completed (input : Bytes) (r : Result) (t : Record) : Prop where
  accepted : accepted t = input
  delivered : delivered t = r.output
  output_le : r.output.length ≤ maxOutput
  ended : Ended t
  reaped : ∃ child exitState, ⟨.fork, child⟩ ∈ t ∧ Reaped child exitState t ∧
    exitState % 128 = 0 ∧ exitState / 256 % 256 = 0

/-- A call that neither moves data nor makes a child. -/
def Quiet : Call → Prop
  | .read | .write _ | .fork => False
  | _ => True

/-- Nothing but such calls have been made since. -/
def Grown (t t' : Record) : Prop := ∃ u, t' = t ++ u ∧ ∀ x ∈ u, Quiet x.1

lemma Grown.refl (t : Record) : Grown t t := ⟨[], (List.append_nil t).symm, nofun⟩

lemma Grown.trans {t t' t'' : Record} (h : Grown t t') (h' : Grown t' t'') : Grown t t'' := by
  obtain ⟨u, rfl, hu⟩ := h
  obtain ⟨w, rfl, hw⟩ := h'
  refine ⟨u ++ w, List.append_assoc _ _ _, fun x hx => ?_⟩
  rcases List.mem_append.1 hx with hx | hx
  · exact hu x hx
  · exact hw x hx

lemma Grown.snoc {t t' : Record} (h : Grown t t') {c : Call} (r : Reply c) (hc : Quiet c) :
    Grown t (t' ++ [⟨c, r⟩]) :=
  h.trans ⟨[⟨c, r⟩], rfl, fun x hx => by rwa [List.mem_singleton.1 hx]⟩

lemma Grown.mem {t t' : Record} (h : Grown t t') {x : (c : Call) × Reply c} (hx : x ∈ t) :
    x ∈ t' := by
  obtain ⟨u, rfl, -⟩ := h
  exact List.mem_append_left u hx

@[simp] lemma accepted_append (t u : Record) : accepted (t ++ u) = accepted t ++ accepted u :=
  List.flatMap_append

@[simp] lemma delivered_append (t u : Record) : delivered (t ++ u) = delivered t ++ delivered u :=
  List.flatMap_append

lemma quiet_data {u : Record} (h : ∀ x ∈ u, Quiet x.1) : accepted u = [] ∧ delivered u = [] := by
  induction u with
  | nil => exact ⟨rfl, rfl⟩
  | cons x u ih =>
    obtain ⟨h1, h2⟩ := ih fun y hy => h y (List.mem_cons_of_mem _ hy)
    have hx := h x List.mem_cons_self
    obtain ⟨c, r⟩ := x
    cases c <;> first | exact absurd hx id | exact ⟨h1, h2⟩

lemma Grown.data {t t' : Record} (h : Grown t t') :
    Command.accepted t' = Command.accepted t ∧ Command.delivered t' = Command.delivered t := by
  obtain ⟨u, rfl, hu⟩ := h
  obtain ⟨h1, h2⟩ := quiet_data hu
  simp [h1, h2]

lemma Ended.append {t u : Record} (h : Ended t) (hu : ∀ x ∈ u, x.1 ≠ .read) :
    Ended (t ++ u) := by
  obtain ⟨t₁, t₂, r, rfl, h0, h2⟩ := h
  refine ⟨t₁, t₂ ++ u, r, by simp, h0, fun x hx => ?_⟩
  rcases List.mem_append.1 hx with hx | hx
  · exact h2 x hx
  · exact hu x hx

lemma Grown.ended {t t' : Record} (h : Grown t t') (he : Ended t) : Ended t' := by
  obtain ⟨u, rfl, hu⟩ := h
  refine he.append fun x hx hr => ?_
  have := hu x hx
  rw [hr] at this
  exact this

lemma Grown.not_forked {t : Record} (h : Grown [] t) : ¬Forked t := by
  rintro ⟨pid, -, hm⟩
  obtain ⟨u, rfl, hu⟩ := h
  exact hu _ hm

/-! ### The loops -/

/-- What holds of the variables while the command runs. -/
structure Inv (input : Bytes) (v : Vars) (t : Record) : Prop where
  accepted : accepted t = input.take v.written
  delivered : v.forced = false → delivered t = v.output
  output_le : v.output.length ≤ maxOutput
  ended : v.outputOpen = false → Ended t
  state : v.forced = true → v.state ≠ .exited
  notReaped : v.childReaped = false

/-- `P` holds if the part of `Run` has come to its end. -/
def Flow.Holds (P : Vars → Record → Prop) : Flow → Record → Prop
  | .next v, t => P v t
  | _, _ => True

lemma Inv.grown {input : Bytes} {v : Vars} {t t' : Record} (h : Inv input v t) (hg : Grown t t') :
    Inv input v t' := by
  obtain ⟨h1, h2⟩ := hg.data
  exact ⟨h1.trans h.accepted, fun hf => h2.trans (h.delivered hf), h.output_le,
    fun ho => hg.ended (h.ended ho), h.state, h.notReaped⟩

lemma readLoop_inv {input : Bytes} {fuel : ℕ} {v : Vars} {t : Record} (h : Inv input v t)
    (hf : v.forced = false) (ho : v.outputOpen = true) :
    (readLoop fuel v).Always (Flow.Holds (Inv input)) t := by
  induction fuel generalizing v t with
  | zero => exact trivial
  | succ fuel ih =>
    refine Program.always_ask fun r => ?_
    have ha : accepted (t ++ [⟨.read, r⟩]) = input.take v.written := by
      rw [accepted_append, h.accepted]
      exact List.append_nil _
    have hd : delivered (t ++ [⟨.read, r⟩]) =
        v.output ++ (List.range r.result.toNat).map r.buffer := by
      rw [delivered_append, h.delivered hf]
      exact congrArg _ (List.append_nil _)
    have hopen : v.outputOpen = false → Ended (t ++ [⟨.read, r⟩]) := by
      rw [ho]
      nofun
    split
    · -- There is some output.
      rename_i hpos
      split
      · exact trivial
      split
      · exact ⟨ha, nofun, h.output_le, hopen, fun _ => nofun, h.notReaped⟩
      rename_i hroom
      split
      · exact trivial
      refine ih ⟨ha, fun _ => hd, ?_, hopen, h.state, h.notReaped⟩ hf ho
      rw [List.length_append, List.length_map, List.length_range]
      omega
    rename_i hpos
    have hnil : delivered (t ++ [⟨.read, r⟩]) = v.output := by
      rw [hd, Int.toNat_of_nonpos (by omega)]
      exact List.append_nil _
    split
    · -- The end of the output.
      rename_i h0
      exact ⟨ha, fun _ => hnil, h.output_le, fun _ => ⟨t, [], r, rfl, h0, nofun⟩, h.state,
        h.notReaped⟩
    split
    · exact ⟨ha, fun _ => hnil, h.output_le, hopen, h.state, h.notReaped⟩
    split
    · exact ih ⟨ha, fun _ => hnil, h.output_le, hopen, h.state, h.notReaped⟩ hf ho
    · exact ⟨ha, nofun, h.output_le, hopen, fun _ => nofun, h.notReaped⟩

lemma writeInput_inv {input : Bytes} {v : Vars} {t : Record} (h : Inv input v t)
    (hf : v.forced = false) :
    (writeInput input v).Always
      (Flow.Holds fun v' t' => Inv input v' t' ∧ v'.forced = false) t := by
  unfold writeInput
  split
  · split
    · exact trivial
    refine Program.always_ask fun w => ?_
    have ha : accepted (t ++ [⟨.write (input.drop v.written), w⟩]) =
        input.take (v.written + w.result.toNat) := by
      rw [accepted_append, h.accepted, List.take_add]
      exact congrArg _ (List.append_nil _)
    have hd : delivered (t ++ [⟨.write (input.drop v.written), w⟩]) = v.output := by
      rw [delivered_append, h.delivered hf]
      exact List.append_nil _
    have hopen : v.outputOpen = false → Ended (t ++ [⟨.write (input.drop v.written), w⟩]) :=
      fun ho => (h.ended ho).append fun x hx => by
        rw [List.mem_singleton.1 hx]
        nofun
    split
    · split
      · exact trivial
      · exact ⟨⟨ha, fun _ => hd, h.output_le, hopen, h.state, h.notReaped⟩, hf⟩
    rename_i hpos
    rw [Int.toNat_of_nonpos (by omega), Nat.add_zero] at ha
    split
    · exact ⟨⟨ha, fun _ => hd, h.output_le, hopen, h.state, h.notReaped⟩, hf⟩
    · exact ⟨⟨ha, fun _ => hd, h.output_le, hopen, h.state, h.notReaped⟩, hf⟩
  · exact ⟨h, hf⟩

/-- Where the outer loop is left, unless it is left early, the output has ended. -/
def Left (input : Bytes) (v : Vars) (t : Record) : Prop :=
  Inv input v t ∧ (v.forced = false → v.outputOpen = false)

lemma pollLoop_inv {c : Invocation} {input : Bytes} {fuel : ℕ} {v : Vars} {t : Record}
    (h : Inv input v t) (hf : v.forced = false) :
    (pollLoop c input fuel v).Always (Flow.Holds (Left input)) t := by
  induction fuel generalizing v t with
  | zero => exact trivial
  | succ fuel ih =>
    have hforced : ∀ {v : Vars} {t : Record} {state : Completion}, Inv input v t →
        state ≠ .exited → Left input { v with state := state, forced := true } t :=
      fun h hs => ⟨⟨h.accepted, nofun, h.output_le, h.ended, fun _ => hs, h.notReaped⟩, nofun⟩
    refine Program.always_ask fun now => ?_
    have h1 := h.grown ((Grown.refl t).snoc (c := .clock) now trivial)
    dsimp only
    split
    · exact hforced h1 nofun
    refine Program.always_ask fun p => ?_
    have h2 := h1.grown ((Grown.refl _).snoc (c := .poll _) p trivial)
    split
    · exact hforced h2 nofun
    have hread : ∀ t, Inv input v t → (if v.outputOpen then readLoop fuel v
        else return .next v).Always (Flow.Holds (Inv input)) t := by
      intro t h
      split
      · rename_i ho
        exact readLoop_inv h hf ho
      · exact h
    refine (hread _ h2).bind fun f t h3 => ?_
    cases f with
    | raised v => exact trivial
    | stuck => exact trivial
    | next v =>
      dsimp only
      split
      · rename_i hf
        exact ⟨h3, fun h0 => by rw [hf] at h0; cases h0⟩
      rename_i hf
      refine (writeInput_inv h3 (by simpa using hf)).bind fun f t h4 => ?_
      cases f with
      | raised v => exact trivial
      | stuck => exact trivial
      | next v =>
        obtain ⟨h4, hf⟩ := h4
        dsimp only
        split
        · exact hforced h4 nofun
        have h5 : Inv input { v with childExited := v.childExited || decide (p.returned ≠ 0) } t :=
          ⟨h4.accepted, h4.delivered, h4.output_le, h4.ended, h4.state, h4.notReaped⟩
        split
        · rename_i hexit
          exact ⟨h5, fun _ => by simpa using (Bool.and_eq_true_iff.1 hexit).2⟩
        · exact ih h5 hf

/-! ### The clean-up -/

/-- What the clean-up leaves of the variables, and what it has achieved if it is complete. -/
structure Cleaned (child : ℤ) (v v' : Vars) (t' : Record) : Prop where
  written : v'.written = v.written
  output : v'.output = v.output
  state : v'.state = v.state
  forced : v'.forced = v.forced
  reaped : v'.cleanupComplete = true → Reaped child v'.exitState t'

lemma kill_cleaned {pid : ℤ} {v : Vars} {t : Record} :
    (kill pid v).Always (fun v' t' => Grown t t' ∧ v'.written = v.written ∧
      v'.output = v.output ∧ v'.state = v.state ∧ v'.forced = v.forced) t := by
  refine Program.always_ask fun k => ?_
  have hg := (Grown.refl t).snoc (c := .kill pid) k trivial
  split
  · exact ⟨hg, rfl, rfl, rfl, rfl⟩
  · exact ⟨hg, rfl, rfl, rfl, rfl⟩

lemma reap_cleaned {fuel : ℕ} {child : ℤ} {start : Counter} {v : Vars} {t : Record} :
    (reap fuel child start v).Always
      (fun o t' => Grown t t' ∧ ∀ v' ∈ o, Cleaned child v v' t') t := by
  induction fuel generalizing v t with
  | zero => exact ⟨.refl t, nofun⟩
  | succ fuel ih =>
    refine Program.always_ask fun w => ?_
    have hg := (Grown.refl t).snoc (c := .waitpid child) w trivial
    dsimp only
    split
    · -- The child has been waited for.
      rename_i hw
      refine ⟨hg, fun v' hv => ?_⟩
      cases hv
      exact ⟨rfl, rfl, rfl, rfl, fun _ => ⟨w, by simp, hw, rfl⟩⟩
    split
    · refine ⟨hg, fun v' hv => ?_⟩
      cases hv
      exact ⟨rfl, rfl, rfl, rfl, nofun⟩
    refine Program.always_ask fun now => ?_
    have hg := hg.snoc (c := .clock) now trivial
    split
    · refine ⟨hg, fun v' hv => ?_⟩
      cases hv
      exact ⟨rfl, rfl, rfl, rfl, nofun⟩
    refine Program.always_ask fun s => ?_
    have hg := hg.snoc (c := .sleep) s trivial
    refine ih.mono fun o t' ⟨hg', ho⟩ => ⟨hg.trans hg', fun v' hv => ?_⟩
    obtain ⟨h1, h2, h3, h4, h5⟩ := ho v' hv
    exact ⟨h1, h2, h3, h4, h5⟩

/-- **The clean-up.** -/
lemma terminateChild_cleaned {fuel : ℕ} {child : ℤ} {v : Vars} {t : Record} (hc : 0 < child)
    (hv : v.childReaped = false) : (terminateChild fuel child v).Always
      (fun o t' => Grown t t' ∧ ∀ v' ∈ o, Cleaned child v v' t') t := by
  unfold terminateChild
  rw [if_pos ⟨hc, hv⟩]
  refine kill_cleaned.bind fun v₁ t₁ ⟨hg₁, e1, e2, e3, e4⟩ => ?_
  refine kill_cleaned.bind fun v₂ t₂ ⟨hg₂, e5, e6, e7, e8⟩ => ?_
  have hg := hg₁.trans hg₂
  have hv₂ : ∀ {v' : Vars} {t' : Record}, Cleaned child v₂ v' t' → Cleaned child v v' t' :=
    fun h => ⟨h.written.trans (e5.trans e1), h.output.trans (e6.trans e2),
      h.state.trans (e7.trans e3), h.forced.trans (e8.trans e4), h.reaped⟩
  refine Program.always_ask fun start => ?_
  have hg := hg.snoc (c := .clock) start trivial
  dsimp only
  split
  · refine ⟨hg, fun v' hv => ?_⟩
    cases hv
    exact hv₂ ⟨rfl, rfl, rfl, rfl, nofun⟩
  · exact reap_cleaned.mono fun o t' ⟨hg', ho⟩ => ⟨hg.trans hg', fun v' hv' => hv₂ (ho v' hv')⟩

/-! ### The whole run -/

/-- The status is one of those that follow from the effects a command may have. -/
def Statused (c : Invocation) (status : Outcome) : Prop :=
  c.mayHaveExternalEffects = true → status = .ok ∨ status = .indeterminate

/-- What is asked of the end of a run. -/
def Ending.Sound (c : Invocation) (input : Bytes) : Ending → Record → Prop
  | .returned r status, t =>
    (Forked t → Statused c status) ∧ (status = .ok → Completed input r t)
  | _, _ => True

lemma abandon_sound {fuel : ℕ} {c : Invocation} {input : Bytes} {child : ℤ} {v : Vars}
    {t : Record} : (abandon fuel child v).Always (Ending.Sound c input) t := by
  refine (Program.always_true (p := terminateChild fuel child v)).bind fun o t _ => ?_
  cases o with
  | none => exact trivial
  | some v => exact ⟨fun _ _ => .inr rfl, nofun⟩

lemma finalResult_output {v : Vars} : (finalResult v).output = v.output := by
  unfold finalResult
  repeat' split
  all_goals rfl

/-- When the command is said to have exited. -/
lemma finalResult_exited {v : Vars} (hs : v.forced = true → v.state ≠ .exited)
    (h : (finalResult v).state = .exited) :
    v.cleanupComplete = true ∧ v.forced = false ∧ v.exitState % 128 = 0 ∧
      (finalResult v).exitCode = v.exitState / 256 % 256 := by
  unfold finalResult at h ⊢
  split at h
  · cases h
  rename_i hclean
  split at h
  · exact absurd h (hs ‹_›)
  rename_i hforced
  split at h
  · cases h
  rename_i hexit
  rw [if_neg hclean, if_neg hforced, if_neg hexit]
  exact ⟨by simpa using hclean, by simpa using hforced, by simpa using hexit, rfl⟩

lemma finalStatus_ok {c : Invocation} {input : Bytes} {r : Result} {v : Vars}
    (h : finalStatus c input r v = .ok) :
    r.state = .exited ∧ v.written = input.length ∧ r.exitCode = 0 := by
  unfold finalStatus at h
  split at h
  · rename_i hr
    split at h
    · exact ⟨hr.1, hr.2, ‹_›⟩
    split at h <;> cases h
  · split at h <;> cases h

lemma finalStatus_statused {c : Invocation} {input : Bytes} {r : Result} {v : Vars} :
    Statused c (finalStatus c input r v) := by
  intro he
  unfold finalStatus
  rw [if_pos he]
  split
  · split
    · exact .inl rfl
    · exact .inr rfl
  · exact .inr rfl

/-- The status that is drawn from the clean-up. -/
lemma final_sound {c : Invocation} {input : Bytes} {child : ℤ} {v v' : Vars} {t t' : Record}
    (h : Left input v t) (hg : Grown t t') (hc : Cleaned child v v' t')
    (hchild : ⟨.fork, child⟩ ∈ t) : Ending.Sound c input
      (.returned (finalResult v') (finalStatus c input (finalResult v') v')) t' := by
  refine ⟨fun _ => finalStatus_statused, fun hok => ?_⟩
  obtain ⟨h, hleft⟩ := h
  obtain ⟨hstate, hwritten, hzero⟩ := finalStatus_ok hok
  obtain ⟨hclean, hforced, hexit, hcode⟩ := finalResult_exited
    (by rw [hc.forced, hc.state]; exact h.state) hstate
  rw [hc.forced] at hforced
  rw [hc.written] at hwritten
  obtain ⟨ha, hd⟩ := hg.data
  refine ⟨?_, ?_, ?_, hg.ended (h.ended (hleft hforced)),
    child, v'.exitState, hg.mem hchild, hc.reaped hclean, hexit, hcode.symm.trans hzero⟩
  · rw [ha, h.accepted, hwritten, List.take_length]
  · rw [hd, h.delivered hforced, finalResult_output, hc.output]
  · rw [finalResult_output, hc.output]
    exact h.output_le

lemma parentBranch_sound {fuel : ℕ} {c : Invocation} {input : Bytes} {child : ℤ} {t : Record}
    (hc : 0 < child) (hchild : ⟨.fork, child⟩ ∈ t) (ha : accepted t = []) (hd : delivered t = []) :
    (parentBranch fuel c input child).Always (Ending.Sound c input) t := by
  refine Program.always_ask fun fd => ?_
  have hg := (Grown.refl t).snoc (c := .pidfdOpen child) fd trivial
  split
  · exact abandon_sound
  refine Program.always_ask fun i => ?_
  have hg := hg.snoc (c := .nonblock .input) i trivial
  split
  · exact abandon_sound
  refine Program.always_ask fun o => ?_
  have hg := hg.snoc (c := .nonblock .output) o trivial
  split
  · exact abandon_sound
  obtain ⟨ha', hd'⟩ := hg.data
  have hinv : Inv input { outputOpen := true, inputOpen := decide (input ≠ []) }
      (t ++ [⟨.pidfdOpen child, fd⟩] ++ [⟨.nonblock .input, i⟩] ++ [⟨.nonblock .output, o⟩]) :=
    ⟨ha'.trans ha, fun _ => hd'.trans hd, Nat.zero_le _, nofun, nofun, rfl⟩
  refine (pollLoop_inv hinv rfl).extends.bind fun f t' ⟨hleft, ht'⟩ => ?_
  have hchild' : ⟨.fork, child⟩ ∈ t' := ht'.subset (hg.mem hchild)
  cases f with
  | stuck => exact trivial
  | raised v => exact abandon_sound
  | next v =>
    refine (terminateChild_cleaned hc hleft.1.notReaped).bind fun o t'' ⟨hg', ho⟩ => ?_
    cases o with
    | none => exact trivial
    | some v' => exact final_sound hleft hg' (ho v' rfl) hchild'

section Quiet

open Program

/-- A call, and a check of what is known then. -/
lemma quiet_check {α : Type} {q : Call} {b : Reply q → Prop}
    [∀ r, Decidable (b r)] {x : Reply q → α} {p : Reply q → Prog α}
    (hq : Quiet q) (hp : ∀ r, (p r).Uses Quiet) :
    (do let r ← ask q; if b r then pure (x r) else p r : Prog α).Uses Quiet :=
  .bind (uses_ask hq) fun r => by
    split
    · trivial
    · exact hp r

lemma verify_quiet {c : Invocation} : (verify c).Uses Quiet := by
  refine quiet_check trivial fun v => ?_
  refine quiet_check trivial fun euid => ?_
  refine quiet_check trivial fun d => ?_
  split
  · trivial
  refine quiet_check trivial fun magic => ?_
  split
  · trivial
  refine quiet_check trivial fun after => ?_
  split <;> trivial

lemma descriptors_quiet {c : Invocation} : (descriptors c).Uses Quiet := by
  refine quiet_check trivial fun _ => quiet_check trivial fun _ => ?_
  refine .bind (uses_ask trivial) fun _ => .bind (uses_ask trivial) fun _ => ?_
  refine quiet_check trivial fun _ => ?_
  split
  · exact quiet_check trivial fun _ => trivial
  · trivial

/-- Nothing has been done when the command is not to be started. -/
lemma prepare_quiet {c : Invocation} {input : Bytes} : (prepare c input).Uses Quiet := by
  unfold prepare
  dsimp only
  split
  · trivial
  split
  · trivial
  split
  · trivial
  refine quiet_check trivial fun _ => quiet_check trivial fun _ => ?_
  refine .bind verify_quiet fun _ => ?_
  split
  · trivial
  · exact quiet_check trivial fun _ => descriptors_quiet

end Quiet

/-- **Every ending of a run is sound.** -/
lemma run_sound {fuel : ℕ} {c : Invocation} {input : Bytes} :
    (run fuel c input).Always (Ending.Sound c input) [] := by
  refine prepare_quiet.always.bind fun status t ⟨u, hu, hq⟩ => ?_
  have hg : Grown [] t := ⟨u, hu, hq⟩
  split
  · rename_i hs
    exact ⟨fun h => absurd h hg.not_forked, fun h => absurd h hs⟩
  refine Program.always_ask fun parentId => ?_
  have hg := hg.snoc (c := .getpid) parentId trivial
  refine Program.always_ask fun (child : ℤ) => ?_
  split
  · -- There is no child.
    rename_i hneg
    refine ⟨fun ⟨pid, hpid, hm⟩ => ?_, nofun⟩
    rcases List.mem_append.1 hm with hm | hm
    · exact absurd ⟨pid, hpid, hm⟩ hg.not_forked
    · cases List.mem_singleton.1 hm
      exact absurd hneg (not_lt.2 hpid)
  rename_i hneg
  split
  · -- This is the child.
    exact Program.always_true.bind fun _ _ _ => trivial
  · rename_i hzero
    obtain ⟨ha, hd⟩ := hg.data
    refine parentBranch_sound (lt_of_le_of_ne (not_lt.1 hneg) (Ne.symm hzero)) (by simp) ?_ ?_
    · rw [accepted_append, ha]
      rfl
    · rw [delivered_append, hd]
      rfl

/-- **What `Run` returns.** Once there may be a child, a command that may have effects is either
done or of unknown outcome; and when it is done, its input has been taken, its output read to the
end and it has exited with code 0. -/
theorem run_outcome (answers : Record → (q : Call) → Reply q) (fuel : ℕ) (c : Invocation)
    (input : Bytes) (r : Result) (status : Outcome) (t : Record)
    (h : (run fuel c input).run (Program.recording answers) [] = (.returned r status, t)) :
    (c.mayHaveExternalEffects = true → Forked t → status = .ok ∨ status = .indeterminate) ∧
      (status = .ok → Completed input r t) := by
  have hs := (run_sound : (run fuel c input).Always (Ending.Sound c input) []).run answers
  rw [h] at hs
  exact ⟨fun he hf => hs.1 hf he, hs.2⟩

section Witness

/-- A command that reads one byte. -/
def oneByte : Invocation where
  executable := ⟨[47, 97], by decide, by decide⟩
  executableDigest := ⟨List.replicate 32 1, by decide⟩
  deadline := 1000
  mayHaveExternalEffects := true

/-- A host on which such a command writes `42`, unless it has done so, and exits with 0. -/
def oneByteHost (t : Record) : (q : Call) → Reply q
  | .openRoot _ | .openRead _ => .ok
  | .info => ({ kind := .regular, mode := 0o755 }, .ok)
  | .euid => 0
  | .hash => (oneByte.executableDigest, .ok)
  | .readAt => ([0x7F, 0x45, 0x4C, 0x46], .ok)
  | .clock => ((0 : Counter), .ok)
  | .pipe2 | .nonblock _ | .child _ | .sleep => (0 : ℤ)
  | .dup _ => (64 : ℤ)
  | .getpid => (6 : ℤ)
  | .fork => (7 : ℤ)
  | .pidfdOpen _ => (3 : ℤ)
  | .kill _ => { result := 0 }
  | .waitpid child => { result := child, exitState := 0 }
  | .poll _ => { result := 1, returned := 1 }
  | .read => if delivered t = [] then { result := 1, buffer := fun _ => 42 } else { result := 0 }
  | .write data => { result := data.length }

theorem run_outcome_oneByte : ∃ t,
    (run 3 oneByte [5]).run (Program.recording oneByteHost) [] =
      (.returned ⟨.exited, 0, [42]⟩ .ok, t) ∧ Completed [5] ⟨.exited, 0, [42]⟩ t :=
  ⟨_, rfl, (run_outcome oneByteHost 3 oneByte [5] _ _ _ rfl).2 rfl⟩

end Witness

end NiayanAssurance.Command
