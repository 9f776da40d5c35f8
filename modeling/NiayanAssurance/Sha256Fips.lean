import NiayanAssurance.Sha256
import NiayanAssurance.Lib.Fips180

/-!
The digest of the sources is the SHA-256 of FIPS 180-4.

The state words of `Compress` are the hash value of the standard, and a context holds what the
standard computes from the bytes it has been given: the hash value after the full blocks and
the bytes after them.
-/

namespace NiayanAssurance.Sha256Fips

open NiayanAssurance.Lib NiayanAssurance.Types NiayanAssurance.Sha256
open NiayanAssurance.Lib.Fips180 (Vars blocks digest padded zeroBits)

/-! ### One block -/

/-- The words of a hash value, under the names of `Compress`. -/
def ofVars (v : Vars) : State :=
  ⟨v.a.toNat, v.b.toNat, v.c.toNat, v.d.toNat, v.e.toNat, v.f.toNat, v.g.toNat, v.h.toNat⟩

lemma r_toNat (x : Fips180.Word) {n : ℕ} (h : n < 32) : r x.toNat n = (x.rotateRight n).toNat := by
  have h1 : x.toNat >>> n < 2 ^ 32 := by
    rw [Nat.shiftRight_eq_div_pow]
    exact (Nat.div_le_self _ _).trans_lt x.isLt
  have h2 : r x.toNat n = (x.toNat >>> n ||| x.toNat <<< (32 - n)) % 2 ^ 32 := rfl
  rw [h2, BitVec.toNat_rotateRight, Nat.mod_eq_of_lt h, Nat.or_mod_two_pow, Nat.mod_eq_of_lt h1]

/-- The four functions of the standard, on numbers. -/
lemma sums_toNat (x : Fips180.Word) :
    r x.toNat 7 ^^^ r x.toNat 18 ^^^ x.toNat >>> 3 = (Fips180.sigma0 x).toNat ∧
    r x.toNat 17 ^^^ r x.toNat 19 ^^^ x.toNat >>> 10 = (Fips180.sigma1 x).toNat ∧
    r x.toNat 2 ^^^ r x.toNat 13 ^^^ r x.toNat 22 = (Fips180.bigSigma0 x).toNat ∧
    r x.toNat 6 ^^^ r x.toNat 11 ^^^ r x.toNat 25 = (Fips180.bigSigma1 x).toNat := by
  simp only [Fips180.sigma0, Fips180.sigma1, Fips180.bigSigma0, Fips180.bigSigma1,
    BitVec.toNat_xor, BitVec.toNat_ushiftRight, r_toNat x (show 7 < 32 by omega),
    r_toNat x (show 18 < 32 by omega), r_toNat x (show 17 < 32 by omega),
    r_toNat x (show 19 < 32 by omega), r_toNat x (show 2 < 32 by omega),
    r_toNat x (show 13 < 32 by omega), r_toNat x (show 22 < 32 by omega),
    r_toNat x (show 6 < 32 by omega), r_toNat x (show 11 < 32 by omega),
    r_toNat x (show 25 < 32 by omega), and_self]

lemma choices_toNat (x y z : Fips180.Word) :
    (x.toNat &&& y.toNat ^^^ (0xFFFFFFFF - x.toNat) &&& z.toNat) = (Fips180.ch x y z).toNat ∧
    (x.toNat &&& y.toNat ^^^ x.toNat &&& z.toNat ^^^ y.toNat &&& z.toNat) =
      (Fips180.maj x y z).toNat := by
  simp [Fips180.ch, Fips180.maj, BitVec.toNat_not]

lemma round_ofVars (v : Vars) (k w : Fips180.Word) :
    Sha256.round (ofVars v) (k.toNat, w.toNat) = ofVars (Fips180.round v k w) := by
  obtain ⟨-, -, h1, -⟩ := sums_toNat v.a
  obtain ⟨-, -, -, h2⟩ := sums_toNat v.e
  simp only [Sha256.round, ofVars, Fips180.round, h1, h2, (choices_toNat v.e v.f v.g).1,
    (choices_toNat v.a v.b v.c).2, BitVec.toNat_add, State.mk.injEq, true_and, and_true]
  refine ⟨by omega, by omega⟩

/-! ### The message schedule -/

lemma words_eq (n : ℕ) (b : Bytes) :
    words n b = (List.range n).map fun t => (Fips180.messageWord b t).toNat := by
  induction n generalizing b with
  | zero => rfl
  | succ n ih =>
    have h1 : unbe (b.take 4) < 256 ^ 4 :=
      (unbe_lt _).trans_le (Nat.pow_le_pow_right (by decide) (List.length_take_le 4 b))
    rw [words, ih, List.range_succ_eq_map, List.map_cons, List.map_map]
    refine congrArg₂ _ ?_ (List.map_congr_left fun t _ => ?_)
    · exact (Nat.mod_eq_of_lt h1).symm
    · simp only [Function.comp_apply, Fips180.messageWord, List.drop_drop]
      rw [show 4 * t.succ = 4 + 4 * t by omega]

/-- The words of the schedule up to the `n`th, newest first. -/
def newest (w : ℕ → Fips180.Word) : ℕ → List ℕ
  | 0 => []
  | n + 1 => (w n).toNat :: newest w n

lemma newest_eq (w : ℕ → Fips180.Word) (n : ℕ) :
    newest w n = ((List.range n).map fun t => (w t).toNat).reverse := by
  induction n with
  | zero => rfl
  | succ n ih => simp [newest, ih, List.range_succ]

lemma extend_newest (m : ℕ → Fips180.Word) (n : ℕ) :
    extend (newest (Fips180.schedule m) (n + 16)) = newest (Fips180.schedule m) (n + 17) := by
  have h1 : Fips180.schedule m (n + 16) =
      Fips180.sigma1 (Fips180.schedule m (n + 14)) + Fips180.schedule m (n + 9) +
        Fips180.sigma0 (Fips180.schedule m (n + 1)) + Fips180.schedule m n := by
    rw [Fips180.schedule, if_neg (by omega)]
    rfl
  have h2 := (sums_toNat (Fips180.schedule m (n + 1))).1
  have h3 := (sums_toNat (Fips180.schedule m (n + 14))).2.1
  simp only [newest, extend, h2, h3, h1, BitVec.toNat_add, List.cons.injEq, and_true]
  omega

lemma schedule_eq (b : Bytes) :
    Sha256.schedule b =
      (List.range 64).map fun t => (Fips180.schedule (Fips180.messageWord b) t).toNat := by
  have h1 : (words 16 b).reverse = newest (Fips180.schedule (Fips180.messageWord b)) 16 := by
    rw [words_eq, newest_eq]
    refine congrArg _ (List.map_congr_left fun t ht => ?_)
    rw [Fips180.schedule, if_pos (List.mem_range.mp ht)]
  have h2 : ∀ j, extend^[j] (newest (Fips180.schedule (Fips180.messageWord b)) 16) =
      newest (Fips180.schedule (Fips180.messageWord b)) (j + 16) := by
    intro j
    induction j with
    | zero => rfl
    | succ j ih => rw [Function.iterate_succ_apply', ih, extend_newest]
  rw [Sha256.schedule, h1, h2, newest_eq, List.reverse_reverse]

lemma k_eq : k = (List.range 64).map fun t => (Fips180.constants.getD t 0).toNat := by
  have h1 : k = Fips180.constants.map BitVec.toNat := by decide +kernel
  have h2 : Fips180.constants = (List.range 64).map fun t => Fips180.constants.getD t 0 := by
    decide +kernel
  rw [h1]
  conv_lhs => rw [h2]
  simp only [List.map_map, Function.comp_def]

lemma rounds_ofVars (v : Vars) (block : Bytes) :
    (k.zip (Sha256.schedule block)).foldl Sha256.round (ofVars v) =
      ofVars ((List.range 64).foldl (fun v t => Fips180.round v (Fips180.constants.getD t 0)
        (Fips180.schedule (Fips180.messageWord block) t)) v) := by
  rw [k_eq, schedule_eq, List.zip_map', List.foldl_map]
  exact List.foldl_hom _ fun v t => round_ofVars v _ _

lemma sum_ofVars (v n : Vars) :
    (⟨((ofVars v).a + (ofVars n).a) % 0x100000000, ((ofVars v).b + (ofVars n).b) % 0x100000000,
      ((ofVars v).d + (ofVars n).d) % 0x100000000, ((ofVars v).e + (ofVars n).e) % 0x100000000,
      ((ofVars v).f + (ofVars n).f) % 0x100000000, ((ofVars v).g + (ofVars n).g) % 0x100000000,
      ((ofVars v).h + (ofVars n).h) % 0x100000000,
      ((ofVars v).i + (ofVars n).i) % 0x100000000⟩ : State) =
    ofVars ⟨n.a + v.a, n.b + v.b, n.c + v.c, n.d + v.d, n.e + v.e, n.f + v.f, n.g + v.g,
      n.h + v.h⟩ := by
  simp only [ofVars, BitVec.toNat_add, Nat.add_comm, Nat.reducePow]

lemma compress_ofVars (v : Vars) (block : Bytes) :
    Sha256.compress (ofVars v) block = ofVars (Fips180.compress v block) := by
  simp only [Sha256.compress, rounds_ofVars]
  exact sum_ofVars v _

/-! ### The stream -/

/-- The hash value after `n` blocks of `m`. -/
def chained (n : ℕ) (m : Bytes) : Vars := (blocks n m).foldl Fips180.compress Fips180.initial

/-- `c` has been given the bytes `m`. -/
structure Holds (c : Context) (m : Bytes) : Prop where
  state : c.state = ofVars (chained (m.length / 64) m)
  blockData : c.blockData.reverse = m.drop (64 * (m.length / 64))
  used : c.used = m.length % 64
  total : c.total = m.length

lemma holds_init : Holds init [] where
  state := rfl
  blockData := rfl
  used := rfl
  total := rfl

lemma chained_snoc {n : ℕ} {m : Bytes} (x : Byte) (h : 64 * n ≤ m.length) :
    chained n (m ++ [x]) = chained n m := by
  rw [chained, Fips180.blocks_append [x] h, chained]

/-- **One byte.** -/
lemma holds_updateByte {c : Context} {m : Bytes} (h : Holds c m) (x : Byte) :
    Holds (updateByte c x) (m ++ [x]) := by
  have hlen : (m ++ [x]).length = m.length + 1 := by simp
  have hle : 64 * (m.length / 64) ≤ m.length := Nat.mul_div_le _ _
  have hdrop : (m ++ [x]).drop (64 * (m.length / 64)) = (x :: c.blockData).reverse := by
    rw [List.drop_append_of_le_length hle, List.reverse_cons, h.blockData]
  have hused := h.used
  by_cases h63 : c.used = 63
  · have hq : (m.length + 1) / 64 = m.length / 64 + 1 := by omega
    have hfull : (x :: c.blockData).reverse.length = 64 := by
      rw [← hdrop, List.length_drop, hlen]
      omega
    rw [updateByte, if_pos h63]
    refine ⟨?_, ?_, ?_, ?_⟩
    · have hb := Fips180.blocks_succ (n := m.length / 64) (b := m ++ [x]) (by rw [hlen]; omega)
      rw [hdrop, List.take_of_length_le hfull.le, Fips180.blocks_append [x] hle] at hb
      simp only [h.state, compress_ofVars, hlen, hq, chained, hb, List.foldl_append,
        List.foldl_cons, List.foldl_nil]
    · rw [List.drop_eq_nil_of_le (by rw [hlen]; omega)]
      rfl
    · show 0 = _
      rw [hlen]
      omega
    · rw [hlen, ← h.total]
  · have hq : (m.length + 1) / 64 = m.length / 64 := by omega
    rw [updateByte, if_neg h63]
    refine ⟨?_, ?_, ?_, ?_⟩
    · rw [hlen, hq, chained_snoc x hle, ← h.state]
    · rw [hlen, hq, hdrop]
    · show c.used + 1 = _
      rw [hlen]
      omega
    · rw [hlen, ← h.total]

lemma holds_update {c : Context} {m : Bytes} (h : Holds c m) (data : Bytes) :
    Holds (update c data) (m ++ data) := by
  induction data generalizing c m with
  | nil => simpa [update] using h
  | cons x data ih => simpa [update] using ih (holds_updateByte h x)

/-- The padding of the sources fills the last block or adds one, as that of the standard. -/
lemma append_padding {c : Context} {m : Bytes} (h : Holds c m) : m ++ padding c = padded m := by
  have hused := h.used
  have hlt : m.length % 64 < 64 := Nat.mod_lt _ (by omega)
  have hz : (if c.used < 56 then 64 - c.used else 128 - c.used) - 9 =
      (zeroBits (8 * m.length) - 7) / 8 := by
    unfold zeroBits
    split <;> omega
  simp only [padding, padded, hz, h.total, Nat.mul_comm m.length 8]

lemma bytes_ofVars (v : Vars) :
    (Block.ofBytes 32 ([(ofVars v).a, (ofVars v).b, (ofVars v).d, (ofVars v).e, (ofVars v).f,
      (ofVars v).g, (ofVars v).h, (ofVars v).i].map (be 4)).flatten).bytes = v.bytes := by
  rw [Block.bytes_ofBytes (by simp)]
  simp only [Vars.bytes, ofVars, List.flatMap_def, List.map_cons, List.map_nil]

/-- **The digest of a context.** -/
lemma finish_bytes {c : Context} {m : Bytes} (h : Holds c m) : (finish c).bytes = digest m := by
  have h1 := (holds_update h (padding c)).state
  rw [append_padding h] at h1
  simp only [finish, h1, bytes_ofVars, digest, chained]

/-! ### Calls, with their preconditions

The build checks the preconditions, and a call that breaks one raises. -/

/-- What an array of bytes can hold, whose indexes are `Positive`. -/
abbrev Chunk := {data : Bytes // data.length ≤ 0x7FFFFFFF}

inductive Call
  | update (data : Chunk)
  | finish

/-- `Update` -/
def updateChecked (c : Context) (data : Bytes) : Option Context :=
  if data.length ≤ 0x7FFFFFFF ∧ c.total ≤ 0x1FFFFFFFFFFFFFFF - data.length then
    some (update c data)
  else none

/-- `Finish`, which works on a copy of the context. -/
def finishChecked (c : Context) : Option Digest :=
  if c.total ≤ 0x1FFFFFFFFFFFFF00 ∧ (updateChecked c (padding c)).isSome then some (finish c)
  else none

/-- The digests that the calls return, unless one of them raises. -/
def session : Context → List Call → Option (List Digest)
  | _, [] => some []
  | c, .update data :: l => (updateChecked c data).bind fun c' => session c' l
  | c, .finish :: l => (finishChecked c).bind fun d => (session c l).map (d :: ·)

/-- The digests the calls are to return: each is that of all the bytes given before it. -/
def answers : Bytes → List Call → List Bytes
  | _, [] => []
  | m, .update data :: l => answers (m ++ data) l
  | m, .finish :: l => digest m :: answers m l

/-- The bytes that the calls give. -/
def given : List Call → Bytes
  | [] => []
  | .update data :: l => data ++ given l
  | .finish :: l => given l

/-- The bytes of a row of chunks. -/
def joined (chunks : List Chunk) : Bytes := chunks.flatMap Subtype.val

/-- A row of chunks, and one `Finish` after it. -/
def streamed (chunks : List Chunk) : List Call := chunks.map .update ++ [.finish]

lemma given_streamed (chunks : List Chunk) : given (streamed chunks) = joined chunks := by
  induction chunks with
  | nil => rfl
  | cons data chunks ih => exact congrArg (data.val ++ ·) ih

lemma answers_streamed (m : Bytes) (chunks : List Chunk) :
    answers m (streamed chunks) = [digest (m ++ joined chunks)] := by
  induction chunks generalizing m with
  | nil => simp [streamed, joined, answers]
  | cons data chunks ih => exact (ih (m ++ data.val)).trans (by simp [joined])

lemma length_padding (c : Context) : (padding c).length ≤ 128 := by
  simp only [padding, List.length_append, List.length_cons, List.length_replicate, length_be]
  split <;> omega

lemma finishChecked_eq {c : Context} (h : c.total ≤ 0x1FFFFFFFFFFFFF00) :
    finishChecked c = some (finish c) := by
  have hp := length_padding c
  have hu : updateChecked c (padding c) = some (update c (padding c)) :=
    if_pos ⟨by omega, by omega⟩
  exact if_pos ⟨h, by rw [hu]; rfl⟩

/-- **A run of calls.** -/
lemma session_eq {c : Context} {m : Bytes} {l : List Call} (hc : Holds c m)
    (h : m.length + (given l).length ≤ 0x1FFFFFFFFFFFFF00) :
    (session c l).map (·.map Block.bytes) = some (answers m l) := by
  induction l generalizing c m with
  | nil => rfl
  | cons call l ih =>
    have ht := hc.total
    cases call with
    | update data =>
      simp only [given, List.length_append] at h
      have hu : updateChecked c data = some (update c data) :=
        if_pos ⟨data.property, by omega⟩
      rw [session, hu, Option.bind_some, answers]
      exact ih (holds_update hc data) (by rw [List.length_append]; omega)
    | finish =>
      simp only [given] at h
      have hl := ih hc h
      rw [session, finishChecked_eq (by omega), Option.bind_some, answers, ← finish_bytes hc]
      cases hs : session c l with
      | none => rw [hs] at hl; cases hl
      | some ds =>
        rw [hs, Option.map_some, Option.some_inj] at hl
        rw [Option.map_some, Option.map_some, List.map_cons, hl]

/-- **Streaming.** Whatever the cuts and wherever `Finish` is called in between, each digest is
that of the bytes given before it, as long as they are at most what `Finish` accepts. -/
theorem session_digests :
    (∀ l, (given l).length ≤ 0x1FFFFFFFFFFFFF00 →
      (session init l).map (·.map Block.bytes) = some (answers [] l)) ∧
    ∀ chunks, (joined chunks).length ≤ 0x1FFFFFFFFFFFFF00 →
      (session init (streamed chunks)).map (·.map Block.bytes) = some [digest (joined chunks)] := by
  have h0 : ∀ b : Bytes, ([] : Bytes).length + b.length = b.length := fun b => Nat.zero_add _
  refine ⟨fun l h => session_eq holds_init ((h0 _).trans_le h), fun chunks h => ?_⟩
  rw [← given_streamed] at h
  rw [session_eq holds_init ((h0 _).trans_le h), answers_streamed, List.nil_append]

theorem session_digests_abc :
    (session init [.update ⟨[0x61], by decide⟩, .finish, .update ⟨[0x62], by decide⟩,
        .finish]).map (·.map Block.bytes) =
      some (answers [] [.update ⟨[0x61], by decide⟩, .finish, .update ⟨[0x62], by decide⟩,
        .finish]) ∧
    (session init (streamed [⟨[0x61], by decide⟩, ⟨[0x62, 0x63], by decide⟩])).map
        (·.map Block.bytes) =
      some [digest (joined [⟨[0x61], by decide⟩, ⟨[0x62, 0x63], by decide⟩])] :=
  ⟨session_digests.1 _ (by decide), session_digests.2 _ (by decide)⟩

/-! ### Beyond the precondition -/

lemma total_update (c : Context) (data : Bytes) :
    (update c data).total = c.total + data.length := by
  induction data generalizing c with
  | nil => rfl
  | cons x data ih =>
    have h1 : (updateByte c x).total = c.total + 1 := by
      rw [updateByte]
      split <;> rfl
    have h2 : update c (x :: data) = update (updateByte c x) data := rfl
    rw [h2, ih, h1, List.length_cons]
    omega

lemma session_streamed_raises {c : Context} {chunks : List Chunk}
    (h : 0x1FFFFFFFFFFFFF00 < c.total + (joined chunks).length) :
    session c (streamed chunks) = none := by
  induction chunks generalizing c with
  | nil =>
    have hf : finishChecked c = none := if_neg fun h1 => by
      simp only [joined, List.flatMap_nil, List.length_nil] at h
      omega
    exact congrArg (Option.bind · _) hf
  | cons data chunks ih =>
    have hs : session c (streamed (data :: chunks)) =
        (updateChecked c data).bind fun c' => session c' (streamed chunks) := rfl
    rw [hs, updateChecked]
    split
    · refine ih ?_
      simp only [joined, List.flatMap_cons, List.length_append] at h
      rw [total_update, joined]
      omega
    · rfl

/-- An array of `n` zeros. -/
def zeros (n : ℕ) (h : n ≤ 0x7FFFFFFF) : Chunk :=
  ⟨List.replicate n 0, List.length_replicate.trans_le h⟩

lemma length_zeros {n : ℕ} (h : n ≤ 0x7FFFFFFF) : (zeros n h).val.length = n :=
  List.length_replicate

/-- The chunk `a`, `n` times, and the chunk `b`. -/
def long (n : ℕ) (a b : Chunk) : List Chunk := List.replicate n a ++ [b]

lemma length_long (n : ℕ) (a b : Chunk) :
    (joined (long n a b)).length = n * a.val.length + b.val.length := by
  simp [joined, long, List.flatMap_append]

/-- A stream of less than `2 ^ 61` bytes without a digest. -/
theorem session_long : ¬ ∀ chunks, (joined chunks).length < 2 ^ 61 →
    (session init (streamed chunks)).map (·.map Block.bytes) =
      some [digest (joined chunks)] := by
  intro h
  obtain ⟨chunks, hlen⟩ : ∃ chunks, (joined chunks).length = 0x1FFFFFFFFFFFFF01 := by
    refine ⟨long 0x40000000 (zeros 0x7FFFFFFF le_rfl) (zeros 0x3FFFFF01 (by omega)), ?_⟩
    rw [length_long, length_zeros, length_zeros]
  have h0 : init.total = 0 := rfl
  have h1 := h chunks (by omega)
  rw [session_streamed_raises (by omega)] at h1
  cases h1

end NiayanAssurance.Sha256Fips
