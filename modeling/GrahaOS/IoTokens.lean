import GrahaOS.Runs

/-!
# The token bucket of a task's I/O

`rlimit_check_io`, `rlimit_refill_io_tokens` and the I/O case of `rlimit_set` in
`kernel/resource/rlimit.c`. A task with a rate has a bucket of one second's bytes, filled by a
hundredth at every tick; requests that find too few tokens are chained, and a tick ships them.

The rate and the byte counts are unsigned words, the balance is a signed one, and the code compares
and subtracts after a cast: a count of 2^63 or more passes the check and adds to the balance.
-/

namespace GrahaOS.IoTokens

open Runs

/-- `io_rate_bytes_per_sec`, `io_tokens` and the byte counts of the jobs at `io_pending_head`. -/
structure Bucket where
  rate : BitVec 64
  tokens : BitVec 64
  pending : List (BitVec 64)

def rlimitEagainInternal : ℤ := -900

def ioRefillDivisor : BitVec 64 := 100

/-- `rlimit_set` for `RLIMIT_RES_IO`: the bucket is full. -/
def rlimitSet (b : Bucket) (value : BitVec 64) : Bucket := { b with rate := value, tokens := value }

def rlimitCheckIo (b : Bucket) (bytes : BitVec 64) : ℤ × Bucket :=
  if b.rate = 0 then (0, b)
  else if bytes.sle b.tokens then (0, { b with tokens := b.tokens - bytes })
  else (rlimitEagainInternal, b)

/-- What a tick adds; at least one. -/
def refillAmount (rate : BitVec 64) : BitVec 64 :=
  if rate / ioRefillDivisor = 0 ∧ 0 < rate then 1 else rate / ioRefillDivisor

/-- The balance after a tick, before jobs are shipped. -/
def refilled (b : Bucket) : BitVec 64 :=
  let tokens := b.tokens + refillAmount b.rate
  if b.rate.slt tokens then b.rate else tokens

/-- The loop over the pending jobs: the counts that are shipped, the balance and what stays. -/
def drain : BitVec 64 → List (BitVec 64) → List (BitVec 64) × BitVec 64 × List (BitVec 64)
  | tokens, [] => ([], tokens, [])
  | tokens, len :: rest =>
    if tokens.slt len then ([], tokens, len :: rest)
    else
      let (shipped, tokens, pending) := drain (tokens - len) rest
      (len :: shipped, tokens, pending)

/-- `rlimit_refill_io_tokens`, with the counts it ships. -/
def rlimitRefillIoTokens (b : Bucket) : List (BitVec 64) × Bucket :=
  if b.rate = 0 then ([], b)
  else
    let (shipped, tokens, pending) := drain (refilled b) b.pending
    (shipped, { b with tokens := tokens, pending := pending })

inductive IoOp
  | check (bytes : BitVec 64)
  /-- `submit.c` chains a job that was refused -/
  | chain (len : BitVec 64)
  | refill

/-- The bucket, and the bytes admitted so far. -/
structure Log where
  bucket : Bucket
  admitted : ℕ

def total : List (BitVec 64) → ℕ
  | [] => 0
  | len :: counts => len.toNat + total counts

def step (x : Log) : IoOp → Log
  | .check bytes =>
    let (rc, b) := rlimitCheckIo x.bucket bytes
    ⟨b, if rc = 0 then x.admitted + bytes.toNat else x.admitted⟩
  | .chain len => { x with bucket.pending := len :: x.bucket.pending }
  | .refill =>
    let (shipped, b) := rlimitRefillIoTokens x.bucket
    ⟨b, x.admitted + total shipped⟩

/-- A task whose rate has just been set. -/
def start (rate : BitVec 64) : Log := ⟨rlimitSet ⟨0, 0, []⟩ rate, 0⟩

def refills (ops : List IoOp) : ℕ := ops.countP fun op => op matches .refill

/-- A bucket, and a full one with a tick more, fits into a signed word. -/
def Moderate (rate : BitVec 64) : Prop :=
  0 < rate ∧ rate.toNat + (refillAmount rate).toNat < 2 ^ 63

/-- The byte count is no negative number after the cast. -/
def Small : IoOp → Prop
  | .check bytes => bytes.toNat < 2 ^ 63
  | .chain len => len.toNat < 2 ^ 63
  | .refill => True

section Bound

variable {x y : Log} {tokens len : BitVec 64} {pending : List (BitVec 64)}

lemma toInt_of_small (h : len.toNat < 2 ^ 63) : len.toInt = len.toNat :=
  BitVec.toInt_eq_toNat_of_lt (by omega)

/-- Counts that are no negative numbers are compared as they should be. -/
lemma sle_iff (hlen : len.toNat < 2 ^ 63) (htokens : tokens.toNat < 2 ^ 63) :
    len.sle tokens = true ↔ len.toNat ≤ tokens.toNat := by
  rw [BitVec.sle_iff_toInt_le, toInt_of_small hlen, toInt_of_small htokens, Int.ofNat_le]

lemma slt_iff (htokens : tokens.toNat < 2 ^ 63) (hlen : len.toNat < 2 ^ 63) :
    tokens.slt len = true ↔ tokens.toNat < len.toNat := by
  rw [BitVec.slt_iff_toInt_lt, toInt_of_small hlen, toInt_of_small htokens, Int.ofNat_lt]

lemma drain_spec (tokens : BitVec 64) (htokens : tokens.toNat < 2 ^ 63)
    (hpending : ∀ len ∈ pending, len.toNat < 2 ^ 63) :
    total (drain tokens pending).1 + (drain tokens pending).2.1.toNat = tokens.toNat ∧
      ∀ len ∈ (drain tokens pending).2.2, len.toNat < 2 ^ 63 := by
  induction pending generalizing tokens with
  | nil => exact ⟨Nat.zero_add _, hpending⟩
  | cons len rest ih =>
  have hlen := hpending len List.mem_cons_self
  rw [drain]
  split_ifs with hshort
  · exact ⟨Nat.zero_add _, hpending⟩
  rw [slt_iff htokens hlen, not_lt] at hshort
  have hleft : (tokens - len).toNat = tokens.toNat - len.toNat :=
    BitVec.toNat_sub_of_le (BitVec.le_def.mpr hshort)
  obtain ⟨hsum, hrest⟩ := ih (tokens - len) (by omega)
    fun l hl => hpending l (List.mem_cons_of_mem len hl)
  refine ⟨?_, hrest⟩
  change len.toNat + total (drain (tokens - len) rest).1 +
    (drain (tokens - len) rest).2.1.toNat = tokens.toNat
  omega

/-- The balance is at most the bucket, and the jobs that wait have small counts. -/
structure Level (rate : BitVec 64) (x : Log) : Prop where
  rate_eq : x.bucket.rate = rate
  tokens_le : x.bucket.tokens.toNat ≤ rate.toNat
  pending : ∀ len ∈ x.bucket.pending, len.toNat < 2 ^ 63

lemma refilled_le {rate : BitVec 64} (hrate : Moderate rate) (h : Level rate x) :
    (refilled x.bucket).toNat ≤ rate.toNat ∧
      (refilled x.bucket).toNat ≤ x.bucket.tokens.toNat + (refillAmount rate).toNat := by
  have hbound := hrate.2
  have hle := h.tokens_le
  have hsum : (x.bucket.tokens + refillAmount rate).toNat =
      x.bucket.tokens.toNat + (refillAmount rate).toNat :=
    BitVec.toNat_add_of_lt (by omega)
  rw [refilled, h.rate_eq]
  split_ifs with hfull
  · rw [slt_iff (by omega) (by omega)] at hfull
    omega
  · rw [slt_iff (by omega) (by omega)] at hfull
    omega

/-- A step keeps the balance in the bucket, and admits no more than it takes from there or a tick
adds. -/
lemma step_level {rate : BitVec 64} (hrate : Moderate rate) (h : Level rate x) {op : IoOp}
    (hop : Small op) :
    Level rate (step x op) ∧
      (step x op).admitted + (step x op).bucket.tokens.toNat ≤
        x.admitted + x.bucket.tokens.toNat + refills [op] * (refillAmount rate).toNat := by
  have hbound := hrate.2
  have hle := h.tokens_le
  have hne : x.bucket.rate ≠ 0 := by
    rw [h.rate_eq]
    rintro rfl
    exact absurd hrate.1 (by decide)
  cases op with
  | check bytes =>
    rw [step, rlimitCheckIo, if_neg hne]
    split_ifs with hfits
    · rw [sle_iff hop (by omega)] at hfits
      have hleft : (x.bucket.tokens - bytes).toNat = x.bucket.tokens.toNat - bytes.toNat :=
        BitVec.toNat_sub_of_le (BitVec.le_def.mpr hfits)
      refine ⟨⟨h.rate_eq, ?_, h.pending⟩, ?_⟩
      · change (x.bucket.tokens - bytes).toNat ≤ _
        omega
      · change x.admitted + bytes.toNat + (x.bucket.tokens - bytes).toNat ≤ _
        omega
    · exact ⟨h, Nat.le_add_right _ _⟩
  | chain len =>
    refine ⟨⟨h.rate_eq, hle, fun l hl => ?_⟩, Nat.le_add_right _ _⟩
    rcases List.mem_cons.mp hl with rfl | hl
    · exact hop
    · exact h.pending l hl
  | refill =>
    obtain ⟨hfull, htick⟩ := refilled_le hrate h
    obtain ⟨hsum, hpending⟩ := drain_spec (refilled x.bucket) (by omega) h.pending
    have hone : refills [.refill] = 1 := rfl
    rw [step, rlimitRefillIoTokens, if_neg hne, hone, Nat.one_mul]
    refine ⟨⟨h.rate_eq, ?_, hpending⟩, ?_⟩
    · change (drain (refilled x.bucket) x.bucket.pending).2.1.toNat ≤ _
      omega
    · change x.admitted + total (drain (refilled x.bucket) x.bucket.pending).1 +
        (drain (refilled x.bucket) x.bucket.pending).2.1.toNat ≤ _
      omega

lemma run_level {rate : BitVec 64} (hrate : Moderate rate) (h : Level rate x) {ops : List IoOp}
    (hops : ∀ op ∈ ops, Small op) :
    Level rate (run step x ops) ∧
      (run step x ops).admitted + (run step x ops).bucket.tokens.toNat ≤
        x.admitted + x.bucket.tokens.toNat + refills ops * (refillAmount rate).toNat := by
  induction ops generalizing x with
  | nil => exact ⟨h, Nat.le_add_right _ _⟩
  | cons op ops ih =>
    obtain ⟨hlevel, hstep⟩ := step_level hrate h (hops op List.mem_cons_self)
    obtain ⟨hrun, hrest⟩ := ih hlevel fun o ho => hops o (List.mem_cons_of_mem op ho)
    have hcount : refills (op :: ops) = refills [op] + refills ops :=
      @List.countP_append _ _ [op] ops
    rw [run_cons, hcount, Nat.add_mul]
    exact ⟨hrun, by omega⟩

end Bound

/-- In every run the balance is between zero and the bucket, and what any window of the run admits
is at most a bucket and its ticks. -/
theorem admitted_bytes_are_bounded {rate : BitVec 64} (hrate : Moderate rate)
    {ops window : List IoOp} (hops : ∀ op ∈ ops ++ window, Small op) :
    0 ≤ (run step (start rate) ops).bucket.tokens.toInt ∧
    (run step (start rate) ops).bucket.tokens.toInt ≤ rate.toNat ∧
    (run step (start rate) (ops ++ window)).admitted ≤
      (run step (start rate) ops).admitted +
        (rate.toNat + refills window * (refillAmount rate).toNat) := by
  have hstart : Level rate (start rate) := ⟨rfl, le_rfl, fun _ hl => absurd hl List.not_mem_nil⟩
  obtain ⟨hlevel, -⟩ := run_level hrate hstart fun op hop => hops op (List.mem_append_left _ hop)
  obtain ⟨-, hwindow⟩ := run_level hrate hlevel fun op hop => hops op (List.mem_append_right _ hop)
  have hle := hlevel.tokens_le
  have hbound := hrate.2
  rw [toInt_of_small (by omega), run_append]
  exact ⟨Int.natCast_nonneg _, Int.ofNat_le.mpr hle, by omega⟩

/-- A thousand bytes per second: a request, two that wait, and a tick that ships one of them. -/
theorem admitted_bytes_of_a_window :
    (run step (start 1000) ([.check 995] ++ [.chain 100, .chain 12, .refill])).admitted = 1007 ∧
    (run step (start 1000) ([.check 995] ++ [.chain 100, .chain 12, .refill])).admitted ≤
      (run step (start 1000) [.check 995]).admitted +
        ((1000 : BitVec 64).toNat + refills [.chain 100, .chain 12, .refill] *
          (refillAmount 1000).toNat) := by
  refine ⟨by decide, (admitted_bytes_are_bounded ⟨by decide, by decide⟩ fun op hop => ?_).2.2⟩
  fin_cases hop <;> simp [Small]

/-- A request of 2^63 bytes passes, and leaves a negative balance. -/
theorem huge_request_is_admitted :
    (run step (start 1000) [.check 0x8000000000000000]).bucket.tokens.toInt < 0 ∧
    (run step (start 1000) [.check 0x8000000000000000]).admitted = 2 ^ 63 := by
  decide

end GrahaOS.IoTokens
