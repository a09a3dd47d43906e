import GrahaOS.RingBuffer

/-!
# The receive ring of a connection

Models the ring of `netd_tcp_conn_t` in `user/netd.c`: two cursors and no count, so that one
slot always stays free. `tcp_ring_push` drops what does not fit.

A receive ring is a ring buffer whose count is the distance of the cursors; pushing and popping
one byte are the operations of that ring buffer.
-/

namespace GrahaOS.ReceiveRing

open RingBuffer

def netdTcpRxRingBytes : ℕ := 2048

/-- `rx_head`, `rx_tail` and `rx_buf`. The write cursor is the head. -/
structure RxRing where
  head : ℕ
  tail : ℕ
  buf : ℕ → UInt8
  head_lt : head < netdTcpRxRingBytes
  tail_lt : tail < netdTcpRxRingBytes

namespace RxRing

/-- A cleared connection. -/
def empty : RxRing := ⟨0, 0, fun _ => 0, by decide, by decide⟩

/-- `tcp_ring_bytes`: the difference of the cursors in 16 bits, modulo the size. -/
def bytes (r : RxRing) : ℕ := (r.head + 2 ^ 16 - r.tail) % 2 ^ 16 % netdTcpRxRingBytes

/-- The body of the loop of `tcp_ring_push`. -/
def pushByte (r : RxRing) (b : UInt8) : RxRing where
  head := (r.head + 1) % netdTcpRxRingBytes
  tail := r.tail
  buf := Function.update r.buf (r.head % netdTcpRxRingBytes) b
  head_lt := Nat.mod_lt _ (by decide)
  tail_lt := r.tail_lt

def push (r : RxRing) (src : List UInt8) : RxRing :=
  (src.take (netdTcpRxRingBytes - 1 - r.bytes)).foldl pushByte r

/-- The body of the loop of `tcp_ring_pop`. -/
def popByte (r : RxRing) : UInt8 × RxRing :=
  (r.buf (r.tail % netdTcpRxRingBytes),
    { r with tail := (r.tail + 1) % netdTcpRxRingBytes, tail_lt := Nat.mod_lt _ (by decide) })

def popBytes : ℕ → RxRing → List UInt8 × RxRing
  | 0, r => ([], r)
  | n + 1, r => (r.popByte.1 :: (popBytes n r.popByte.2).1, (popBytes n r.popByte.2).2)

/-- `tcp_ring_pop`: at most `cap` bytes. -/
def pop (r : RxRing) (cap : ℕ) : List UInt8 × RxRing := popBytes (min cap r.bytes) r

variable {r : RxRing}

lemma bytes_lt (r : RxRing) : r.bytes < netdTcpRxRingBytes := Nat.mod_lt _ (by decide)

/-- The ring buffer that reads at the tail and writes at the head. -/
def ring (r : RxRing) : RingBuf UInt8 where
  capacity := netdTcpRxRingBytes
  head := r.tail
  tail := r.head
  count := r.bytes
  slots := r.buf
  head_lt := r.tail_lt
  count_le := r.bytes_lt.le
  tail_eq := by
    have hh := r.head_lt
    have ht := r.tail_lt
    simp only [bytes, netdTcpRxRingBytes] at hh ht ⊢
    omega

/-- The bytes that wait in the ring, oldest first. -/
def contents (r : RxRing) : List UInt8 := r.ring.contents

@[simp] lemma contents_empty : empty.contents = [] := rfl

lemma bytes_pushByte (b : UInt8) (h : r.bytes + 1 < netdTcpRxRingBytes) :
    (r.pushByte b).bytes = r.bytes + 1 := by
  have hh := r.head_lt
  have ht := r.tail_lt
  simp only [bytes, pushByte, netdTcpRxRingBytes] at h hh ht ⊢
  omega

lemma contents_pushByte (b : UInt8) (h : r.bytes + 1 < netdTcpRxRingBytes) :
    (r.pushByte b).contents = r.contents ++ [b] := by
  have hroom : r.ring.count < r.ring.capacity := r.bytes_lt
  have hring : (r.pushByte b).ring = r.ring.push b hroom := by
    simp only [ring, RingBuf.push, RingBuf.mk.injEq, bytes_pushByte b h]
    simp [pushByte, Nat.mod_eq_of_lt r.head_lt]
  rw [contents, hring, RingBuf.contents_push]
  rfl

lemma contents_foldl_pushByte (src : List UInt8) (h : r.bytes + src.length < netdTcpRxRingBytes) :
    (src.foldl pushByte r).contents = r.contents ++ src := by
  induction src generalizing r with
  | nil => simp
  | cons b src ih =>
    rw [List.length_cons] at h
    have hb := bytes_pushByte b (by omega : r.bytes + 1 < netdTcpRxRingBytes)
    rw [List.foldl_cons, ih (by omega), contents_pushByte b (by omega), List.append_assoc,
      List.singleton_append]

/-- A push appends what fits. -/
theorem contents_push (src : List UInt8) :
    (r.push src).contents = r.contents ++ src.take (netdTcpRxRingBytes - 1 - r.bytes) := by
  have hlt := r.bytes_lt
  refine contents_foldl_pushByte _ ?_
  rw [List.length_take]
  omega

lemma bytes_popByte (h : 0 < r.bytes) : r.popByte.2.bytes = r.bytes - 1 := by
  have hh := r.head_lt
  simp only [bytes, popByte, netdTcpRxRingBytes] at h hh ⊢
  omega

lemma contents_popByte (h : 0 < r.bytes) : r.contents = r.popByte.1 :: r.popByte.2.contents := by
  have hring : r.popByte.2.ring = r.ring.pop id h := by
    simp only [ring, RingBuf.pop, RingBuf.mk.injEq, bytes_popByte h]
    simp [popByte, RingBuf.front]
  have hfront : r.popByte.1 = r.ring.front := by
    simp [popByte, RingBuf.front, ring, Nat.mod_eq_of_lt r.tail_lt]
  rw [hfront, contents, contents, hring]
  exact r.ring.contents_pop id h

lemma contents_popBytes (n : ℕ) (h : n ≤ r.bytes) :
    r.contents = (popBytes n r).1 ++ (popBytes n r).2.contents := by
  induction n generalizing r with
  | zero => rfl
  | succ n ih =>
    have hb := bytes_popByte (by omega : 0 < r.bytes)
    rw [contents_popByte (by omega), popBytes, List.cons_append,
      ← ih (by omega : n ≤ r.popByte.2.bytes)]

/-- A pop takes bytes from the front. -/
theorem contents_pop (cap : ℕ) : r.contents = (r.pop cap).1 ++ (r.pop cap).2.contents :=
  contents_popBytes _ (min_le_right _ _)

end RxRing

end GrahaOS.ReceiveRing
