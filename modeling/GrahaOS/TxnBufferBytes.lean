import GrahaOS.ByteFields
import GrahaOS.Runs
import GrahaOS.Transactions

/-!
# The bytes of a transaction buffer

The buffer of a transaction lies in the pages of a memory object, and a record of 356 bytes may
begin on one page and end on the next. The loops of `kernel/txn/buffer.c` copy it in parts. Here
the parts are one copy in a linear memory, and what the iterator reads is what was appended.
-/

namespace GrahaOS.TxnBufferBytes

open ByteFields Transactions Runs List

def memcpy (dst : ℕ → UInt8) (d : ℕ) (src : ℕ → UInt8) (n : ℕ) : ℕ → UInt8 := fun k =>
  if d ≤ k ∧ k < d + n then src (k - d) else dst k

/-- The first `a` bytes of one array and then another one. -/
def joined (a : ℕ) (f g : ℕ → UInt8) : ℕ → UInt8 := fun k => if k < a then f k else g (k - a)

lemma memcpy_congr {f g : ℕ → UInt8} {n : ℕ} (h : ∀ k < n, f k = g k) (dst : ℕ → UInt8) (d : ℕ) :
    memcpy dst d f n = memcpy dst d g n := by
  funext k
  unfold memcpy
  by_cases hk : d ≤ k ∧ k < d + n
  · rw [if_pos hk, if_pos hk, h _ (by omega)]
  · rw [if_neg hk, if_neg hk]

lemma memcpy_memcpy (dst f g : ℕ → UInt8) (d a b : ℕ) :
    memcpy (memcpy dst d f a) (d + a) g b = memcpy dst d (joined a f g) (a + b) := by
  funext k
  unfold memcpy joined
  by_cases hsecond : d + a ≤ k ∧ k < d + a + b
  · rw [if_pos hsecond, if_pos (by omega), if_neg (by omega), Nat.sub_add_eq]
  rw [if_neg hsecond]
  by_cases hfirst : d ≤ k ∧ k < d + a
  · rw [if_pos hfirst, if_pos (by omega), if_pos (by omega)]
  · rw [if_neg hfirst, if_neg (by omega)]

lemma joined_shift (a : ℕ) (f : ℕ → UInt8) : joined a f (fun k => f (a + k)) = f := by
  funext k
  unfold joined
  split_ifs
  · rfl
  · exact congrArg f (Nat.add_sub_cancel' (by omega))

/-- The pages of a buffer, which are all populated. -/
structure Pages where
  npages : ℕ
  page : ℕ → ℕ → UInt8

variable (v : Pages)

def Pages.setPage (i : ℕ) (bytes : ℕ → UInt8) : Pages :=
  { v with page := Function.update v.page i bytes }

/-- The byte at a position of the buffer. -/
def Pages.linear : ℕ → UInt8 := fun k => v.page (k / 4096) (k % 4096)

/-- `txn_buffer_write_bytes` of `n` bytes, which stops at a page that does not exist. -/
def writeBytes (v : Pages) (off : ℕ) (src : ℕ → UInt8) (n : ℕ) : Pages :=
  if n = 0 then v
  else
    let take := min n (4096 - off % 4096)
    if off / 4096 < v.npages then
      writeBytes (v.setPage (off / 4096) (memcpy (v.page (off / 4096)) (off % 4096) src take))
        (off + take) (fun k => src (take + k)) (n - take)
    else v
termination_by n
decreasing_by omega

/-- `txn_buffer_read_bytes` of `n` bytes, to the position `p` of the destination. -/
def readBytes (v : Pages) (off : ℕ) (dst : ℕ → UInt8) (p n : ℕ) : ℕ → UInt8 :=
  if n = 0 then dst
  else
    let take := min n (4096 - off % 4096)
    if off / 4096 < v.npages then
      readBytes v (off + take)
        (memcpy dst p (fun k => v.page (off / 4096) (off % 4096 + k)) take) (p + take) (n - take)
    else dst
termination_by n
decreasing_by omega

lemma linear_setPage {off take : ℕ} (src : ℕ → UInt8)
    (htake : off % 4096 + take ≤ 4096) :
    (v.setPage (off / 4096) (memcpy (v.page (off / 4096)) (off % 4096) src take)).linear =
      memcpy v.linear off src take := by
  funext k
  unfold Pages.linear Pages.setPage memcpy
  by_cases hpage : k / 4096 = off / 4096
  · simp only [hpage, Function.update_self]
    by_cases hin : off ≤ k ∧ k < off + take
    · rw [if_pos hin, if_pos (by omega)]
      congr 1
      omega
    · rw [if_neg hin, if_neg (by omega)]
  · simp only [Function.update_of_ne hpage]
    rw [if_neg (by omega)]

lemma writeBytes_spec (off : ℕ) (src : ℕ → UInt8) (n : ℕ)
    (hfit : off + n ≤ v.npages * 4096) :
    (writeBytes v off src n).npages = v.npages ∧
      (writeBytes v off src n).linear = memcpy v.linear off src n := by
  fun_induction writeBytes v off src n with
  | case1 => exact ⟨rfl, by funext k; simp [memcpy]⟩
  | case2 v off src n hn take hpage ih =>
    obtain ⟨hpages, hlinear⟩ := ih (by change _ ≤ v.npages * 4096; omega)
    refine ⟨hpages, ?_⟩
    rw [hlinear, linear_setPage v src (by omega), memcpy_memcpy, joined_shift,
      Nat.add_sub_cancel' (by omega)]
  | case3 => omega

lemma readBytes_spec (off : ℕ) (dst : ℕ → UInt8) (p n : ℕ)
    (hfit : off + n ≤ v.npages * 4096) :
    readBytes v off dst p n = memcpy dst p (fun k => v.linear (off + k)) n := by
  fun_induction readBytes v off dst p n with
  | case1 => funext k; simp [memcpy]
  | case2 off dst p n hn take hpage ih =>
    have hpart : ∀ k < take, v.page (off / 4096) (off % 4096 + k) = v.linear (off + k) := by
      intro k hk
      have htake : off % 4096 + take ≤ 4096 := by omega
      have hdiv : (off + k) / 4096 = off / 4096 := by omega
      have hmod : (off + k) % 4096 = off % 4096 + k := by omega
      rw [Pages.linear, hdiv, hmod]
    rw [ih (by omega), memcpy_congr hpart, memcpy_memcpy]
    simp only [Nat.add_assoc off take]
    rw [joined_shift take fun k => v.linear (off + k), Nat.add_sub_cancel' (by omega)]
  | case3 => omega

/-! The fields of `buffered_msg_header_t`. -/

def magicField : Field := ⟨0, 4⟩
def targetField : Field := ⟨8, 8⟩
def lengthField : Field := ⟨16, 4⟩
def flagsField : Field := ⟨20, 4⟩
def seqField : Field := ⟨24, 8⟩

/-- A record as the iterator returns it: the header and the message. -/
abbrev Record := Bytes 32 × Bytes channelMsgBytes

/-- The header that `txn_buffer_append` writes. -/
def newHeader (targetChanId flags count : ℕ) : Bytes 32 :=
  seqField.put (flagsField.put (lengthField.put (targetField.put (magicField.put (zeros 32)
    txnBufferMagicHead.toNat) targetChanId) channelMsgBytes) flags) count

def tailMark : Bytes 4 := putLE (zeros 4) 0 4 txnBufferMagicTail.toNat

/-- The fields of `transaction_t` that `buffer.c` works on. -/
structure Buffer where
  vmo : Option Pages
  capacity : ℕ
  head : ℕ
  count : ℕ

/-- The size of the object of a buffer, a multiple of the page size. -/
def rounded (capacity : ℕ) : ℕ :=
  ((if capacity = 0 then txnDefaultBufferBytes else capacity) + 4095) / 4096 * 4096 % 2 ^ 32

/-- `txn_buffer_lazy_alloc`; `created` is the outcome of `vmo_create` for a size that is not
zero. -/
def lazyAlloc (b : Buffer) (created : Bool) : ℤ × Buffer :=
  if b.vmo.isSome then (0, b)
  else if !created ∨ rounded b.capacity = 0 then (txnEnomem, b)
  else (0, { b with
    vmo := some ⟨rounded b.capacity / 4096, fun _ _ => 0⟩
    capacity := rounded b.capacity
    head := 0 })

/-- The three copies of `txn_buffer_append`. -/
def writeRecord (off : ℕ) (r : Record) : Pages :=
  let v := writeBytes v off (byte r.1) 32
  let v := writeBytes v (off + 32) (byte r.2) channelMsgBytes
  writeBytes v (off + 32 + channelMsgBytes) (byte tailMark) 4

def append (b : Buffer) (targetChanId : ℕ) (msg : Bytes channelMsgBytes) (flags : ℕ)
    (created : Bool) : ℤ × Buffer :=
  let a := lazyAlloc b created
  if a.1 < 0 then a
  else if a.2.capacity < a.2.head + entrySize channelMsgBytes then (enospc, a.2)
  else (0, { a.2 with
    vmo := a.2.vmo.map (writeRecord · a.2.head (newHeader targetChanId flags a.2.count, msg))
    head := a.2.head + entrySize channelMsgBytes
    count := a.2.count + 1 })

/-- `txn_buffer_iter_next` at an offset, with what the caller's variables held before: the
record and the offset behind it. -/
def iterNext (b : Buffer) (outHdr outPayload : ℕ → UInt8) (off : ℕ) : Except ℤ (Record × ℕ) :=
  match b.vmo with
  | none => .error enodata
  | some v =>
    if b.head ≤ off then .error enodata
    else
      let hdr : Bytes 32 := fun k => readBytes v off outHdr 0 32 k
      if magicField.get hdr ≠ txnBufferMagicHead.toNat then .error txnEinval
      else if channelMsgBytes < lengthField.get hdr then .error txnEinval
      else
        let len := lengthField.get hdr
        let payload : Bytes channelMsgBytes := fun k => readBytes v (off + 32) outPayload 0 len k
        let tailOff := off + 32 + (len + 7) / 8 * 8
        let tail : Bytes 4 := fun k => readBytes v tailOff (fun _ => 0) 0 4 k
        if getLE tail 0 4 ≠ txnBufferMagicTail.toNat then .error txnEinval
        else .ok ((hdr, payload), tailOff + 4)

/-- The records from an offset on, and the code that ends the iteration. -/
def iterate (b : Buffer) (outHdr outPayload : ℕ → UInt8) : ℕ → ℕ → List Record × ℤ
  | 0, _ => ([], 0)
  | fuel + 1, off =>
    match iterNext b outHdr outPayload off with
    | .error rc => ([], rc)
    | .ok (r, next) =>
      let rest := iterate b outHdr outPayload fuel next
      (r :: rest.1, rest.2)

/-- The bytes of a record. -/
def recordBytes (r : Record) : ℕ → UInt8 :=
  joined 32 (byte r.1) (joined channelMsgBytes (byte r.2) (byte tailMark))

lemma writeRecord_spec {v : Pages} {off : ℕ} (r : Record)
    (hfit : off + entrySize channelMsgBytes ≤ v.npages * 4096) :
    (writeRecord v off r).npages = v.npages ∧ (writeRecord v off r).linear =
      memcpy v.linear off (recordBytes r) (entrySize channelMsgBytes) := by
  have hentry : entrySize channelMsgBytes = 32 + channelMsgBytes + 4 := rfl
  obtain ⟨hn₁, h₁⟩ := writeBytes_spec v off (byte r.1) 32 (by omega)
  obtain ⟨hn₂, h₂⟩ := writeBytes_spec _ (off + 32) (byte r.2) channelMsgBytes (by rw [hn₁]; omega)
  obtain ⟨hn₃, h₃⟩ := writeBytes_spec _ (off + 32 + channelMsgBytes) (byte tailMark) 4
    (by rw [hn₂, hn₁]; omega)
  refine ⟨hn₃.trans (hn₂.trans hn₁), h₃.trans ?_⟩
  rw [h₂, h₁, memcpy_memcpy, memcpy_memcpy]
  rfl

/-- What the iterator checks of a header. -/
def Framed (r : Record) : Prop :=
  magicField.get r.1 = txnBufferMagicHead.toNat ∧ lengthField.get r.1 = channelMsgBytes

lemma framed_newHeader (targetChanId flags count : ℕ) (msg : Bytes channelMsgBytes) :
    Framed (newHeader targetChanId flags count, msg) := by
  constructor
  · simp only [newHeader]
    rw [Field.get_put_of_apart (by decide), Field.get_put_of_apart (by decide),
      Field.get_put_of_apart (by decide), Field.get_put_of_apart (by decide),
      Field.get_put_self _ _ (by decide) (by decide)]
  · simp only [newHeader]
    rw [Field.get_put_of_apart (by decide), Field.get_put_of_apart (by decide),
      Field.get_put_self _ _ (by decide) (by decide)]

/-- The buffer holds the records. -/
structure Stored (b : Buffer) (recs : List Record) : Prop where
  head : b.head = entrySize channelMsgBytes * recs.length
  count : b.count = recs.length
  missing : b.vmo = none → recs = []
  pages : ∀ v, b.vmo = some v → v.npages * 4096 = b.capacity ∧ b.head ≤ b.capacity ∧
    ∀ i r, recs[i]? = some r → Framed r ∧ ∀ k < entrySize channelMsgBytes,
      v.linear (entrySize channelMsgBytes * i + k) = recordBytes r k

lemma readBytes_eq {v : Pages} {off n : ℕ} {dst : ℕ → UInt8} {bytes : Bytes n}
    (hfit : off + n ≤ v.npages * 4096) (h : ∀ k < n, v.linear (off + k) = byte bytes k) :
    (fun k : Fin n => readBytes v off dst 0 n k) = bytes := by
  funext k
  rw [readBytes_spec v off dst 0 n hfit, memcpy, if_pos ⟨Nat.zero_le _, by omega⟩, Nat.sub_zero,
    h k k.isLt, byte_of_lt bytes k.isLt]

section Iteration

variable {b : Buffer} {recs : List Record} (h : Stored b recs) (outHdr outPayload : ℕ → UInt8)

include h

lemma iterNext_stored {i : ℕ} {r : Record} (hr : recs[i]? = some r) :
    iterNext b outHdr outPayload (entrySize channelMsgBytes * i) =
      .ok (r, entrySize channelMsgBytes * (i + 1)) := by
  have hi : i < recs.length := (List.getElem?_eq_some_iff.mp hr).1
  cases hv : b.vmo with
  | none => simp [h.missing hv] at hi
  | some v =>
  obtain ⟨hsize, hle, hlies⟩ := h.pages v hv
  obtain ⟨⟨hmagic, hlen⟩, hbytes⟩ := hlies i r hr
  have hentry : entrySize channelMsgBytes = 32 + channelMsgBytes + 4 := rfl
  have hend : entrySize channelMsgBytes * i + entrySize channelMsgBytes ≤ b.head := by
    rw [h.head, ← Nat.mul_succ]
    exact Nat.mul_le_mul_left _ hi
  have hheader : ∀ k < 32, v.linear (entrySize channelMsgBytes * i + k) = byte r.1 k := by
    intro k hk
    rw [hbytes k (by omega), recordBytes, joined, if_pos hk]
  have hmessage : ∀ k < channelMsgBytes,
      v.linear (entrySize channelMsgBytes * i + 32 + k) = byte r.2 k := by
    intro k hk
    rw [Nat.add_assoc, hbytes _ (by omega), recordBytes, joined, if_neg (by omega),
      Nat.add_sub_cancel_left, joined, if_pos hk]
  have htail : ∀ k < 4, v.linear (entrySize channelMsgBytes * i + 32 + channelMsgBytes + k) =
      byte tailMark k := by
    intro k hk
    rw [Nat.add_assoc, Nat.add_assoc, hbytes _ (by omega), recordBytes, joined,
      if_neg (by omega), Nat.add_sub_cancel_left, joined, if_neg (by omega),
      Nat.add_sub_cancel_left]
  unfold iterNext
  rw [hv]
  dsimp only
  rw [if_neg (by omega), readBytes_eq (by omega) hheader, if_neg (not_not.mpr hmagic), hlen,
    if_neg (lt_irrefl _), readBytes_eq (by omega) hmessage]
  change (if getLE (fun k : Fin 4 => readBytes v (_ + 32 + channelMsgBytes) _ 0 4 k) 0 4 ≠ _ then
    _ else _) = _
  rw [readBytes_eq (by omega) htail, tailMark, getLE_putLE_self _ (by decide) (by decide),
    if_neg (not_not.mpr rfl)]
  rfl

lemma iterate_stored {fuel i : ℕ} (hi : i ≤ recs.length) (hfuel : recs.length - i < fuel) :
    iterate b outHdr outPayload fuel (entrySize channelMsgBytes * i) = (recs.drop i, enodata) := by
  induction fuel generalizing i with
  | zero => omega
  | succ fuel ih =>
  rw [iterate]
  rcases hi.lt_or_eq with hlt | rfl
  · rw [iterNext_stored h outHdr outPayload (getElem?_eq_getElem hlt)]
    dsimp only
    rw [ih hlt (by omega), drop_eq_getElem_cons hlt]
  have hend : iterNext b outHdr outPayload (entrySize channelMsgBytes * recs.length) =
      .error enodata := by
    unfold iterNext
    cases b.vmo with
    | none => rfl
    | some v => exact if_pos h.head.le
  rw [hend, drop_length]

end Iteration

/-- A buffer that is allocated now has room for a record. -/
lemma lazyAlloc_stored {b : Buffer} {recs : List Record} (h : Stored b recs) (created : Bool) :
    lazyAlloc b created = (txnEnomem, b) ∨ (lazyAlloc b created).1 = 0 ∧
      Stored (lazyAlloc b created).2 recs ∧ (lazyAlloc b created).2.vmo.isSome ∧
      ((lazyAlloc b created).2.capacity <
        (lazyAlloc b created).2.head + entrySize channelMsgBytes → (lazyAlloc b created).2 = b) := by
  unfold lazyAlloc
  by_cases hsome : b.vmo.isSome
  · rw [if_pos hsome]
    exact .inr ⟨rfl, h, hsome, fun _ => rfl⟩
  rw [if_neg hsome]
  by_cases hfails : !created ∨ rounded b.capacity = 0
  · rw [if_pos hfails]
    exact .inl rfl
  rw [if_neg hfails]
  have hmod : rounded b.capacity % 4096 = 0 := by
    unfold rounded
    omega
  have hpos : rounded b.capacity ≠ 0 := (not_or.mp hfails).2
  obtain rfl := h.missing (Option.not_isSome_iff_eq_none.mp hsome)
  refine .inr ⟨rfl, ⟨rfl, h.count, (nomatch ·), ?_⟩, rfl, fun hfull => ?_⟩
  · rintro v hv
    cases hv
    exact ⟨by dsimp only; omega, Nat.zero_le _, fun i r hr => by simp at hr⟩
  · have hentry : entrySize channelMsgBytes = 356 := rfl
    dsimp only at hfull
    omega

lemma append_stored {b : Buffer} {recs : List Record} (h : Stored b recs) (targetChanId : ℕ)
    (msg : Bytes channelMsgBytes) (flags : ℕ) (created : Bool) :
    (append b targetChanId msg flags created).1 < 0 ∧
        (append b targetChanId msg flags created).2 = b ∨
      (append b targetChanId msg flags created).1 = 0 ∧
        Stored (append b targetChanId msg flags created).2
          (recs ++ [(newHeader targetChanId flags recs.length, msg)]) := by
  have hnomem : txnEnomem < 0 := by decide
  unfold append
  rcases lazyAlloc_stored h created with hfail | ⟨hzero, hstored, hsome, hfull⟩
  · rw [hfail]
    rw [if_pos hnomem]
    exact .inl ⟨hnomem, rfl⟩
  generalize lazyAlloc b created = a at hzero hstored hsome hfull
  rw [if_neg (by omega)]
  by_cases hspace : a.2.capacity < a.2.head + entrySize channelMsgBytes
  · rw [if_pos hspace]
    exact .inl ⟨show enospc < 0 by decide, hfull hspace⟩
  rw [if_neg hspace]
  obtain ⟨v, hv⟩ := Option.isSome_iff_exists.mp hsome
  obtain ⟨hsize, hle, hlies⟩ := hstored.pages v hv
  have hhead := hstored.head
  rw [hstored.count, hv]
  obtain ⟨hpages, hlinear⟩ := @writeRecord_spec v a.2.head
    (newHeader targetChanId flags recs.length, msg) (by omega)
  refine .inr ⟨rfl, ⟨?_, by simp, (nomatch ·), ?_⟩⟩
  · rw [hhead, length_append, length_singleton, Nat.mul_succ]
  rintro v' hv'
  cases hv'
  refine ⟨by rw [hpages]; exact hsize, not_lt.mp hspace, fun i r hr => ?_⟩
  rw [hlinear]
  rcases lt_or_ge i recs.length with hi | hi
  · rw [getElem?_append_left hi] at hr
    obtain ⟨hframed, hbytes⟩ := hlies i r hr
    refine ⟨hframed, fun k hk => ?_⟩
    have hbefore := Nat.mul_le_mul_left (entrySize channelMsgBytes) hi
    rw [Nat.mul_succ] at hbefore
    rw [memcpy, if_neg (by omega), hbytes k hk]
  · rw [getElem?_append_right hi, getElem?_singleton] at hr
    split_ifs at hr with hlast
    cases hr
    obtain rfl : i = recs.length := by omega
    refine ⟨framed_newHeader _ _ _ _, fun k hk => ?_⟩
    rw [← hhead, memcpy, if_pos (by omega), Nat.add_sub_cancel_left]

/-- The arguments of an append, and whether `vmo_create` succeeds in it. -/
structure Append where
  targetChanId : ℕ
  msg : Bytes channelMsgBytes
  flags : ℕ
  created : Bool

/-- The buffer, and the records that it has accepted. -/
structure Log where
  buffer : Buffer
  accepted : List Record

def record (l : Log) (op : Append) : Log :=
  let r := append l.buffer op.targetChanId op.msg op.flags op.created
  ⟨r.2, if r.1 = 0 then l.accepted ++ [(newHeader op.targetChanId op.flags l.buffer.count, op.msg)]
    else l.accepted⟩

/-- The log of a transaction that has sent nothing. -/
def opened (capacity : ℕ) : Log := ⟨⟨none, capacity, 0, 0⟩, []⟩

lemma stored_run (capacity : ℕ) (ops : List Append) :
    Stored (run record (opened capacity) ops).buffer (run record (opened capacity) ops).accepted := by
  refine invariant_run_all (fun l : Log => Stored l.buffer l.accepted) (fun l op h => ?_)
    ⟨rfl, rfl, fun _ => rfl, fun _ hv => by cases hv⟩ ops
  unfold record
  rcases append_stored h op.targetChanId op.msg op.flags op.created with ⟨hneg, hsame⟩ | ⟨hzero, hmore⟩
  · simpa [hneg.ne, hsame] using h
  · simpa [hzero, h.count] using hmore

end GrahaOS.TxnBufferBytes
