import GrahaOS.Runs

/-!
# The ring of an interrupt channel

`userdrv_isr_post` and `userdrv_irq_drain`, one step for each access to the shared channel. The
interrupt handler is the only producer and the driver the only consumer, and both run without a
lock. The counters are words of 32 bits that run freely: the difference is the number of messages
in the ring, also after one of them has wrapped.
-/

namespace GrahaOS.IrqRing

open Runs Function List

variable {Msg : Type}

abbrev drvIrqRingSize : ℕ := 64

def slot (index : UInt32) : ℕ := index.toNat &&& (drvIrqRingSize - 1)

/-- Where the producer is: what it has loaded, and whether it has written the slot. -/
inductive Post (Msg : Type) where
  | idle
  | begun (msg : Msg)
  | loaded (msg : Msg) (head : UInt32)
  | compared (msg : Msg) (head tail : UInt32)
  | written (msg : Msg) (head : UInt32)

/-- Where the consumer is. `out` are the messages copied so far. -/
inductive Drain (Msg : Type) where
  | idle
  | begun (max : UInt32)
  | loaded (max tail : UInt32)
  | copying (tail toCopy : UInt32) (out : List Msg)

/-- The channel, both parties, and what became of the messages: those accepted, those drained, and
the number of posts refused by a channel that was alive. -/
structure Channel (Msg : Type) where
  ring : ℕ → Msg
  head : UInt32 := 0
  tail : UInt32 := 0
  dropped : UInt64 := 0
  dead : Bool := false
  post : Post Msg := .idle
  drain : Drain Msg := .idle
  accepted : List Msg := []
  drained : List Msg := []
  refused : ℕ := 0

variable (c : Channel Msg)

/-- The next step of `userdrv_isr_post`. -/
def postStep : Channel Msg :=
  match c.post with
  | .idle => c
  | .begun msg => { c with post := .loaded msg c.head }
  | .loaded msg head => { c with post := .compared msg head c.tail }
  | .compared msg head tail =>
    if drvIrqRingSize ≤ (head - tail).toNat then
      { c with dropped := c.dropped + 1, post := .idle, refused := c.refused + 1 }
    else { c with ring := Function.update c.ring (slot head) msg, post := .written msg head }
  | .written msg head =>
    { c with head := head + 1, post := .idle, accepted := c.accepted ++ [msg] }

/-- The next step of `userdrv_irq_drain`. -/
def drainStep : Channel Msg :=
  match c.drain with
  | .idle => c
  | .begun max => { c with drain := .loaded max c.tail }
  | .loaded max tail =>
    let available := c.head - tail
    if available = 0 then { c with drain := .idle }
    else { c with drain := .copying tail (if available < max then available else max) [] }
  | .copying tail toCopy out =>
    let i := UInt32.ofNat out.length
    if i < toCopy then
      { c with drain := .copying tail toCopy (out ++ [c.ring (slot (tail + i))]) }
    else { c with tail := tail + toCopy, drain := .idle, drained := c.drained ++ out }

inductive Op (Msg : Type) where
  | userdrvIsrPost (msg : Msg)
  | userdrvIrqDrain (max : UInt32)
  | postStep
  | drainStep
  | destroy

/-- A call begins if the last one has returned. -/
def step : Op Msg → Channel Msg
  | .userdrvIsrPost msg => if c.post matches .idle ∧ ¬ c.dead then { c with post := .begun msg } else c
  | .userdrvIrqDrain max =>
    if c.drain matches .idle ∧ max ≠ 0 then { c with drain := .begun max } else c
  | .postStep => postStep c
  | .drainStep => drainStep c
  | .destroy => { c with dead := true }

/-- The slots of the messages in the ring, oldest first. -/
def waiting (head tail : UInt32) : List ℕ :=
  (List.range (head - tail).toNat).map fun i => slot (tail + UInt32.ofNat i)

def Channel.contents : List Msg := (waiting c.head c.tail).map c.ring

/-- The slot that the next step of the producer writes. -/
def Channel.target : Option ℕ :=
  match c.post with
  | .compared _ head tail => if drvIrqRingSize ≤ (head - tail).toNat then none else some (slot head)
  | _ => none

/-- What the producer knows, with `n` messages in the ring. The tail it has loaded may be old. -/
def Posting (ring : ℕ → Msg) (head : UInt32) (n : ℕ) : Post Msg → Prop
  | .idle | .begun _ => True
  | .loaded _ head' => head' = head
  | .compared _ head' tail => head' = head ∧ n ≤ (head - tail).toNat
  | .written msg head' => head' = head ∧ n < drvIrqRingSize ∧ ring (slot head) = msg

/-- What the consumer knows. More messages may have come since it looked. -/
def Draining (tail : UInt32) (contents : List Msg) : Drain Msg → Prop
  | .idle | .begun _ => True
  | .loaded _ tail' => tail' = tail
  | .copying tail' toCopy out => tail' = tail ∧ toCopy.toNat ≤ contents.length ∧
      out.length ≤ toCopy.toNat ∧ out <+: contents

structure Sound (c : Channel Msg) : Prop where
  fifo : c.drained ++ c.contents = c.accepted
  posting : Posting c.ring c.head c.contents.length c.post
  draining : Draining c.tail c.contents c.drain
  counted : c.dropped = UInt64.ofNat c.refused

variable {c : Channel Msg} {head tail n : UInt32}

@[simp] lemma length_contents (c : Channel Msg) : c.contents.length = (c.head - c.tail).toNat := by
  simp [Channel.contents, waiting]

lemma Posting.anti {ring : ℕ → Msg} {m n : ℕ} (hle : m ≤ n) :
    ∀ {post : Post Msg}, Posting ring head n post → Posting ring head m post
  | .idle, h | .begun _, h | .loaded .., h => h
  | .compared .., h => ⟨h.1, hle.trans h.2⟩
  | .written .., h => ⟨h.1, hle.trans_lt h.2.1, h.2.2⟩

lemma Draining.mono {xs ys : List Msg} (hle : xs <+: ys) :
    ∀ {drain : Drain Msg}, Draining tail xs drain → Draining tail ys drain
  | .idle, h | .begun _, h | .loaded .., h => h
  | .copying .., h => ⟨h.1, h.2.1.trans hle.length_le, h.2.2.1, h.2.2.2.trans hle⟩

lemma slot_eq (index : UInt32) : slot index = index.toNat % drvIrqRingSize :=
  Nat.and_two_pow_sub_one_eq_mod index.toNat 6

lemma slot_notMem_waiting (h : (head - tail).toNat < drvIrqRingSize) :
    slot head ∉ waiting head tail := by
  have hh := head.toNat_lt
  have ht := tail.toNat_lt
  simp [waiting, slot_eq, UInt32.toNat_sub, drvIrqRingSize] at h ⊢
  omega

lemma waiting_succ (h : (head - tail).toNat < drvIrqRingSize) :
    waiting (head + 1) tail = waiting head tail ++ [slot head] := by
  have hcount : (head + 1 - tail).toNat = (head - tail).toNat + 1 := by
    have hh := head.toNat_lt
    have ht := tail.toNat_lt
    simp only [UInt32.toNat_sub, UInt32.toNat_add, UInt32.toNat_one, drvIrqRingSize] at h ⊢
    omega
  rw [waiting, hcount, range_succ, map_append, map_singleton, UInt32.ofNat_toNat, UInt32.add_comm,
    UInt32.sub_add_cancel]
  rfl

lemma waiting_add (h : n.toNat ≤ (head - tail).toNat) :
    waiting head (tail + n) = (waiting head tail).drop n.toNat := by
  have hcount : (head - (tail + n)).toNat = (head - tail).toNat - n.toNat := by
    have hh := head.toNat_lt
    have ht := tail.toNat_lt
    simp only [UInt32.toNat_sub, UInt32.toNat_add] at h ⊢
    omega
  refine ext_getElem (by simp [waiting, hcount]) fun i _ _ => ?_
  simp [waiting, UInt32.add_assoc]

lemma postStep_sound (h : Sound c) : Sound (postStep c) := by
  have hpost := h.posting
  unfold postStep
  split <;> rename_i hpc <;> rw [hpc] at hpost
  · exact h
  · exact { h with posting := rfl }
  · exact { h with posting := ⟨hpost, by rw [length_contents]⟩ }
  · rename_i msg head tail
    obtain ⟨rfl, hold⟩ := hpost
    split_ifs with hfull
    · exact { h with posting := trivial, counted := by simp [h.counted] }
    have hroom := hold.trans_lt (not_le.mp hfull)
    have hkept : (waiting c.head c.tail).map (update c.ring (slot c.head) msg) = c.contents := by
      rw [length_contents] at hroom
      exact map_congr_left fun i hi =>
        update_of_ne (ne_of_mem_of_not_mem hi (slot_notMem_waiting hroom)) ..
    exact ⟨(congrArg _ hkept).trans h.fifo, ⟨rfl, by rwa [Channel.contents, hkept], update_self ..⟩,
      h.draining.mono (hkept ▸ prefix_rfl), h.counted⟩
  · obtain ⟨rfl, hroom, rfl⟩ := hpost
    have hmore : (waiting (c.head + 1) c.tail).map c.ring = c.contents ++ [c.ring (slot c.head)] := by
      rw [length_contents] at hroom
      rw [waiting_succ hroom, map_append, map_singleton, Channel.contents]
    refine ⟨?_, trivial, h.draining.mono ⟨_, hmore.symm⟩, h.counted⟩
    rw [Channel.contents, hmore, ← append_assoc, h.fifo]

lemma drainStep_sound (h : Sound c) : Sound (drainStep c) := by
  have hdrain := h.draining
  unfold drainStep
  split <;> rename_i hpc <;> rw [hpc] at hdrain
  · exact h
  · exact { h with draining := rfl }
  · rename_i max tail
    obtain rfl : tail = c.tail := hdrain
    dsimp only
    split_ifs with _ hmax
    · exact { h with draining := trivial }
    · exact { h with draining := ⟨rfl, (length_contents c).ge, Nat.zero_le _, nil_prefix⟩ }
    · refine { h with draining := ⟨rfl, ?_, Nat.zero_le _, nil_prefix⟩ }
      rw [length_contents]
      exact UInt32.le_iff_toNat_le.mp (UInt32.not_lt.mp hmax)
  · rename_i tail toCopy out
    obtain ⟨rfl, hle, hlen, hout⟩ := hdrain
    have hi : (UInt32.ofNat out.length).toNat = out.length :=
      UInt32.toNat_ofNat_of_lt (hlen.trans_lt toCopy.toNat_lt)
    dsimp only
    split_ifs with hmore <;> rw [UInt32.lt_iff_toNat_lt, hi] at hmore
    · refine { h with draining := ⟨rfl, hle, by simpa using hmore, ?_⟩ }
      have hnext := concat_get_prefix hout (hmore.trans_le hle)
      simpa [Channel.contents, waiting] using hnext
    have hall : out.length = toCopy.toNat := hlen.antisymm (not_lt.mp hmore)
    rw [length_contents] at hle
    have hrest : (waiting c.head (c.tail + toCopy)).map c.ring = c.contents.drop out.length := by
      rw [waiting_add hle, map_drop, hall, Channel.contents]
    refine ⟨?_, h.posting.anti ?_, trivial, h.counted⟩
    · rw [Channel.contents, hrest, append_assoc, ← prefix_append_drop hout, h.fifo]
    · rw [Channel.contents, hrest, length_drop]
      exact Nat.sub_le ..

lemma step_sound (h : Sound c) (op : Op Msg) : Sound (step c op) := by
  cases op with
  | userdrvIsrPost msg =>
    simp only [step]
    split_ifs
    · exact { h with posting := trivial }
    · exact h
  | userdrvIrqDrain max =>
    simp only [step]
    split_ifs
    · exact { h with draining := trivial }
    · exact h
  | postStep => exact postStep_sound h
  | drainStep => exact drainStep_sound h
  | destroy => exact { h with }

end GrahaOS.IrqRing
