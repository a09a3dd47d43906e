import GrahaOS.AuditQuery

/-!
# The ring of the kernel log

A write overwrites the oldest entry of a full ring, and the index of an entry is the number of the
writes before it. So the last writes are in the slots of their indices, and a read finds them there.
-/

namespace GrahaOS.LogRing

open Function List AuditQuery

variable {α : Type*}

def klogMsgLen : ℕ := 224

def klogRingEntries : ℕ := 16384

def klogLevelMask : UInt8 := 0x0F

def klogGuardBit : UInt8 := 0x80

/-- `klog_entry_t`, with its message up to the terminator. The ring only carries the timestamp, the
CPU, the task and the subsystem of an entry. -/
structure Entry (α : Type*) where
  level : UInt8
  seq : ℕ
  origin : α
  message : List UInt8

/-- The arguments of a write. -/
structure Write (α : Type*) where
  level : UInt8
  origin : α
  msg : List UInt8

/-- What a write leaves in its slot, the guard bit cleared again. -/
def Write.entry (w : Write α) (seq : ℕ) : Entry α :=
  ⟨w.level &&& klogLevelMask, seq, w.origin, w.msg.take (klogMsgLen - 1)⟩

/-- The counters have 64 bits and, as the source says of them, never wrap; they are numbers here. -/
structure Ring (α : Type*) where
  head : ℕ
  nextSeq : ℕ
  entries : ℕ → Entry α

def klogWriteFormatted (r : Ring α) (w : Write α) : Ring α where
  head := r.head + 1
  nextSeq := r.nextSeq + 1
  entries := update r.entries (r.head % klogRingEntries) (w.entry r.nextSeq)

def included (levelMask : UInt8) (e : Entry α) : Bool :=
  e.level &&& klogGuardBit = 0 ∧
    (levelMask = 0 ∨ levelMask.toNat.testBit (e.level &&& klogLevelMask).toNat)

def klogReadFiltered (r : Ring α) (levelMask : UInt8) (tailCount dstMax : ℕ) : List (Entry α) :=
  let available := min r.head klogRingEntries
  let walk := if tailCount = 0 ∨ available < tailCount then available else tailCount
  queryLoop (included levelMask)
    ((range' (r.head - walk) walk).map fun i => r.entries (i % klogRingEntries)) dstMax

/-- The entries of all writes, oldest first. -/
def history (seq : ℕ) (ws : List (Write α)) : List (Entry α) :=
  ws.mapIdx fun i w => w.entry (seq + i)

/-- The ring after some writes. -/
def written (seq : ℕ) (slots : ℕ → Entry α) (ws : List (Write α)) : Ring α :=
  ws.foldl klogWriteFormatted ⟨0, seq, slots⟩

variable (seq : ℕ) (slots : ℕ → Entry α) (ws : List (Write α))

lemma written_counts : (written seq slots ws).head = ws.length ∧
    (written seq slots ws).nextSeq = seq + ws.length := by
  induction ws using reverseRecOn with
  | nil => exact ⟨rfl, rfl⟩
  | append_singleton ws w ih =>
    simp only [written, foldl_append, foldl_cons, foldl_nil, klogWriteFormatted] at ih ⊢
    simp [ih, Nat.add_assoc]

/-- The last entries are in the slots of their indices. -/
lemma entries_written {i : ℕ} (hi : i < ws.length) (hlast : ws.length ≤ i + klogRingEntries) :
    (history seq ws)[i]? = some ((written seq slots ws).entries (i % klogRingEntries)) := by
  induction ws using reverseRecOn with
  | nil => cases hi
  | append_singleton ws w ih =>
    obtain ⟨hhead, hseq⟩ := written_counts seq slots ws
    rw [length_append, length_singleton] at hi hlast
    have hstep : written seq slots (ws ++ [w]) = klogWriteFormatted (written seq slots ws) w := by
      simp [written]
    simp only [history, mapIdx_append, hstep, klogWriteFormatted, hhead, hseq]
    rcases Nat.lt_succ_iff_lt_or_eq.mp hi with hold | rfl
    · have hslot : i % klogRingEntries ≠ ws.length % klogRingEntries := by
        simp only [klogRingEntries] at hlast ⊢
        omega
      rw [getElem?_append_left (by simpa using hold), update_of_ne hslot]
      exact ih hold (by omega)
    · simp [update_self]

/-- How many of the last entries a read looks at. -/
def reach (tailCount : ℕ) : ℕ :=
  if tailCount = 0 then min klogRingEntries ws.length
  else min tailCount (min klogRingEntries ws.length)

end GrahaOS.LogRing
