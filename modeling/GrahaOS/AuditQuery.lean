import GrahaOS.Token

/-!
# Queries of the audit ring

`SYS_AUDIT_QUERY` fetches at most 64 entries at a time and goes on from the timestamp after that of
the last one. The entries selected from there need not be those that follow it in the ring.
-/

namespace GrahaOS.AuditQuery

open Token List

/-- What a query reads of an `audit_entry_t`. -/
structure Entry where
  magic : UInt32
  nsTimestamp : UInt64
  eventType : UInt16
deriving DecidableEq, Inhabited

/-- `audit_queue_t`. -/
structure Queue where
  entries : ℕ → Entry
  totalWritten : ℕ

def auditQueueSize : ℕ := 1024

def auditEntryMagic : UInt32 := 0x31445541

/-- The entries in the ring, oldest first. -/
def Queue.resident (q : Queue) : List Entry :=
  let start := q.totalWritten - auditQueueSize
  (range' start (q.totalWritten - start)).map fun i => q.entries (i % auditQueueSize)

/-- The tests of `audit_query`. -/
def selects (sinceNs untilNs : UInt64) (eventMask : UInt32) (e : Entry) : Bool :=
  e.magic = auditEntryMagic ∧ sinceNs ≤ e.nsTimestamp ∧ (untilNs = 0 ∨ e.nsTimestamp < untilNs) ∧
    (eventMask = 0 ∨ e.eventType ≤ 31 ∧ eventMask &&& 1 <<< e.eventType.toUInt32 ≠ 0)

/-- The loop of `audit_query`. -/
def queryLoop {α : Type*} (p : α → Bool) : List α → ℕ → List α
  | [], _ | _, 0 => []
  | e :: es, max + 1 => if p e then e :: queryLoop p es max else queryLoop p es (max + 1)

variable (q : Queue) (untilNs : UInt64) (eventMask : UInt32)

def auditQuery (sinceNs : UInt64) (max : ℕ) : List Entry :=
  queryLoop (selects sinceNs untilNs eventMask) q.resident max

/-- Where the call goes on after a chunk. -/
def resume (kbuf : List Entry) : UInt64 := (kbuf.getLastD default).nsTimestamp + 1

/-- The loop of the call, with room for so many entries; `chunk` is 64 unless there is less room. -/
def queryChunks (query : UInt64 → ℕ → List Entry) (room : ℕ) (curSince : UInt64) : List Entry :=
  let want := min room 64
  let kbuf := query curSince want
  if kbuf.length < want ∨ room ≤ want then kbuf
  else kbuf ++ queryChunks query (room - want) (resume kbuf)
termination_by room

/-- `SYS_AUDIT_QUERY`; the flags tell whether the buffers of the caller and the kernel are there. -/
def sysAuditQuery (userBuf kbuf : Bool) (sinceNs : UInt64) (max : ℕ) :
    Except CapError (List Entry) :=
  if max = 0 ∨ 1024 < max ∨ untilNs ≠ 0 ∧ untilNs < sinceNs then .error .einval
  else if !userBuf then .error .efault
  else if !kbuf then .error .enomem
  else .ok (queryChunks (auditQuery q untilNs eventMask) max sinceNs)

/-- The entries in the ring that a query selects. -/
def selected (sinceNs : UInt64) : List Entry :=
  q.resident.filter (selects sinceNs untilNs eventMask)

lemma queryLoop_eq {α : Type*} (p : α → Bool) (es : List α) (max : ℕ) :
    queryLoop p es max = (es.filter p).take max := by
  induction es generalizing max with
  | nil => simp [queryLoop]
  | cons e es ih =>
    cases max with
    | zero => simp [queryLoop]
    | succ max => by_cases h : p e <;> simp [queryLoop, h, ih]

lemma eq_take_iff {l l' : List Entry} {n : ℕ} (h : l.length < n) : l = l'.take n ↔ l = l' := by
  constructor
  · rintro rfl
    exact take_of_length_le (by simp at h; omega)
  · rintro rfl
    exact (take_of_length_le h.le).symm

variable (M : UInt64 → List Entry)

/-- Every full chunk of a list is followed by the entries after it, as far as there is room. -/
def Resumes (room : ℕ) (l : List Entry) : Prop :=
  64 < room → 64 ≤ l.length →
    (M (resume (l.take 64))).take (min (room - 64) 64) = (l.drop 64).take (min (room - 64) 64) ∧
      Resumes (room - 64) (l.drop 64)
termination_by room

lemma queryChunks_eq_iff (room : ℕ) (since : UInt64) (l : List Entry) :
    queryChunks (fun s n => (M s).take n) room since = l.take room ↔
      (M since).take (min room 64) = l.take (min room 64) ∧ Resumes M room l := by
  induction room using Nat.strong_induction_on generalizing since l with
  | _ room ih =>
  rw [queryChunks, Resumes]
  rcases Nat.lt_or_ge (M since).length (min room 64) with hshort | hfull
  · -- a short chunk is the last one
    have hall : (M since).take (min room 64) = M since := take_of_length_le hshort.le
    rw [hall, if_pos (.inl hshort), eq_take_iff hshort, eq_take_iff (by omega)]
    refine ⟨fun h => ⟨h, fun _ hl => ?_⟩, And.left⟩
    rw [← h] at hl
    omega
  by_cases hroom : room ≤ 64
  · rw [if_pos (.inr (by omega)), min_eq_left hroom]
    exact ⟨fun h => ⟨h, fun hlt => by omega⟩, And.left⟩
  have hlen : ((M since).take 64).length = 64 := by
    rw [length_take]
    omega
  have hsplit : l.take room = l.take 64 ++ (l.drop 64).take (room - 64) := by
    rw [← take_add, Nat.add_sub_cancel' (by omega)]
  rw [min_eq_right (by omega), if_neg (by omega), hsplit]
  constructor
  · intro h
    have hl : 64 ≤ l.length := by
      have hlength := congrArg length h
      simp only [length_append, length_take, length_drop] at hlength
      omega
    obtain ⟨hfirst, hlater⟩ := append_inj h (by rw [hlen, length_take]; omega)
    rw [hfirst] at hlater
    exact ⟨hfirst, fun _ _ => (ih _ (by omega) _ _).mp hlater⟩
  · rintro ⟨hfirst, hnext⟩
    have hl : 64 ≤ l.length := by
      rw [hfirst, length_take] at hlen
      omega
    rw [hfirst, (ih _ (by omega) _ _).mpr (hnext (by omega) hl)]

/-- A ring of 65 entries of one moment. -/
def sameMoment : Queue := ⟨fun _ => ⟨auditEntryMagic, 5, 1⟩, 65⟩

end GrahaOS.AuditQuery
