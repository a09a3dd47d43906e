import GrahaOS.ArraySearch
import GrahaOS.HandlePassing
import GrahaOS.Transactions
import Mathlib.Data.List.GetD

/-!
# Which sends leave the scope of a transaction

`txn_begin` copies the pids of the tasks that its snapshot covers into an array and sorts it;
`txn_is_external_peer` looks for the peer in the array by binary search. The answer depends on the
list of tasks only through its members, so that the transactions may keep the list itself.
-/

namespace GrahaOS.TxnScopes

open ArraySearch CapRegistry HandlePassing Transactions

def txnMaxScopeTasks : ℕ := 256

def txnE2big : ℤ := -7

/-- `scope_pids` and `scope_pid_count` of `transaction_t`. -/
structure Scope where
  scopePids : ℕ → ℤ
  scopePidCount : ℕ

/-- `populate_scope_pids`; `tasks` are the pids in the snapshot. -/
def populateScopePids (tasks : List ℤ) : Except ℤ Scope :=
  if txnMaxScopeTasks < tasks.length then .error txnE2big
  else .ok ⟨sortInplace (tasks.getD · 0) tasks.length, tasks.length⟩

/-- The pid that an endpoint object names as its holder, -1 without an endpoint. -/
def endpointHolder (reg : Registry) (endpoints : ℕ → Option ChanEndpoint) (capIdx : ℕ) : ℤ :=
  match capObjectGet reg capIdx with
  | none => -1
  | some obj =>
    if obj.kind = .channel ∧ obj.kindData ≠ 0 then
      (endpoints obj.kindData).elim (-1) ChanEndpoint.currentHolderPid
    else -1

/-- The search at the end of `txn_is_external_peer`. -/
def outOfScope (scope : Scope) (peerPid : ℤ) : Bool :=
  if scope.scopePidCount = 0 then true
  else !binarySearch scope.scopePids peerPid 0 (scope.scopePidCount - 1)

/-- What the code decides once the holder of the opposite endpoint is known. -/
def externalPid (scope : Scope) (senderId peerPid : ℤ) : Bool :=
  if peerPid < 0 then true
  else if peerPid = senderId then false
  else outOfScope scope peerPid

/-- `txn_is_external_peer`, from the two endpoint objects of the channel. -/
def isExternalPeer (reg : Registry) (endpoints : ℕ → Option ChanEndpoint)
    (readCapIdx writeCapIdx : ℕ) (scope : Scope) (senderId : ℤ) : Bool :=
  let rdHolder := endpointHolder reg endpoints readCapIdx
  let wrHolder := endpointHolder reg endpoints writeCapIdx
  if rdHolder = senderId then externalPid scope senderId wrHolder
  else if wrHolder = senderId then externalPid scope senderId rdHolder
  else true

section Begun

variable {tasks : List ℤ} {scope : Scope} (hscope : populateScopePids tasks = .ok scope)

include hscope

lemma outOfScope_eq (peerPid : ℤ) : outOfScope scope peerPid = !tasks.contains peerPid := by
  unfold populateScopePids at hscope
  split_ifs at hscope
  cases hscope
  unfold outOfScope
  cases tasks with
  | nil => rfl
  | cons pid rest =>
    have hmem : (∃ k < (pid :: rest).length, (pid :: rest).getD k 0 = peerPid) ↔
        peerPid ∈ pid :: rest := by
      rw [List.mem_iff_getElem]
      exact exists_congr fun k => ⟨fun ⟨hk, h⟩ => ⟨hk, (List.getD_eq_getElem _ _ hk).symm.trans h⟩,
        fun ⟨hk, h⟩ => ⟨hk, (List.getD_eq_getElem _ _ hk).trans h⟩⟩
    rw [if_neg (by simp), Bool.eq_iff_iff, Bool.not_eq_true', Bool.not_eq_true',
      ← Bool.not_eq_true, ← Bool.not_eq_true, binarySearch_sortInplace, hmem, List.contains_iff_mem]

/-- The code answers as `txnIsExternalPeer` does for a transaction that keeps the list. -/
lemma isExternalPeer_eq {t : Txn} (ht : t.scopePids = tasks) (reg : Registry)
    (endpoints : ℕ → Option ChanEndpoint) (readCapIdx writeCapIdx : ℕ) (senderId : ℤ) :
    isExternalPeer reg endpoints readCapIdx writeCapIdx scope senderId =
      txnIsExternalPeer (endpointHolder reg endpoints readCapIdx,
        endpointHolder reg endpoints writeCapIdx) t senderId := by
  simp only [isExternalPeer, externalPid, txnIsExternalPeer, outOfScope_eq hscope, ht]

end Begun

/-- The holder of the endpoint opposite to the sender's, if the sender holds one. -/
def opposite (rdHolder wrHolder senderId : ℤ) : Option ℤ :=
  if rdHolder = senderId then some wrHolder
  else if wrHolder = senderId then some rdHolder
  else none

/-- A send is external exactly if the sender holds neither endpoint, nobody holds the opposite
one, or it is held by another task that is not in the list of the scope. -/
theorem external_iff_not_in_scope {tasks : List ℤ} {scope : Scope}
    (hscope : populateScopePids tasks = .ok scope) (reg : Registry)
    (endpoints : ℕ → Option ChanEndpoint) (readCapIdx writeCapIdx : ℕ) (senderId : ℤ) :
    isExternalPeer reg endpoints readCapIdx writeCapIdx scope senderId = true ↔
      ∀ peer, opposite (endpointHolder reg endpoints readCapIdx)
          (endpointHolder reg endpoints writeCapIdx) senderId = some peer →
        peer < 0 ∨ peer ≠ senderId ∧ peer ∉ tasks := by
  have hpid : ∀ peer, externalPid scope senderId peer = true ↔
      peer < 0 ∨ peer ≠ senderId ∧ peer ∉ tasks := by
    intro peer
    rw [externalPid, outOfScope_eq hscope]
    split_ifs with hneg hself
    · exact iff_of_true rfl (Or.inl hneg)
    · exact iff_of_false id fun h => h.elim hneg (·.1 hself)
    · simp [hneg, hself]
  simp only [isExternalPeer, opposite]
  split_ifs
  · simp only [Option.some.injEq, forall_eq', hpid]
  · simp only [Option.some.injEq, forall_eq', hpid]
  · exact iff_of_true rfl fun _ h => nomatch h

/-- The endpoint objects 1 and 2 of a channel. -/
def bothEnds : Registry where
  ptrs := fun i =>
    if i = 1 ∨ i = 2 then some { sentinel with kind := .channel, kindData := i } else none
  count := 3

def heldBy (rdPid wrPid : ℤ) (ep : ℕ) : Option ChanEndpoint :=
  if ep = 1 then some ⟨1, .read, rdPid⟩ else if ep = 2 then some ⟨1, .write, wrPid⟩ else none

/-- The scope 9, 4, 9, 7 is sorted, and a send to pid 5 is external. -/
theorem send_to_five_is_external :
    isExternalPeer bothEnds (heldBy 5 7) 1 2 ⟨sortInplace ([9, 4, 9, 7].getD · 0) 4, 4⟩ 7 = true :=
  (external_iff_not_in_scope (show populateScopePids [9, 4, 9, 7] = .ok _ from rfl) bothEnds
    (heldBy 5 7) 1 2 7).mpr fun peer hpeer => by
      obtain rfl : (5 : ℤ) = peer := Option.some.inj hpeer
      exact Or.inr ⟨by decide, by decide⟩

/-- A task that holds both endpoints is in scope without being in the list. -/
theorem own_channel_is_in_scope :
    opposite (endpointHolder bothEnds (heldBy 7 7) 1) (endpointHolder bothEnds (heldBy 7 7) 2) 7 =
        some 7 ∧
      (7 : ℤ) ∉ [9, 4] ∧
      (populateScopePids [9, 4]).map (isExternalPeer bothEnds (heldBy 7 7) 1 2 · 7) =
        .ok false := by
  refine ⟨rfl, by decide, rfl⟩

end GrahaOS.TxnScopes
