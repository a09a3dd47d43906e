import GrahaOS.Runs

/-!
# The ARP table of the network daemon

`user/netd_arp.c` keeps the hardware addresses of up to 64 neighbours. A new entry takes the slot of
its address, the first free slot, or the next one in turn. `netd_arp_gc` frees resolved entries that
have expired, and leaves pending ones alone. Packets are what `netd_arp_parse` makes of them. The
frames that are sent are left out.
-/

namespace GrahaOS.ArpCache

open Runs Function

abbrev Mac := BitVec 48

abbrev arpTableSlots : ℕ := 64

inductive ArpState where
  | free
  | resolved
  | pending
  deriving DecidableEq

structure ArpEntry where
  ip : UInt32 := 0
  mac : Mac := 0
  state : ArpState := .free
  expiryTsc : UInt64 := 0

structure ArpTable where
  entries : Fin arpTableSlots → ArpEntry := fun _ => {}
  nextSlot : ℕ := 0

variable (tbl : ArpTable)

/-- The first slot whose entry meets the condition. -/
def ArpTable.first (p : ArpEntry → Bool) : Option (Fin arpTableSlots) :=
  (List.finRange arpTableSlots).find? fun i => p (tbl.entries i)

def netdArpLookup (ip : UInt32) : Option Mac :=
  (tbl.first fun e => e.state = .resolved ∧ e.ip = ip).map fun i => (tbl.entries i).mac

/-- The slot for an address, and the table with its cursor moved if all slots are taken. -/
def netdArpChooseSlot (ip : UInt32) : Fin arpTableSlots × ArpTable :=
  match tbl.first fun e => e.state ≠ .free ∧ e.ip = ip with
  | some i => (i, tbl)
  | none =>
    match tbl.first fun e => e.state = .free with
    | some i => (i, tbl)
    | none =>
      let slot := ⟨tbl.nextSlot % arpTableSlots, Nat.mod_lt _ (by decide)⟩
      (slot, { tbl with nextSlot := (slot.val + 1) % arpTableSlots })

def netdArpInsert (ip : UInt32) (mac : Mac) (state : ArpState)
    (nowTsc ttlTsc : UInt64) : ArpTable :=
  if state = .free then tbl else
  let (slot, tbl) := netdArpChooseSlot tbl ip
  { tbl with entries := Function.update tbl.entries slot ⟨ip, mac, state, nowTsc + ttlTsc⟩ }

def netdArpGc (nowTsc : UInt64) : ArpTable :=
  { tbl with entries := fun i =>
      let e := tbl.entries i
      if e.state = .resolved ∧ e.expiryTsc ≤ nowTsc then {} else e }

structure ArpPacket where
  senderIp : UInt32
  senderMac : Mac

/-- A packet that does not parse is dropped. -/
def netdArpHandleIncoming (pkt : Option ArpPacket) (nowTsc ttlTsc : UInt64) : ArpTable :=
  pkt.elim tbl fun p => netdArpInsert tbl p.senderIp p.senderMac .resolved nowTsc ttlTsc

def netdArpResolve (targetIp : UInt32) (nowTsc pendingTtlTsc : UInt64) : Option Mac × ArpTable :=
  match netdArpLookup tbl targetIp with
  | some mac => (some mac, tbl)
  | none =>
    if (tbl.first fun e => e.state = .pending ∧ e.ip = targetIp ∧ nowTsc < e.expiryTsc).isSome then
      (none, tbl)
    else (none, netdArpInsert tbl targetIp 0 .pending nowTsc pendingTtlTsc)

inductive ArpOp where
  | packet (pkt : Option ArpPacket) (nowTsc ttlTsc : UInt64)
  | resolve (ip : UInt32) (nowTsc ttlTsc : UInt64)
  | gc (nowTsc : UInt64)

/-- The table, and the hardware address in the latest packet from each address. -/
structure Heard where
  table : ArpTable := {}
  latest : UInt32 → Option Mac := fun _ => none

def step (s : Heard) : ArpOp → Heard
  | .packet pkt nowTsc ttlTsc =>
    ⟨netdArpHandleIncoming s.table pkt nowTsc ttlTsc,
      pkt.elim s.latest fun p => Function.update s.latest p.senderIp (some p.senderMac)⟩
  | .resolve ip nowTsc ttlTsc => { s with table := (netdArpResolve s.table ip nowTsc ttlTsc).2 }
  | .gc nowTsc => { s with table := netdArpGc s.table nowTsc }

variable {tbl : ArpTable} {s : Heard} {ip : UInt32} {mac : Mac} {state : ArpState}
  {nowTsc ttlTsc : UInt64} {i : Fin arpTableSlots}

def ArpTable.Taken (tbl : ArpTable) (i : Fin arpTableSlots) : Prop := (tbl.entries i).state ≠ .free

/-- No address has two slots. -/
def Distinct (tbl : ArpTable) : Prop :=
  ∀ i j, tbl.Taken i → tbl.Taken j → (tbl.entries i).ip = (tbl.entries j).ip → i = j

/-- The addresses in taken slots keep their slots, or there is no free slot. -/
def Keeps (tbl tbl' : ArpTable) : Prop :=
  ∀ i, tbl.Taken i → tbl'.Taken i ∧ (tbl'.entries i).ip = (tbl.entries i).ip ∨ ∀ j, tbl.Taken j

/-- Lookups return what was heard last. -/
def Truthful (s : Heard) : Prop :=
  ∀ ip mac, netdArpLookup s.table ip = some mac → s.latest ip = some mac

/-- After every operation no address has two slots, and lookups are truthful. A collection leaves
nothing that has expired; the others displace no address while a slot is free. -/
def Lawful (s : Heard) (op : ArpOp) : Prop :=
  (Distinct (step s op).table ∧ Truthful (step s op)) ∧
  match op with
  | .gc nowTsc => ∀ i, (netdArpGc s.table nowTsc).Taken i →
      nowTsc < ((netdArpGc s.table nowTsc).entries i).expiryTsc
  | .packet pkt nowTsc ttlTsc => Keeps s.table (netdArpHandleIncoming s.table pkt nowTsc ttlTsc)
  | .resolve ip nowTsc ttlTsc => Keeps s.table (netdArpResolve s.table ip nowTsc ttlTsc).2

/-- No request that is out has expired when a collection begins. -/
def Prompt (s : Heard) : ArpOp → Prop
  | .gc nowTsc => ∀ i, (s.table.entries i).state = .pending → nowTsc < (s.table.entries i).expiryTsc
  | _ => True

structure Current (s : Heard) : Prop where
  distinct : Distinct s.table
  latest : ∀ i, (s.table.entries i).state = .resolved →
    s.latest (s.table.entries i).ip = some (s.table.entries i).mac

lemma of_first {p : ArpEntry → Bool} (h : tbl.first p = some i) : p (tbl.entries i) = true :=
  List.find?_some (p := fun i => p (tbl.entries i)) h

lemma of_first_eq_none {p : ArpEntry → Bool} (h : tbl.first p = none) (i : Fin arpTableSlots) :
    p (tbl.entries i) = false := by
  simpa using List.find?_eq_none.mp h i (List.mem_finRange i)

/-- An insertion stores one entry. It takes the slot of the address if there is one, and a free slot
if there is none. -/
lemma insert_spec (hd : Distinct tbl) (hstate : state ≠ .free) (ip : UInt32) (mac : Mac)
    (nowTsc ttlTsc : UInt64) :
    ∃ slot, (netdArpInsert tbl ip mac state nowTsc ttlTsc).entries =
        update tbl.entries slot ⟨ip, mac, state, nowTsc + ttlTsc⟩ ∧
      (∀ i ≠ slot, tbl.Taken i → (tbl.entries i).ip ≠ ip) ∧
      (tbl.Taken slot → (tbl.entries slot).ip = ip ∨ ∀ j, tbl.Taken j) := by
  simp only [netdArpInsert, if_neg hstate, netdArpChooseSlot]
  split
  · rename_i slot hfirst
    have hslot := of_decide_eq_true (of_first hfirst)
    exact ⟨slot, rfl, fun i hne hi hip => hne (hd i slot hi hslot.1 (hip.trans hslot.2.symm)),
      fun _ => .inl hslot.2⟩
  · rename_i hnone
    have hother : ∀ i, tbl.Taken i → (tbl.entries i).ip ≠ ip := fun i hi hip =>
      of_decide_eq_false (of_first_eq_none hnone i) ⟨hi, hip⟩
    split
    · rename_i slot hfirst
      have hslot := of_decide_eq_true (of_first hfirst)
      exact ⟨slot, rfl, fun i _ => hother i, fun htaken => absurd hslot htaken⟩
    · rename_i hfull
      exact ⟨_, rfl, fun i _ => hother i,
        fun _ => .inr fun j => of_decide_eq_false (of_first_eq_none hfull j)⟩

lemma insert_keeps (hd : Distinct tbl) (state : ArpState) (hstate : state ≠ .free) :
    Keeps tbl (netdArpInsert tbl ip mac state nowTsc ttlTsc) := by
  obtain ⟨slot, hentries, -, hslot⟩ := insert_spec hd hstate ip mac nowTsc ttlTsc
  intro i hi
  rw [ArpTable.Taken, hentries]
  by_cases his : i = slot
  · subst his
    rw [update_self]
    exact (hslot hi).imp_left fun hip => ⟨hstate, hip.symm⟩
  · rw [update_of_ne his]
    exact .inl ⟨hi, rfl⟩

/-- An insertion of a pending entry, or of what has just been heard. -/
lemma Current.insert {latest : UInt32 → Option Mac} (h : Current s) (state : ArpState)
    (hstate : state ≠ .free) (hip : state = .resolved → latest ip = some mac)
    (hother : ∀ a ≠ ip, latest a = s.latest a) :
    Current ⟨netdArpInsert s.table ip mac state nowTsc ttlTsc, latest⟩ := by
  obtain ⟨slot, hentries, hne, -⟩ := insert_spec h.distinct hstate ip mac nowTsc ttlTsc
  refine ⟨fun i j => ?_, fun i => ?_⟩
  · simp only [ArpTable.Taken, hentries]
    by_cases hi : i = slot <;> by_cases hj : j = slot
    · exact fun _ _ _ => hi.trans hj.symm
    · simp only [hi, update_self, update_of_ne hj]
      exact fun _ htaken heq => absurd heq.symm (hne j hj htaken)
    · simp only [hj, update_self, update_of_ne hi]
      exact fun htaken _ heq => absurd heq (hne i hi htaken)
    · simp only [update_of_ne hi, update_of_ne hj]
      exact h.distinct i j
  · simp only [hentries]
    by_cases hi : i = slot
    · simpa [hi] using hip
    simp only [update_of_ne hi]
    intro hres
    rw [hother _ (hne i hi (by simp [ArpTable.Taken, hres]))]
    exact h.latest i hres

lemma step_current (h : Current s) (op : ArpOp) : Current (step s op) := by
  cases op with
  | packet pkt nowTsc ttlTsc =>
    cases pkt with
    | none => exact h
    | some p =>
      rw [step, netdArpHandleIncoming, Option.elim_some, Option.elim_some]
      exact h.insert .resolved nofun (fun _ => update_self ..) fun a ha => update_of_ne ha ..
  | resolve ip nowTsc ttlTsc =>
    simp only [step, netdArpResolve]
    split
    · exact h
    · split_ifs
      · exact h
      · exact h.insert .pending nofun nofun fun _ _ => rfl
  | gc nowTsc =>
    have hkept : ∀ i, (netdArpGc s.table nowTsc).Taken i →
        s.table.Taken i ∧ (netdArpGc s.table nowTsc).entries i = s.table.entries i := by
      intro i hi
      simp only [ArpTable.Taken, netdArpGc] at hi ⊢
      split_ifs at hi ⊢
      · exact absurd rfl hi
      · exact ⟨hi, rfl⟩
    refine ⟨fun i j hi hj heq => ?_, fun i hi => ?_⟩
    · obtain ⟨hi, hsame⟩ := hkept i hi
      obtain ⟨hj, hsame'⟩ := hkept j hj
      exact h.distinct i j hi hj (by rwa [step, hsame, hsame'] at heq)
    · obtain ⟨-, hsame⟩ := hkept i (ne_of_eq_of_ne hi nofun)
      rw [step, hsame] at hi ⊢
      exact h.latest i hi

lemma Current.truthful (h : Current s) : Truthful s := by
  intro ip mac hfound
  obtain ⟨i, hfirst, rfl⟩ := Option.map_eq_some_iff.mp hfound
  have hi := of_decide_eq_true (of_first hfirst)
  rw [← hi.2]
  exact h.latest i hi.1

lemma lawful_iff (h : Current s) (op : ArpOp) : Lawful s op ↔ Prompt s op := by
  have hnext := step_current h op
  have hrefl : Keeps s.table s.table := fun i hi => .inl ⟨hi, rfl⟩
  refine (and_iff_right ⟨hnext.distinct, hnext.truthful⟩).trans ?_
  cases op with
  | packet pkt nowTsc ttlTsc =>
    refine iff_of_true ?_ trivial
    cases pkt with
    | none => exact hrefl
    | some p => exact insert_keeps h.distinct .resolved nofun
  | resolve ip nowTsc ttlTsc =>
    refine iff_of_true ?_ trivial
    simp only [netdArpResolve]
    split
    · exact hrefl
    · split_ifs
      · exact hrefl
      · exact insert_keeps h.distinct .pending nofun
  | gc nowTsc =>
    refine forall_congr' fun i => ?_
    simp only [ArpTable.Taken, netdArpGc]
    by_cases hexp : nowTsc < (s.table.entries i).expiryTsc
    · cases hst : (s.table.entries i).state <;> simp [hst, hexp, UInt64.not_le.mpr hexp]
    · cases hst : (s.table.entries i).state <;> simp [hst, hexp, UInt64.not_lt.mp hexp]

/-- The table is as it should be after every operation exactly if no collection finds a request
that has expired: such an entry stays. -/
theorem table_is_lawful_iff (ops : List ArpOp) :
    Guarded step Lawful {} ops ↔ Guarded step Prompt {} ops := by
  have hstart : Current {} := ⟨fun i _ hi => absurd rfl hi, nofun⟩
  constructor
  · exact guarded_of_invariant Current (fun _ op h _ => step_current h op)
      (fun _ op h => (lawful_iff h op).mp) hstart
  · exact guarded_of_invariant Current (fun _ op h _ => step_current h op)
      (fun _ op h => (lawful_iff h op).mpr) hstart

/-- A request that has expired at time 10 is still in its slot after the collection at time 20. -/
theorem expired_request_stays :
    let s := run step {} [.resolve 5 0 10, .gc 20]
    (s.table.entries 0).state = .pending ∧ (s.table.entries 0).expiryTsc = 10 ∧
      ¬ Guarded step Lawful {} [.resolve 5 0 10, .gc 20] := by
  refine ⟨by decide, by decide, ?_⟩
  rintro ⟨-, ⟨-, hgc⟩, -⟩
  exact absurd (hgc 0 (by rw [ArpTable.Taken]; decide)) (by decide)

end GrahaOS.ArpCache
