import GrahaOS.References
import GrahaOS.Runs
import GrahaOS.Token

/-!
# Named channels

The registry of `kernel/net/rawnet.c`: `rawnet_publish` gives a name to the accept channel of a
daemon, `rawnet_connect` looks it up, and `rawnet_on_peer_death` takes the names of a process away.
What each of them does under the lock is one step; a connect gives its reference on the channel up in
a step of its own.
-/

namespace GrahaOS.NamedChannels

open Runs References Function Token Relation

def rawnetNameMax : ℕ := 64

def rawnetSlotsMax : ℕ := 64

def rawnetNameValidate (name : List UInt8) : Bool :=
  !name.isEmpty && name.length ≤ rawnetNameMax && name.head? == some 0x2F &&
    name.all fun c => 0x20 ≤ c && c ≤ 0x7E

/-- `rawnet_publish_entry_t`, of a slot in use. -/
structure Entry (α : Type*) where
  name : List UInt8
  publisherPid : ℤ
  connectionSeq : UInt32
  payloadTypeHash : UInt64
  acceptChannel : α
  acceptChanObjIdx : ℕ

/-- The table, the reference counts of the channels (modulo `2 ^ 32` in the code), and how many calls
of `rawnet_connect` have a reference on a channel. -/
structure Registry (α : Type*) where
  entries : ℕ → Option (Entry α)
  refcount : α → ℤ
  pins : α → ℕ

variable {α : Type*} (r : Registry α)

def findEntry (name : List UInt8) : Option (ℕ × Entry α) :=
  (List.range rawnetSlotsMax).findSome? fun i =>
    (r.entries i).bind fun e => if e.name = name then some (i, e) else none

def rawnetLookup (name : List UInt8) : Option (Entry α) := (findEntry r name).map Prod.snd

def findFreeSlot : Option ℕ := (List.range rawnetSlotsMax).find? fun i => (r.entries i).isNone

variable [DecidableEq α]

/-- The references of a slot on a channel. -/
def refsOf (x : Option (Entry α)) (c : α) : ℤ := if x.map Entry.acceptChannel = some c then 1 else 0

/-- A slot changes, and with it the references on the channel it named and on the one it names. -/
def put (i : ℕ) (x : Option (Entry α)) : Registry α := { r with
  entries := update r.entries i x
  refcount := fun c => r.refcount c - refsOf (r.entries i) c + refsOf x c }

/-- The arguments of `rawnet_publish`, whether the type is known, what `chan_resolve_endpoint`
gives, and which processes are gone or zombies. -/
structure Publish (α : Type*) where
  pid : ℤ
  name : List UInt8
  typeHash : UInt64
  typeKnown : Bool
  endpoint : Except CapError (α × ℕ)
  dead : ℤ → Bool

def rawnetPublish (p : Publish α) : Except CapError Unit × Registry α :=
  if rawnetNameValidate p.name = false then (.error .einval, r)
  else if p.typeKnown = false then (.error .eprototype, r)
  else if p.pid ≤ 0 then (.error .eperm, r)
  else match p.endpoint with
  | .error e => (.error e, r)
  | .ok (chan, objIdx) =>
    match findEntry r p.name with
    | some (i, old) =>
      if old.publisherPid ≠ p.pid ∧ p.dead old.publisherPid = false then (.error .eperm, r)
      else (.ok (), put r i (some ⟨old.name, p.pid, old.connectionSeq, p.typeHash, chan, objIdx⟩))
    | none =>
      match findFreeSlot r with
      | none => (.error .enomem, r)
      | some i => (.ok (), put r i (some ⟨p.name, p.pid, 0, p.typeHash, chan, objIdx⟩))

/-- A `rawnet_connect` takes a reference. -/
def pin (c : α) : Registry α := { r with
  refcount := update r.refcount c (r.refcount c + 1)
  pins := update r.pins c (r.pins c + 1) }

/-- `rawnet_connect` under the lock: the accept channel, and the number of the connection. -/
def connectBegin (pid : ℤ) (name : List UInt8) : Except CapError (α × UInt32) × Registry α :=
  if rawnetNameValidate name = false then (.error .einval, r)
  else if pid ≤ 0 then (.error .eperm, r)
  else match findEntry r name with
  | none => (.error .ebadf, r)
  | some (i, e) =>
    (.ok (e.acceptChannel, e.connectionSeq + 1),
      pin (put r i (some { e with connectionSeq := e.connectionSeq + 1 })) e.acceptChannel)

/-- It gives the reference up, whatever it returns. -/
def connectEnd (c : α) : Registry α :=
  if r.pins c = 0 then r
  else { r with
    refcount := update r.refcount c (r.refcount c - 1)
    pins := update r.pins c (r.pins c - 1) }

def rawnetOnPeerDeath (pid : ℤ) : Registry α :=
  if pid ≤ 0 then r
  else forSlots Registry.entries (fun r i e => if e.publisherPid ≠ pid then r else put r i none)
    (List.range rawnetSlotsMax) r

inductive Op (α : Type*)
  | publish (p : Publish α)
  | connect (pid : ℤ) (name : List UInt8)
  | connected (c : α)
  | death (pid : ℤ)

def step (r : Registry α) : Op α → Registry α
  | .publish p => (rawnetPublish r p).2
  | .connect pid name => (connectBegin r pid name).2
  | .connected c => connectEnd r c
  | .death pid => rawnetOnPeerDeath r pid

/-- `rawnet_init`. -/
def init (refcount : α → ℤ) : Registry α := ⟨fun _ => none, refcount, fun _ => 0⟩

variable {r} {r' : Registry α} {base : α → ℤ} {i : ℕ} {e : Entry α} {name : List UInt8} {pid : ℤ}
  {op : Op α}

section Lookups

omit [DecidableEq α]

lemma findEntry_some (h : findEntry r name = some (i, e)) :
    i < rawnetSlotsMax ∧ r.entries i = some e ∧ e.name = name := by
  obtain ⟨j, hj, hfound⟩ := List.exists_of_findSome?_eq_some h
  obtain ⟨e', he', hname⟩ := Option.bind_eq_some_iff.mp hfound
  split_ifs at hname with heq
  cases hname
  exact ⟨List.mem_range.mp hj, he', heq⟩

lemma findEntry_none (h : findEntry r name = none) (hi : i < rawnetSlotsMax)
    (he : r.entries i = some e) : e.name ≠ name := by
  have hnone := List.findSome?_eq_none_iff.mp h i (List.mem_range.mpr hi)
  rw [he, Option.bind_some] at hnone
  split_ifs at hnone with heq
  exact heq

end Lookups

lemma entries_put {x : Option (Entry α)} (j : ℕ) :
    (put r i x).entries j = if j = i then x else r.entries j :=
  update_apply ..

/-- The process does not die, and no publication takes it for dead. -/
def Alive (pid : ℤ) : Op α → Prop
  | .publish p => p.dead pid = false
  | .death pid' => pid' ≠ pid
  | _ => True

/-- A slot may change so: it gets a name that is valid and in no other slot, and a slot in use keeps
its name and its publisher while that lives. -/
structure Allowed (op : Op α) (r : Registry α) (i : ℕ) (x : Option (Entry α)) : Prop where
  new : ∀ e, x = some e → (i < rawnetSlotsMax ∧ rawnetNameValidate e.name = true ∧
    0 < e.publisherPid) ∧ ∀ j e', r.entries j = some e' → e'.name = e.name → j = i
  old : ∀ e, r.entries i = some e → Alive e.publisherPid op →
    ∃ e', x = some e' ∧ e'.name = e.name ∧ e'.publisherPid = e.publisherPid

/-- What a step does to the registry, one slot or one reference at a time. -/
inductive Move (op : Op α) (r : Registry α) : Registry α → Prop
  | slot {i : ℕ} {x : Option (Entry α)} (h : Allowed op r i x) : Move op r (put r i x)
  | pin {r' : Registry α} (hentries : r'.entries = r.entries)
      (hpins : ∀ c, r'.refcount c - r'.pins c = r.refcount c - r.pins c) : Move op r r'

/-- Names are valid and in one slot, publishers are processes, and the count of a channel has one
reference for each slot that names it and for each `rawnet_connect` on its way. -/
structure Sound (base : α → ℤ) (r : Registry α) : Prop where
  named : ∀ i e, r.entries i = some e →
    i < rawnetSlotsMax ∧ rawnetNameValidate e.name = true ∧ 0 < e.publisherPid
  distinct : ∀ i j e e', r.entries i = some e → r.entries j = some e' → e.name = e'.name → i = j
  counted : ∀ c, r.refcount c =
    base c + refs (Option.map Entry.acceptChannel ∘ r.entries) c + r.pins c

lemma Sound.put {x : Option (Entry α)} (h : Sound base r) (hx : Allowed op r i x) :
    Sound base (put r i x) := by
  refine ⟨fun j e he => ?_, fun j k e e' he he' hname => ?_, fun c => ?_⟩
  · rw [entries_put] at he
    split_ifs at he with hj
    · exact hj ▸ (hx.new e he).1
    · exact h.named j e he
  · rw [entries_put] at he he'
    split_ifs at he he' with hj hk hk
    · rw [hj, hk]
    · exact hj.trans ((hx.new e he).2 k e' he' hname.symm).symm
    · exact ((hx.new e' he').2 j e he hname).trans hk.symm
    · exact h.distinct j k e e' he he' hname
  · have hfin : FinitelyMany (Option.map Entry.acceptChannel ∘ r.entries) := by
      refine (Set.finite_lt_nat rawnetSlotsMax).subset fun j hj => ?_
      obtain ⟨c, hc⟩ := Option.ne_none_iff_exists'.mp hj
      obtain ⟨e, he, -⟩ := Option.map_eq_some_iff.mp hc
      exact (h.named j e he).1
    have hrefs := refs_update hfin (i := i) (x.map Entry.acceptChannel) c
    have hcount := h.counted c
    simp only [NamedChannels.put, refsOf, comp_update, comp_apply] at hcount hrefs ⊢
    split_ifs at hrefs ⊢ <;> omega

lemma Sound.move (h : Sound base r) (hmove : Move op r r') : Sound base r' := by
  cases hmove with
  | slot hx => exact h.put hx
  | pin hentries hpins =>
    refine ⟨hentries ▸ h.named, hentries ▸ h.distinct, fun c => ?_⟩
    have hcount := h.counted c
    have hpin := hpins c
    rw [hentries]
    omega

/-- The count of a channel and its pins change alike. -/
lemma sub_update {f : α → ℤ} {g : α → ℕ} {c : α} {m : ℤ} {n : ℕ} (h : m - n = f c - g c) (c' : α) :
    update f c m c' - update g c n c' = f c' - g c' := by
  by_cases hc : c' = c
  · rw [hc, update_self, update_self, h]
  · rw [update_of_ne hc, update_of_ne hc]

section Moves

variable (h : Sound base r)
include h

lemma Sound.publish_moves (p : Publish α) :
    ReflTransGen (Move (.publish p)) r (rawnetPublish r p).2 := by
  rw [rawnetPublish]
  split_ifs with hname hknown hpid
  · exact .refl
  · exact .refl
  · exact .refl
  rw [Bool.not_eq_false] at hname
  rw [not_le] at hpid
  cases p.endpoint with
  | error e => exact .refl
  | ok target =>
  cases hfind : findEntry r p.name with
  | some found =>
    obtain ⟨i, old⟩ := found
    obtain ⟨hi, hold, hsame⟩ := findEntry_some hfind
    dsimp only
    split_ifs with hlive
    · exact .refl
    refine .single (.slot ⟨fun e he => ?_, fun e he halive => ⟨_, rfl, ?_⟩⟩)
    · cases he
      exact ⟨⟨hi, hsame ▸ hname, hpid⟩, fun j e' he' hn => h.distinct j i e' old he' hold hn⟩
    · cases Option.mem_unique hold he
      rw [not_and_or, not_not] at hlive
      exact ⟨rfl, (hlive.resolve_right fun hdead => hdead halive).symm⟩
  | none =>
    dsimp only
    cases hfree : findFreeSlot r with
    | none => exact .refl
    | some i =>
    have hi := List.mem_range.mp (List.mem_of_find?_eq_some hfree)
    have hnone : r.entries i = none := by simpa using List.find?_some hfree
    refine .single (.slot ⟨fun e he => ?_, fun e he => ?_⟩)
    · cases he
      refine ⟨⟨hi, hname, hpid⟩, fun j e' he' hn => ?_⟩
      exact absurd hn (findEntry_none hfind (h.named j e' he').1 he')
    · rw [hnone] at he
      cases he

lemma Sound.connect_moves (pid : ℤ) (name : List UInt8) :
    ReflTransGen (Move (.connect pid name)) r (connectBegin r pid name).2 := by
  rw [connectBegin]
  split_ifs
  · exact .refl
  · exact .refl
  cases hfind : findEntry r name with
  | none => exact .refl
  | some found =>
  obtain ⟨i, e⟩ := found
  obtain ⟨-, he, -⟩ := findEntry_some hfind
  refine .tail (.single (.slot ⟨fun e' he' => ?_, fun e' he' _ => ⟨_, rfl, ?_⟩⟩))
    (.pin rfl fun c => ?_)
  · cases he'
    have hnamed := h.named i e he
    exact ⟨hnamed, fun j e' he' hn => h.distinct j i e' e he' he hn⟩
  · cases Option.mem_unique he he'
    exact ⟨rfl, rfl⟩
  · exact sub_update (by omega) c

/-- Every step is made of such moves. -/
lemma Sound.moves (op : Op α) : ReflTransGen (Move op) r (step r op) := by
  cases op with
  | publish p => exact h.publish_moves p
  | connect pid name => exact h.connect_moves pid name
  | connected c =>
    rw [step, connectEnd]
    split_ifs with hpins
    · exact .refl
    exact .single (.pin rfl (sub_update (by omega)))
  | death pid =>
    rw [step, rawnetOnPeerDeath]
    split_ifs
    · exact .refl
    refine forSlots_rel (fun _ => .refl) (fun h h' => h.trans h') (fun r i e he => ?_) _ r
    split_ifs with hpid
    · exact .refl
    refine .single (.slot ⟨fun e he => ?_, fun e' he' halive => ?_⟩)
    · cases he
    · cases Option.mem_unique he he'
      exact absurd (not_not.mp hpid).symm halive

/-- What every move keeps is kept by the step. -/
lemma Sound.along {P : Registry α → Prop} (hp : P r) (hkeeps : ∀ {r r'}, P r → Move op r r' → P r') :
    P (step r op) := by
  have hmoves := h.moves op
  generalize step r op = r' at hmoves ⊢
  induction hmoves with
  | refl => exact hp
  | tail _ hmove ih => exact hkeeps ih hmove

lemma Sound.step (op : Op α) : Sound base (step r op) :=
  h.along h Sound.move

omit [DecidableEq α] in
lemma Sound.lookup (he : r.entries i = some e) : rawnetLookup r e.name = some e := by
  rw [rawnetLookup]
  cases hf : findEntry r e.name with
  | none => exact absurd rfl (findEntry_none hf (h.named i e he).1 he)
  | some found =>
    obtain ⟨j, e'⟩ := found
    obtain ⟨-, he', hname⟩ := findEntry_some hf
    obtain rfl := h.distinct j i e' e he' he hname
    cases Option.mem_unique he he'
    rfl

end Moves

lemma sound_run (base : α → ℤ) (ops : List (Op α)) : Sound base (run step (init base) ops) := by
  refine invariant_run_all (Sound base) (fun r op h => h.step op) ⟨?_, ?_, fun c => ?_⟩ ops
  · intro i e he
    cases he
  · intro i j e e' he
    cases he
  · simp [refs, init]

/-- The registry is sound in every state that is reached. -/
theorem registry_is_sound (base : α → ℤ) (ops : List (Op α)) :
    Sound base (run step (init base) ops) :=
  sound_run base ops

/-- The name belongs to the process. -/
def Published (name : List UInt8) (pid : ℤ) (r : Registry α) : Prop :=
  ∃ i e, r.entries i = some e ∧ e.name = name ∧ e.publisherPid = pid

lemma Published.move (h : Published name pid r) (hop : Alive pid op) (hmove : Move op r r') :
    Published name pid r' := by
  obtain ⟨j, e, he, rfl, rfl⟩ := h
  cases hmove with
  | pin hentries => exact ⟨j, e, hentries ▸ he, rfl, rfl⟩
  | @slot i x hx =>
    by_cases hj : j = i
    · subst hj
      obtain ⟨e', hx', hnew⟩ := hx.old e he hop
      exact ⟨j, e', (entries_put j).trans ((if_pos rfl).trans hx'), hnew⟩
    · exact ⟨j, e, (entries_put j).trans ((if_neg hj).trans he), rfl, rfl⟩

lemma Published.step (h : Published name pid r) (hs : Sound base r) (hop : Alive pid op) :
    Published name pid (step r op) :=
  hs.along h fun h hmove => h.move hop hmove

/-- A name that a process has published is found and belongs to it until the process is gone. -/
theorem name_stays_with_publisher {base : α → ℤ} {ops ops' : List (Op α)}
    (hname : (rawnetLookup (run step (init base) ops) name).map Entry.publisherPid = some pid)
    (hops : ∀ op ∈ ops', Alive pid op) :
    (rawnetLookup (run step (init base) (ops ++ ops')) name).map Entry.publisherPid = some pid := by
  obtain ⟨e, he, hpid⟩ := Option.map_eq_some_iff.mp hname
  obtain ⟨⟨i, e⟩, hfind, rfl⟩ := Option.map_eq_some_iff.mp he
  obtain ⟨-, hslot, hnamed⟩ := findEntry_some hfind
  rw [run_append]
  obtain ⟨hsound, j, e, hj, rfl, hpid⟩ := invariant_run
    (fun r => Sound base r ∧ Published name pid r)
    (fun r op h hop => ⟨h.1.step op, h.2.step h.1 hop⟩)
    ⟨sound_run base ops, i, e, hslot, hnamed, hpid⟩ (guarded_of_forall step hops _)
  rw [hsound.lookup hj, Option.map_some, hpid]

/-- A process publishes "/". -/
def publication (pid : ℤ) : Publish ℕ := ⟨pid, [0x2F], 1, true, .ok (0, 0), fun _ => false⟩

/-- A second process tries to publish the name, and dies. -/
theorem name_stays_with_first_publisher : (rawnetLookup (run step (init fun _ => 1)
    ([.publish (publication 2)] ++ [.publish (publication 3), .death 3])) [0x2F]).map
      Entry.publisherPid = some 2 :=
  name_stays_with_publisher (by decide +kernel) (by simp [Alive, publication])

end GrahaOS.NamedChannels
