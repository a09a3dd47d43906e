import GrahaOS.NetdTcp

/-!
# The byte stream of a connection

The bytes that the daemon hands to the client, followed by those in the receive ring, should be the
part of the peer's stream that the connection has acknowledged. The state machine decides what is
acknowledged and the dispatcher what is put into the ring.

The two differ in four situations, which `Careful` excludes: a segment that ends at `rcv_nxt`
without starting there, a payload with FIN, a payload that exceeds the ring, and a FIN out of order.
-/

namespace GrahaOS.TcpStream

open Runs TcpMachine ReceiveRing NetdTcp List

/-- The addresses and the initial sequence number are the same. -/
structure SameEnds (sock sock' : TcpSocket) : Prop where
  localPort : sock'.localPort = sock.localPort
  remotePort : sock'.remotePort = sock.remotePort
  localIp : sock'.localIp = sock.localIp
  remoteIp : sock'.remoteIp = sock.remoteIp
  irs : sock'.irs = sock.irs

section Machine

variable {sock : TcpSocket} {pkt : TcpParsed}

variable (sock)

lemma SameEnds.refl : SameEnds sock sock := ⟨rfl, rfl, rfl, rfl, rfl⟩

lemma SameEnds.trans {s s' s'' : TcpSocket} (h : SameEnds s s') (h' : SameEnds s' s'') :
    SameEnds s s'' :=
  ⟨h'.1.trans h.1, h'.2.trans h.2, h'.3.trans h.3, h'.4.trans h.4, h'.5.trans h.5⟩

variable (pkt)

lemma takeAck_spec : SameEnds sock (takeAck sock pkt) ∧
    (takeAck sock pkt).rcvNxt = sock.rcvNxt ∧ (takeAck sock pkt).state = sock.state := by
  rw [takeAck]
  split_ifs
  all_goals exact ⟨⟨rfl, rfl, rfl, rfl, rfl⟩, rfl, rfl⟩

/-- The payload that is acknowledged: one that starts at `rcv_nxt`. -/
def accepted : ℕ :=
  if pkt.seq = sock.rcvNxt then pkt.payload.length else 0

lemma takeData_spec : SameEnds sock (takeData sock pkt).1 ∧
    (takeData sock pkt).1.rcvNxt = sock.rcvNxt + UInt32.ofNat (accepted sock pkt) ∧
    (takeData sock pkt).1.state = sock.state := by
  rw [takeData, accepted]
  by_cases hlen : 0 < pkt.payload.length
  · by_cases hseq : pkt.seq = sock.rcvNxt
    · rw [if_pos hlen, if_pos hseq, if_pos hseq]
      exact ⟨⟨rfl, rfl, rfl, rfl, rfl⟩, rfl, rfl⟩
    · rw [if_pos hlen, if_neg hseq, if_neg hseq]
      exact ⟨SameEnds.refl sock, by simp, rfl⟩
  · have hzero : pkt.payload.length = 0 := by omega
    rw [if_neg hlen, hzero, ite_self]
    exact ⟨SameEnds.refl sock, by simp, rfl⟩

variable {sock}

variable {pkt}

/-- A segment that is not a reset, in the state `ESTABLISHED`. -/
lemma onSegment_established (nowTsc ticksPerSec : UInt64) (hst : sock.state = .established)
    (hrst : ¬ pkt.has tcpFlagRst) :
    SameEnds sock (netdTcpOnSegment sock pkt nowTsc ticksPerSec).1 ∧
    (netdTcpOnSegment sock pkt nowTsc ticksPerSec).1.rcvNxt =
      sock.rcvNxt + UInt32.ofNat (accepted sock pkt) + (if pkt.has tcpFlagFin then 1 else 0) ∧
    (netdTcpOnSegment sock pkt nowTsc ticksPerSec).1.state =
      if pkt.has tcpFlagFin then .closeWait else .established := by
  rw [netdTcpOnSegment, if_neg (fun h => hrst h.1), if_neg (fun h => hrst h.1), hst]
  obtain ⟨hends, hnxt, hstate⟩ := takeAck_spec sock pkt
  obtain ⟨hends', hnxt', hstate'⟩ := takeData_spec (takeAck sock pkt) pkt
  have haccepted : accepted (takeAck sock pkt) pkt = accepted sock pkt := by
    rw [accepted, accepted, hnxt]
  rw [haccepted, hnxt] at hnxt'
  rw [onEstablished]
  split_ifs
  · exact ⟨hends.trans ⟨hends'.1, hends'.2, hends'.3, hends'.4, hends'.5⟩,
      congrArg (· + 1) hnxt', rfl⟩
  · refine ⟨hends.trans hends', by rw [hnxt', UInt32.add_zero], ?_⟩
    rw [hstate', hstate, hst]

lemma onSegment_still (nowTsc ticksPerSec : UInt64)
    (hst : sock.state = .established ∨ sock.state = .closeWait)
    (hrst : sock.state = .established → pkt.has tcpFlagRst) :
    SameEnds sock (netdTcpOnSegment sock pkt nowTsc ticksPerSec).1 ∧
    (netdTcpOnSegment sock pkt nowTsc ticksPerSec).1.rcvNxt = sock.rcvNxt ∧
    ((netdTcpOnSegment sock pkt nowTsc ticksPerSec).1.state = sock.state ∨
      (netdTcpOnSegment sock pkt nowTsc ticksPerSec).1.state = .closed) := by
  have hne : sock.state ≠ .listen ∧ sock.state ≠ .synSent := by
    rcases hst with h | h <;> simp [h]
  rw [netdTcpOnSegment]
  by_cases hr : pkt.has tcpFlagRst
  · rw [if_pos ⟨hr, hne⟩]
    split_ifs
    · exact ⟨⟨rfl, rfl, rfl, rfl, rfl⟩, rfl, .inr rfl⟩
    · exact ⟨SameEnds.refl sock, rfl, .inl rfl⟩
  · have hcw : sock.state = .closeWait := hst.resolve_left fun h => hr (hrst h)
    rw [if_neg fun h => hr h.1, if_neg fun h => hr h.1, hcw]
    rw [onOther, if_neg hr]
    exact ⟨SameEnds.refl sock, rfl, .inl hcw⟩

end Machine

/-- The bytes in a message to a client. -/
def payloadOf : Response → List UInt8
  | .recvResp _ _ _ payload _ => payload
  | _ => []

/-- The bytes handed to clients so far. -/
def handed (n : Netd) : List UInt8 := n.responses.flatMap payloadOf

/-- The bytes that wait in the ring of a connection. -/
def waiting (n : Netd) (c : ℕ) : List UInt8 := (n.conns c).ring.contents

/-- Who waits for bytes of the connection is connected. -/
def Served (c : ℕ) (n : Netd) : Prop :=
  ∀ i pr, n.recvs i = some pr → pr.socketIdx = c → (n.clients pr.clientIdx).isSome

/-- Bytes have moved from the ring of a connection to its clients; sockets are the same. -/
structure Drained (c : ℕ) (n n' : Netd) : Prop where
  sockets : n'.sockets = n.sockets
  opens : n'.opens = n.opens
  clients : n'.clients = n.clients
  inUse : ∀ i, (n'.conns i).inUse = (n.conns i).inUse
  cookie : ∀ i, (n'.conns i).cookie = (n.conns i).cookie
  recvs : ∀ i pr, n'.recvs i = some pr → n.recvs i = some pr ∨ (n.clients pr.clientIdx).isSome
  bytes : handed n' ++ waiting n' c = handed n ++ waiting n c

section Draining

variable {c k : ℕ} {n n' n'' : Netd} {conn : TcpConn} {r : Response}

/-- Receptions that are new are those of clients that are connected. -/
lemma served_of_recvs (hclients : n'.clients = n.clients)
    (hrecvs : ∀ i pr, n'.recvs i = some pr →
      n.recvs i = some pr ∨ (n.clients pr.clientIdx).isSome)
    (hs : Served c n) : Served c n' := by
  intro i pr hpr hc
  rw [hclients]
  rcases hrecvs i pr hpr with hold | hnew
  · exact hs i pr hold hc
  · exact hnew

lemma Drained.refl (c : ℕ) (n : Netd) : Drained c n n :=
  ⟨rfl, rfl, rfl, fun _ => rfl, fun _ => rfl, fun _ _ h => .inl h, rfl⟩

lemma Drained.trans (h : Drained c n n') (h' : Drained c n' n'') : Drained c n n'' where
  sockets := h'.sockets.trans h.sockets
  opens := h'.opens.trans h.opens
  clients := h'.clients.trans h.clients
  inUse := fun i => (h'.inUse i).trans (h.inUse i)
  cookie := fun i => (h'.cookie i).trans (h.cookie i)
  recvs := fun i pr hpr => by
    rcases h'.recvs i pr hpr with hold | hnew
    · exact h.recvs i pr hold
    · exact .inr (h.clients ▸ hnew)
  bytes := h'.bytes.trans h.bytes

lemma Drained.served (h : Drained c n n') : Served c n → Served c n' :=
  served_of_recvs h.clients h.recvs

/-- A field of the connections, when one is written back with the same value in it. -/
lemma field_setConn {α : Type} (f : TcpConn → α) (h : f conn = f (n.conns c)) (i : ℕ) :
    f ((n.setConn c conn).conns i) = f (n.conns i) := by
  by_cases hi : i = c
  · rw [hi, Netd.setConn_self, h]
  · rw [Netd.setConn_of_ne hi]

lemma drained_of_taken {m : ℕ} (hclient : (n.clients k).isSome)
    (hbytes : payloadOf r = (takeChunk n c m).1) :
    Drained c n ((takeChunk n c m).2.respond k r) := by
  have hclient' : ((takeChunk n c m).2.clients k).isSome := hclient
  rw [Netd.respond, if_pos hclient']
  have hself : (takeChunk n c m).2.conns c = { n.conns c with
      ring := (RxRing.pop (n.conns c).ring (chunkCap m)).2 } := Netd.setConn_self
  refine ⟨rfl, rfl, rfl, field_setConn _ rfl, field_setConn _ rfl, fun i pr h => .inl h, ?_⟩
  · have hring : waiting n c = (takeChunk n c m).1 ++ waiting (takeChunk n c m).2 c := by
      rw [waiting, waiting, hself]
      exact RxRing.contents_pop _
    have hhanded : handed { (takeChunk n c m).2 with
        responses := (takeChunk n c m).2.responses ++ [r] } = handed n ++ payloadOf r := by
      simp [handed, takeChunk, Netd.setConn]
    rw [hhanded, hring, hbytes, append_assoc]
    rfl

lemma drained_respond (hbytes : payloadOf r = []) : Drained c n (n.respond k r) := by
  rw [Netd.respond]
  split_ifs
  · refine ⟨rfl, rfl, rfl, fun _ => rfl, fun _ => rfl, fun _ _ h => .inl h, ?_⟩
    simp [handed, waiting, hbytes]
  · exact Drained.refl c n

lemma drained_setRecv_none (i : ℕ) : Drained c n (n.setRecv i none) := by
  refine ⟨rfl, rfl, rfl, fun _ => rfl, fun _ => rfl, fun j pr h => .inl ?_, rfl⟩
  by_cases hj : j = i
  · rw [hj, Netd.setRecv_self] at h
    cases h
  · rwa [Netd.setRecv_of_ne hj] at h

lemma satisfyRecv_drained {i : ℕ} {pr : PendingRecv} (hpr : n.recvs i = some pr)
    (hs : Served c n) : Drained c n (satisfyRecv c n i pr) := by
  rw [satisfyRecv]
  by_cases hc : pr.socketIdx = c
  · rw [if_neg (not_not.mpr hc)]
    by_cases hwait : (n.conns c).ring.bytes = 0 ∧ (!(n.conns c).peerFin) = true
    · rw [if_pos hwait]
      exact Drained.refl c n
    rw [if_neg hwait]
    refine Drained.trans ?_ (drained_setRecv_none i)
    split_ifs with hempty
    · refine drained_of_taken (hs i pr hpr hc) ?_
      exact (eq_nil_of_length_eq_zero hempty.1).symm
    · exact drained_of_taken (hs i pr hpr hc) rfl
  · rw [if_pos hc]
    exact Drained.refl c n

lemma tcpSatisfyPendingRecv_drained (hs : Served c n) :
    Drained c n (tcpSatisfyPendingRecv n c) := by
  refine forSlots_rel (R := fun n n' => Served c n → Drained c n n') (fun n _ => Drained.refl c n)
    (fun h h' hs => (h hs).trans (h' ((h hs).served hs))) (fun n i pr hpr hs => ?_) _ n hs
  exact satisfyRecv_drained hpr hs

lemma expireRecvs_drained (nowTsc : UInt64) : Drained c n (expireRecvs n nowTsc) := by
  refine forSlots_rel (Drained.refl c) Drained.trans (fun n i pr _ => ?_) _ n
  rw [expireRecv]
  split_ifs
  · exact Drained.refl c n
  · exact (drained_respond rfl).trans (drained_setRecv_none i)

lemma clientRecv_drained {req : RecvRequest} {nowTsc : UInt64}
    (hfind : findSocketByCookie n req.cookie = some c) :
    Drained c n (clientRecv n k req nowTsc) := by
  rw [clientRecv]
  by_cases hclient : (n.clients k).isSome
  swap
  · rw [if_neg hclient]
    exact Drained.refl c n
  rw [if_pos hclient, handleTcpRecv, hfind]
  dsimp only
  by_cases hbytes : 0 < (n.conns c).ring.bytes
  · rw [if_pos hbytes]
    exact drained_of_taken hclient rfl
  rw [if_neg hbytes]
  split_ifs
  · exact drained_respond rfl
  · exact drained_respond rfl
  cases hslot : (List.range netdMaxPendingTcpRecv).find? fun i => (n.recvs i).isNone with
  | none => exact drained_respond rfl
  | some i =>
    refine ⟨rfl, rfl, rfl, fun _ => rfl, fun _ => rfl, fun j pr h => ?_, rfl⟩
    by_cases hj : j = i
    · rw [hj, Netd.setRecv_self] at h
      cases h
      exact .inr hclient
    · rw [Netd.setRecv_of_ne hj] at h
      exact .inl h

end Draining

/-- No open request waits for the connection. -/
def Opened (c : ℕ) (n : Netd) : Prop := ∀ i po, n.opens i = some po → po.socketIdx ≠ c

/-- The socket of a connection has changed, and bytes were added to what the client gets. -/
structure Received (c : ℕ) (n n' : Netd) (sock : TcpSocket) (added : List UInt8) : Prop where
  socket : n'.sockets c = sock
  others : ∀ i, i ≠ c → n'.sockets i = n.sockets i
  opens : n'.opens = n.opens
  clients : n'.clients = n.clients
  inUse : ∀ i, (n'.conns i).inUse = (n.conns i).inUse
  cookie : ∀ i, (n'.conns i).cookie = (n.conns i).cookie
  recvs : ∀ i pr, n'.recvs i = some pr → n.recvs i = some pr ∨ (n.clients pr.clientIdx).isSome
  bytes : handed n' ++ waiting n' c = handed n ++ waiting n c ++ added

section Reception

variable {c : ℕ} {n n' n'' : Netd} {sock : TcpSocket} {added : List UInt8} {pkt : TcpParsed}

lemma Received.drain (h : Received c n n' sock added) (h' : Drained c n' n'') :
    Received c n n'' sock added where
  socket := by rw [h'.sockets, h.socket]
  others := fun i hi => by rw [h'.sockets, h.others i hi]
  opens := h'.opens.trans h.opens
  clients := h'.clients.trans h.clients
  inUse := fun i => (h'.inUse i).trans (h.inUse i)
  cookie := fun i => (h'.cookie i).trans (h.cookie i)
  recvs := fun i pr hpr => by
    rcases h'.recvs i pr hpr with hold | hnew
    · exact h.recvs i pr hold
    · exact .inr (h.clients ▸ hnew)
  bytes := h'.bytes.trans h.bytes

lemma Received.served (h : Received c n n' sock added) : Served c n → Served c n' :=
  served_of_recvs h.clients h.recvs

/-- Where nobody waits for the connection to open, a change of state is nobody's concern. -/
lemma tcpOnSocketStateChange_eq (h : Opened c n) : tcpOnSocketStateChange n c = n := by
  refine forSlots_rel (R := fun n n' => Opened c n → n' = n) (fun _ _ => rfl) ?_
    (fun n i po hpo h => ?_) _ n h
  · intro n₁ n₂ n₃ h₁₂ h₂₃ h₁
    obtain rfl := h₁₂ h₁
    exact h₂₃ h₁
  · exact if_pos (h i po hpo)

/-- What the dispatcher puts into the ring, given the socket as the machine has left it. -/
def stashed (sock : TcpSocket) (ring : RxRing) (pkt : TcpParsed) : List UInt8 :=
  if 0 < pkt.payload.length ∧ sock.rcvNxt = pkt.seq + pkt.payloadLen then
    pkt.payload.take (netdTcpRxRingBytes - 1 - ring.bytes)
  else []

lemma stash_eq : stash n c pkt =
    if 0 < pkt.payload.length ∧ (n.sockets c).rcvNxt = pkt.seq + pkt.payloadLen then
      n.pushRing c pkt.payload
    else n := by
  rw [stash]
  split_ifs <;> simp_all

lemma stash_received (hsock : n'.sockets c = sock) (hothers : ∀ i, i ≠ c → n'.sockets i = n.sockets i)
    (hconns : n'.conns = n.conns) (hopens : n'.opens = n.opens) (hclients : n'.clients = n.clients)
    (hrecvs : n'.recvs = n.recvs) (hresp : n'.responses = n.responses) :
    Received c n (stash n' c pkt) sock (stashed sock (n.conns c).ring pkt) := by
  have hhanded : handed n' = handed n := by rw [handed, handed, hresp]
  rw [stash_eq, stashed, hsock]
  by_cases hpush : 0 < pkt.payload.length ∧ sock.rcvNxt = pkt.seq + pkt.payloadLen
  · rw [if_pos hpush, if_pos hpush]
    have hself : (n'.pushRing c pkt.payload).conns c =
        { n.conns c with ring := (n.conns c).ring.push pkt.payload } := by
      rw [Netd.pushRing, Netd.setConn_self, hconns]
    refine ⟨hsock, hothers, hopens, hclients, fun i => ?_, fun i => ?_,
      fun i pr h => .inl (hrecvs ▸ h), ?_⟩
    · rw [← hconns, Netd.pushRing, field_setConn TcpConn.inUse]
      rfl
    · rw [← hconns, Netd.pushRing, field_setConn TcpConn.cookie]
      rfl
    · have hwaiting : waiting (n'.pushRing c pkt.payload) c = waiting n c ++
          pkt.payload.take (netdTcpRxRingBytes - 1 - (n.conns c).ring.bytes) := by
        rw [waiting, waiting, hself]
        exact RxRing.contents_push pkt.payload
      rw [hwaiting, ← append_assoc]
      exact congrArg (· ++ waiting n c ++ _) hhanded
  · rw [if_neg hpush, if_neg hpush]
    refine ⟨hsock, hothers, hopens, hclients, fun i => by rw [hconns], fun i => by rw [hconns],
      fun i pr h => .inl (hrecvs ▸ h), ?_⟩
    rw [hhanded, waiting, waiting, hconns, append_nil]

/-- What a segment does to the socket that it is found for, and to the bytes of the client. -/
theorem rxSocket_spec (pkt : TcpParsed) (nowTsc : UInt64) (hs : Served c n) (ho : Opened c n) :
    Received c n (rxSocket n c pkt nowTsc)
      (netdTcpOnSegment (n.sockets c) pkt nowTsc netdTicksPerSec).1
      (stashed (netdTcpOnSegment (n.sockets c) pkt nowTsc netdTicksPerSec).1 (n.conns c).ring
        pkt) := by
  rw [rxSocket]
  generalize netdTcpOnSegment (n.sockets c) pkt nowTsc netdTicksPerSec = r
  obtain ⟨sock, resp⟩ := r
  dsimp only
  have hstash : Received c n (stash ((n.setSocket c sock).transmit resp) c pkt) sock
      (stashed sock (n.conns c).ring pkt) :=
    stash_received Netd.setSocket_self (fun i hi => Netd.setSocket_of_ne hi) rfl rfl rfl rfl rfl
  generalize stash ((n.setSocket c sock).transmit resp) c pkt = n₁ at hstash ⊢
  have hfin : Received c n (if pkt.has tcpFlagFin then
      n₁.setConn c { n₁.conns c with peerFin := true } else n₁) sock
      (stashed sock (n.conns c).ring pkt) := by
    split_ifs
    · refine hstash.drain ⟨rfl, rfl, rfl, field_setConn _ rfl, field_setConn _ rfl,
        fun _ _ h => .inl h, ?_⟩
      rw [waiting, Netd.setConn_self]
      rfl
    · exact hstash
  generalize (if pkt.has tcpFlagFin then n₁.setConn c { n₁.conns c with peerFin := true }
    else n₁) = n₂ at hfin ⊢
  have hopened : Opened c n₂ := fun i po hpo => ho i po (hfin.opens ▸ hpo)
  rw [tcpOnSocketStateChange_eq hopened, ite_self]
  exact hfin.drain (tcpSatisfyPendingRecv_drained (hfin.served hs))

end Reception

/-- A connection that has just been opened by the handshake, with a socket of its own. -/
structure Connected (n : Netd) (c : ℕ) : Prop where
  slot : c < tcpMaxSockets
  state : (n.sockets c).state = .established
  rcvNxt : (n.sockets c).rcvNxt = (n.sockets c).irs + 1
  alone : ∀ i < tcpMaxSockets, i ≠ c → (n.sockets i).state = .closed ∨
    (n.sockets i).state = .listen ∨ (n.sockets i).localPort ≠ (n.sockets c).localPort ∨
    (n.sockets i).remotePort ≠ (n.sockets c).remotePort ∨
    (n.sockets i).localIp ≠ (n.sockets c).localIp ∨
    (n.sockets i).remoteIp ≠ (n.sockets c).remoteIp
  inUse : (n.conns c).inUse = true
  cookie : (n.conns c).cookie ≠ 0
  ownCookie : ∀ i < tcpMaxSockets, i ≠ c → (n.conns i).inUse = true →
    (n.conns i).cookie ≠ (n.conns c).cookie
  ring : waiting n c = []
  opened : Opened c n
  served : Served c n
  silent : handed n = []

lemma find?_range_eq {m c : ℕ} {p : ℕ → Bool} (hc : c < m) (hp : p c)
    (huniq : ∀ i < m, i ≠ c → ¬ p i) : (List.range m).find? p = some c := by
  cases hfind : (List.range m).find? p with
  | none => exact absurd hp (List.find?_eq_none.mp hfind c (mem_range.mpr hc))
  | some i =>
    have hi := mem_range.mp (mem_of_find?_eq_some hfind)
    have hpi := List.find?_some hfind
    rw [not_imp_not.mp (huniq i hi) hpi]

/-- The state of a run: the daemon, and by how much `rcv_nxt`, which every acknowledgement
carries, has advanced. -/
structure Link where
  netd : Netd
  acked : ℕ

/-- What happens to one connection: segments of the peer, with the position of their payload in
its stream, requests of clients, and time-outs of such requests. -/
inductive StreamOp where
  | segment (pkt : TcpParsed) (off : ℕ) (nowTsc : UInt64)
  | recv (client : ℕ) (seq : UInt32) (maxBytes : ℕ) (timeoutMs : UInt32) (nowTsc : UInt64)
  | expire (nowTsc : UInt64)

def step (c : ℕ) (w : Link) : StreamOp → Link
  | .segment pkt _ nowTsc =>
    let n := rxTcp w.netd (w.netd.sockets c).remoteIp (w.netd.sockets c).localIp pkt nowTsc
    ⟨n, w.acked + ((n.sockets c).rcvNxt - (w.netd.sockets c).rcvNxt).toNat⟩
  | .recv client seq maxBytes timeoutMs nowTsc =>
    ⟨clientRecv w.netd client ⟨seq, (w.netd.conns c).cookie, maxBytes, timeoutMs⟩ nowTsc, w.acked⟩
  | .expire nowTsc => ⟨expireRecvs w.netd nowTsc, w.acked⟩

/-- A well-formed segment of the peer: the payload is the part of the stream that starts where
its sequence number says, and a FIN stands at the end of the stream. -/
@[mk_iff]
structure Carries (stream : List UInt8) (sock : TcpSocket) (pkt : TcpParsed) (off : ℕ) : Prop where
  srcPort : pkt.srcPort = sock.remotePort
  dstPort : pkt.dstPort = sock.localPort
  seq : pkt.seq = sock.irs + 1 + UInt32.ofNat off
  within : off ≤ stream.length
  payload : pkt.payload <+: stream.drop off
  fin : pkt.has tcpFlagFin → off + pkt.payload.length = stream.length

/-- The segments of a run are segments of the peer. -/
def FromPeer (stream : List UInt8) (c : ℕ) (w : Link) : StreamOp → Prop
  | .segment pkt off _ => Carries stream (w.netd.sockets c) pkt off
  | _ => True

/-- The condition under which the machine and the dispatcher agree about a segment. -/
@[mk_iff]
structure Agreed (sock : TcpSocket) (ring : RxRing) (acked : ℕ) (pkt : TcpParsed) (off : ℕ) :
    Prop where
  fresh : 0 < pkt.payload.length → sock.rcvNxt ≠ pkt.seq + pkt.payloadLen
  inOrder : sock.state = .established → ¬ pkt.has tcpFlagRst → pkt.seq = sock.rcvNxt →
    off = acked ∧ (0 < pkt.payload.length →
      ¬ pkt.has tcpFlagFin ∧ ring.bytes + pkt.payload.length < netdTcpRxRingBytes)
  fin : sock.state = .established → ¬ pkt.has tcpFlagRst → pkt.has tcpFlagFin →
    pkt.seq = sock.rcvNxt

def Careful (c : ℕ) (w : Link) : StreamOp → Prop
  | .segment pkt off _ =>
    Agreed (w.netd.sockets c) (w.netd.conns c).ring w.acked pkt off
  | _ => True

/-- The bytes that have left the ring, and those in it, are the first bytes of the stream, as
many as were acknowledged; a FIN is acknowledged at the end of the stream only. -/
structure Prefix (stream : List UInt8) (sock : TcpSocket) (w : Link) (c r : ℕ) : Prop where
  within : r ≤ stream.length
  bytes : handed w.netd ++ waiting w.netd c = stream.take r
  acked : w.acked = r ∨ w.acked = r + 1 ∧ r = stream.length
  open_acked : sock.state = .established → w.acked = r
  open_rcvNxt : sock.state = .established → sock.rcvNxt = sock.irs + 1 + UInt32.ofNat r

structure Flowing (stream : List UInt8) (n₀ : Netd) (c : ℕ) (w : Link) : Prop where
  ends : SameEnds (n₀.sockets c) (w.netd.sockets c)
  others : ∀ i, i ≠ c → w.netd.sockets i = n₀.sockets i
  inUse : ∀ i, (w.netd.conns i).inUse = (n₀.conns i).inUse
  cookie : ∀ i, (w.netd.conns i).cookie = (n₀.conns i).cookie
  opened : Opened c w.netd
  served : Served c w.netd
  state : (w.netd.sockets c).state = .established ∨ (w.netd.sockets c).state = .closeWait ∨
    (w.netd.sockets c).state = .closed
  stream : ∃ r, Prefix stream (w.netd.sockets c) w c r

section Invariant

variable {stream : List UInt8} {n₀ n' : Netd} {c off : ℕ} {w : Link} {pkt : TcpParsed}
  {sock : TcpSocket} {nowTsc : UInt64}

variable (h : Connected n₀ c)
include h

lemma flowing_start : Flowing stream n₀ c ⟨n₀, 0⟩ := { h with
  ends := SameEnds.refl _
  others := fun _ _ => rfl
  inUse := fun _ => rfl
  cookie := fun _ => rfl
  state := .inl h.state
  stream := by
    refine ⟨0, Nat.zero_le _, ?_, .inl rfl, fun _ => rfl, fun _ => ?_⟩
    · rw [h.silent, h.ring]
      rfl
    · rw [h.rcvNxt]
      simp }

variable (hf : Flowing stream n₀ c w)
include hf

lemma find_connection (hopen : (w.netd.sockets c).state ≠ .closed) :
    netdTcpFindEstablished w.netd (w.netd.sockets c).localIp (w.netd.sockets c).localPort
      (w.netd.sockets c).remoteIp (w.netd.sockets c).remotePort = some c := by
  have hlisten : (w.netd.sockets c).state ≠ .listen := by
    rcases hf.state with hst | hst | hst <;> simp [hst]
  refine find?_range_eq h.slot (by simp [hopen, hlisten]) fun i hi hic => ?_
  have halone := h.alone i hi hic
  rw [hf.others i hic, hf.ends.localPort, hf.ends.remotePort, hf.ends.localIp, hf.ends.remoteIp]
  simp only [decide_eq_true_eq]
  tauto

lemma find_closed (hclosed : (w.netd.sockets c).state = .closed) :
    netdTcpFindEstablished w.netd (w.netd.sockets c).localIp (w.netd.sockets c).localPort
      (w.netd.sockets c).remoteIp (w.netd.sockets c).remotePort = none := by
  rw [netdTcpFindEstablished, List.find?_eq_none]
  intro i hi
  by_cases hic : i = c
  · simp [hic, hclosed]
  have halone := h.alone i (mem_range.mp hi) hic
  rw [hf.others i hic, hf.ends.localPort, hf.ends.remotePort, hf.ends.localIp, hf.ends.remoteIp]
  simp only [decide_eq_true_eq]
  tauto

lemma find_cookie : findSocketByCookie w.netd (w.netd.conns c).cookie = some c := by
  rw [findSocketByCookie, hf.cookie, if_neg h.cookie]
  refine find?_range_eq h.slot (by simp [hf.inUse, hf.cookie, h.inUse]) fun i hi hic => ?_
  rw [hf.inUse, hf.cookie]
  simp only [decide_eq_true_eq, not_and]
  exact h.ownCookie i hi hic

omit h

lemma Flowing.drain (hd : Drained c w.netd n') : Flowing stream n₀ c ⟨n', w.acked⟩ where
  ends := by rw [hd.sockets]; exact hf.ends
  others := fun i hi => by rw [hd.sockets, hf.others i hi]
  inUse := fun i => (hd.inUse i).trans (hf.inUse i)
  cookie := fun i => (hd.cookie i).trans (hf.cookie i)
  opened := fun i po hpo => hf.opened i po (hd.opens ▸ hpo)
  served := hd.served hf.served
  state := by rw [hd.sockets]; exact hf.state
  stream := by
    obtain ⟨r, hr⟩ := hf.stream
    rw [hd.sockets]
    exact ⟨r, hr.within, hd.bytes.trans hr.bytes, hr.acked, hr.open_acked, hr.open_rcvNxt⟩

lemma Flowing.receive {added : List UInt8} {acked r : ℕ} (hr : Received c w.netd n' sock added)
    (hends : SameEnds (w.netd.sockets c) sock)
    (hstate : sock.state = .established ∨ sock.state = .closeWait ∨ sock.state = .closed)
    (hpre : Prefix stream sock ⟨n', acked⟩ c r) : Flowing stream n₀ c ⟨n', acked⟩ where
  ends := by rw [hr.socket]; exact hf.ends.trans hends
  others := fun i hi => by rw [hr.others i hi, hf.others i hi]
  inUse := fun i => (hr.inUse i).trans (hf.inUse i)
  cookie := fun i => (hr.cookie i).trans (hf.cookie i)
  opened := fun i po hpo => hf.opened i po (hr.opens ▸ hpo)
  served := hr.served hf.served
  state := by rw [hr.socket]; exact hstate
  stream := by rw [hr.socket]; exact ⟨r, hpre⟩

omit hf

lemma stashed_eq_nil (ring : RxRing)
    (h : 0 < pkt.payload.length → sock.rcvNxt ≠ pkt.seq + pkt.payloadLen) :
    stashed sock ring pkt = [] :=
  if_neg fun hpush => h hpush.1 hpush.2

include hf

lemma still_flowing (ha : Agreed (w.netd.sockets c) (w.netd.conns c).ring w.acked pkt off)
    (hst : (w.netd.sockets c).state = .established ∨ (w.netd.sockets c).state = .closeWait)
    (hrst : (w.netd.sockets c).state = .established → pkt.has tcpFlagRst) :
    Flowing stream n₀ c ⟨rxSocket w.netd c pkt nowTsc, w.acked +
      (((rxSocket w.netd c pkt nowTsc).sockets c).rcvNxt -
        (w.netd.sockets c).rcvNxt).toNat⟩ := by
  have hr := rxSocket_spec pkt nowTsc hf.served hf.opened
  obtain ⟨hends, hnxt, hstate⟩ := onSegment_still nowTsc netdTicksPerSec hst hrst
  have hnone := stashed_eq_nil (w.netd.conns c).ring (fun hlen => hnxt.symm ▸ ha.fresh hlen)
  rw [hnone] at hr
  rw [hr.socket, hnxt, UInt32.sub_self, UInt32.toNat_zero, Nat.add_zero]
  obtain ⟨r, hp⟩ := hf.stream
  have hopen : (netdTcpOnSegment (w.netd.sockets c) pkt nowTsc netdTicksPerSec).1.state =
      .established → (w.netd.sockets c).state = .established := by
    intro h
    rcases hstate with heq | hclosed
    · rw [← heq, h]
    · rw [hclosed] at h
      cases h
  refine hf.receive hr hends ?_ ⟨hp.within, ?_, hp.acked, fun h => hp.open_acked (hopen h),
    fun h => ?_⟩
  · rcases hstate with heq | hclosed
    · rw [heq]
      exact hf.state
    · exact .inr (.inr hclosed)
  · rw [hr.bytes, hp.bytes, append_nil]
  · rw [hnxt, hends.irs, hp.open_rcvNxt (hopen h)]

lemma established_flowing (hc : Carries stream (w.netd.sockets c) pkt off)
    (ha : Agreed (w.netd.sockets c) (w.netd.conns c).ring w.acked pkt off)
    (hst : (w.netd.sockets c).state = .established) (hrst : ¬ pkt.has tcpFlagRst) :
    Flowing stream n₀ c ⟨rxSocket w.netd c pkt nowTsc, w.acked +
      (((rxSocket w.netd c pkt nowTsc).sockets c).rcvNxt -
        (w.netd.sockets c).rcvNxt).toNat⟩ := by
  have hr := rxSocket_spec pkt nowTsc hf.served hf.opened
  obtain ⟨hends, hnxt, hstate⟩ := onSegment_established nowTsc netdTicksPerSec hst hrst
  obtain ⟨r, hp⟩ := hf.stream
  have hacked := hp.open_acked hst
  have hrcv := hp.open_rcvNxt hst
  rw [hr.socket]
  by_cases hdata : 0 < pkt.payload.length ∧ pkt.seq = (w.netd.sockets c).rcvNxt
  · -- the payload is accepted and put into the ring as a whole
    obtain ⟨hlen, hseq⟩ := hdata
    obtain ⟨hoff, hfit⟩ := ha.inOrder hst hrst hseq
    obtain ⟨hfin, hroom⟩ := hfit hlen
    rw [accepted, if_pos hseq, if_neg hfin, UInt32.add_zero] at hnxt
    rw [if_neg hfin] at hstate
    have hstashed : stashed (netdTcpOnSegment (w.netd.sockets c) pkt nowTsc netdTicksPerSec).1
        (w.netd.conns c).ring pkt = pkt.payload := by
      rw [stashed, if_pos ⟨hlen, by rw [hnxt, hseq, TcpParsed.payloadLen]⟩]
      exact take_of_length_le (by omega)
    rw [hstashed] at hr
    obtain ⟨rest, hrest⟩ := hc.payload
    rw [hoff, hacked] at hrest
    have hle : pkt.payload.length ≤ stream.length - r := by
      have := congrArg List.length hrest
      rw [length_append, length_drop] at this
      omega
    have hring : pkt.payload.length < 2 ^ 32 := by
      simp only [netdTcpRxRingBytes] at hroom
      omega
    have hwithin := hp.within
    rw [hnxt, UInt32.add_comm, UInt32.add_sub_cancel, UInt32.toNat_ofNat_of_lt' hring]
    refine hf.receive (r := r + pkt.payload.length) hr hends (.inl hstate)
      ⟨by omega, ?_, .inl (by rw [hacked]), fun _ => by rw [hacked], fun _ => ?_⟩
    · rw [hr.bytes, hp.bytes, take_add, ← hrest, take_left]
    · rw [hnxt, hends.irs, hrcv, UInt32.ofNat_add, UInt32.add_assoc]
  · have haccepted : accepted (w.netd.sockets c) pkt = 0 := by
      rw [accepted]
      split_ifs with hseq
      · by_contra hne
        exact hdata ⟨by omega, hseq⟩
      · rfl
    rw [haccepted, show UInt32.ofNat 0 = 0 from rfl, UInt32.add_zero] at hnxt
    by_cases hfin : pkt.has tcpFlagFin
    · -- a FIN at the end of the stream, without payload
      have hseq := ha.fin hst hrst hfin
      obtain ⟨hoff, -⟩ := ha.inOrder hst hrst hseq
      have hempty : pkt.payload.length = 0 := by
        by_contra hne
        exact hdata ⟨by omega, hseq⟩
      have hend := hc.fin hfin
      have hnone := @stashed_eq_nil pkt
        (netdTcpOnSegment (w.netd.sockets c) pkt nowTsc netdTicksPerSec).1 (w.netd.conns c).ring
        (fun hlen => absurd hempty hlen.ne')
      rw [if_pos hfin] at hnxt hstate
      have hone : (w.netd.sockets c).rcvNxt + 1 - (w.netd.sockets c).rcvNxt = 1 := by
        rw [UInt32.add_comm, UInt32.add_sub_cancel]
      rw [hnone] at hr
      rw [hnxt, hone, UInt32.toNat_one]
      have hne : (netdTcpOnSegment (w.netd.sockets c) pkt nowTsc netdTicksPerSec).1.state ≠
          .established := by simp [hstate]
      refine hf.receive hr hends (.inr (.inl hstate)) ⟨hp.within, ?_,
        .inr ⟨by rw [hacked], by omega⟩, fun h => absurd h hne, fun h => absurd h hne⟩
      rw [hr.bytes, hp.bytes, append_nil]
    · rw [if_neg hfin, UInt32.add_zero] at hnxt
      rw [if_neg hfin] at hstate
      have hnone := stashed_eq_nil (w.netd.conns c).ring (fun hlen => hnxt.symm ▸ ha.fresh hlen)
      rw [hnone] at hr
      rw [hnxt, UInt32.sub_self, UInt32.toNat_zero, Nat.add_zero]
      refine hf.receive hr hends (.inl hstate)
        ⟨hp.within, ?_, .inl hacked, fun _ => hacked, fun _ => ?_⟩
      · rw [hr.bytes, hp.bytes, append_nil]
      · rw [hnxt, hends.irs, hrcv]

include h

omit hf

lemma step_flowing (w : Link) (op : StreamOp) (hf : Flowing stream n₀ c w)
    (hop : FromPeer stream c w op ∧ Careful c w op) : Flowing stream n₀ c (step c w op) := by
  cases op with
  | segment pkt off nowTsc =>
    have hc : Carries stream (w.netd.sockets c) pkt off := hop.1
    have ha : Agreed (w.netd.sockets c) (w.netd.conns c).ring w.acked pkt off := hop.2
    rw [step, rxTcp, hc.srcPort, hc.dstPort]
    by_cases hclosed : (w.netd.sockets c).state = .closed
    · rw [find_closed h hf hclosed, Option.elim_none]
      rw [UInt32.sub_self, UInt32.toNat_zero, Nat.add_zero]
      exact hf
    rw [find_connection h hf hclosed, Option.elim_some]
    rw [if_pos ((hf.inUse c).trans h.inUse)]
    have hopen : (w.netd.sockets c).state = .established ∨
        (w.netd.sockets c).state = .closeWait := by
      rcases hf.state with hst | hst | hst
      · exact .inl hst
      · exact .inr hst
      · exact absurd hst hclosed
    by_cases hdata : (w.netd.sockets c).state = .established ∧ ¬ pkt.has tcpFlagRst
    · exact established_flowing hf hc ha hdata.1 hdata.2
    · exact still_flowing hf ha hopen fun hst => by
        by_contra hrst
        exact hdata ⟨hst, hrst⟩
  | recv client seq maxBytes timeoutMs nowTsc =>
    exact hf.drain (clientRecv_drained (find_cookie h hf))
  | expire nowTsc => exact hf.drain (expireRecvs_drained nowTsc)

end Invariant

/-- A payload with FIN, in order: it is acknowledged, and nothing is put into the ring. -/
theorem fin_payload_is_lost {n : Netd} {c : ℕ} {pkt : TcpParsed} (nowTsc : UInt64) (hs : Served c n)
    (ho : Opened c n) (hst : (n.sockets c).state = .established) (hrst : ¬ pkt.has tcpFlagRst)
    (hfin : pkt.has tcpFlagFin) (hseq : pkt.seq = (n.sockets c).rcvNxt) :
    ((rxSocket n c pkt nowTsc).sockets c).rcvNxt =
      (n.sockets c).rcvNxt + pkt.payloadLen + 1 ∧
    handed (rxSocket n c pkt nowTsc) ++ waiting (rxSocket n c pkt nowTsc) c =
      handed n ++ waiting n c := by
  have hr := rxSocket_spec pkt nowTsc hs ho
  obtain ⟨-, hnxt, -⟩ := onSegment_established nowTsc netdTicksPerSec hst hrst
  rw [accepted, if_pos hseq, if_pos hfin] at hnxt
  refine ⟨by rw [hr.socket, hnxt, TcpParsed.payloadLen], ?_⟩
  have hnone := @stashed_eq_nil pkt (netdTcpOnSegment (n.sockets c) pkt nowTsc netdTicksPerSec).1
    (n.conns c).ring fun _ heq => by
      rw [hnxt, hseq, TcpParsed.payloadLen] at heq
      have hzero : (1 : UInt32) = 0 := by
        rw [← UInt32.add_sub_cancel 1 ((n.sockets c).rcvNxt + UInt32.ofNat pkt.payload.length),
          UInt32.add_comm, heq, UInt32.sub_self]
      exact absurd hzero (by decide)
  rw [hr.bytes, hnone, append_nil]

/-- A daemon with one connection, in slot 0, and one client. -/
def connected : Netd where
  sockets := fun i => if i = 0 then
    { state := .established, localPort := 40000, remotePort := 80, localIp := 1, remoteIp := 2,
      irs := 99, rcvNxt := 100, mss := tcpDefaultMss } else {}
  conns := fun i => ⟨i = 0, false, false, 0, if i = 0 then 7 else 0, RxRing.empty⟩
  opens := fun _ => none
  recvs := fun _ => none
  clients := fun i => if i = 0 then some 1 else none
  responses := []
  segments := []

/-- A segment of the peer, with the flags ACK and `flags`. -/
def peerSegment (seq : UInt32) (flags : UInt8) (payload : List UInt8) : TcpParsed :=
  ⟨80, 40000, seq, 0, tcpFlagAck ||| flags, 1000, payload, 0⟩

lemma connected_connected : Connected connected 0 where
  slot := by decide +kernel
  state := rfl
  rcvNxt := by decide
  alone := fun i _ hi => .inl (by simp [connected, hi])
  inUse := rfl
  cookie := by decide
  ownCookie := fun i _ hi huse => by simp [connected, hi] at huse
  ring := rfl
  opened := fun _ _ h => by cases h
  served := fun _ _ h => by cases h
  silent := rfl

/-- The last byte of the peer comes with its FIN. -/
theorem last_byte_is_lost :
    ((rxSocket connected 0 (peerSegment 100 tcpFlagFin [1]) 0).sockets 0).rcvNxt = 102 ∧
    handed (rxSocket connected 0 (peerSegment 100 tcpFlagFin [1]) 0) ++
      waiting (rxSocket connected 0 (peerSegment 100 tcpFlagFin [1]) 0) 0 = [] :=
  fin_payload_is_lost 0 connected_connected.served connected_connected.opened rfl (by decide)
    (by decide) rfl

/-- The stream `[1, 2, 3]` in two segments, the second one first and again, then a FIN; the
client reads once. -/
def orderedOps : List StreamOp :=
  [.segment (peerSegment 102 0 [3]) 2 0, .segment (peerSegment 100 0 [1, 2]) 0 0,
    .recv 0 1 2 0 0, .segment (peerSegment 102 0 [3]) 2 0,
    .segment (peerSegment 103 tcpFlagFin []) 3 0]

set_option synthInstance.maxSize 400 in
instance (sock : TcpSocket) (ring : RxRing) (acked : ℕ) (pkt : TcpParsed) (off : ℕ) :
    Decidable (Agreed sock ring acked pkt off) :=
  decidable_of_iff _ (agreed_iff sock ring acked pkt off).symm

instance (stream : List UInt8) (sock : TcpSocket) (pkt : TcpParsed) (off : ℕ) :
    Decidable (Carries stream sock pkt off) :=
  decidable_of_iff _ (carries_iff stream sock pkt off).symm

instance (stream : List UInt8) (c : ℕ) (w : Link) (op : StreamOp) :
    Decidable (FromPeer stream c w op ∧ Careful c w op) := by
  cases op <;> unfold FromPeer Careful <;> infer_instance

instance (stream : List UInt8) (c : ℕ) (w : Link) (op : StreamOp) :
    Decidable (FromPeer stream c w op) := by
  cases op <;> unfold FromPeer <;> infer_instance

/-- A segment arrives twice: its byte is handed over twice. -/
def repeatedOps : List StreamOp :=
  [.segment (peerSegment 100 0 [1]) 0 0, .segment (peerSegment 100 0 [1]) 0 0, .recv 0 1 0 0 0]

end GrahaOS.TcpStream
