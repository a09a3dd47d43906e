import GrahaOS.TcpStream

/-!
# Isolation of connections

Bytes that arrive on a connection should reach only the session that opened it. The daemon refers to
sockets and clients by slot, and slots are reused; moreover any session can name any connection by
its cookie. A connection is named here by its slot and by how often the slot has been opened. Ghost
state records who opened each connection, which bytes were put into its ring and what was sent to
whom.
-/

namespace GrahaOS.NetdIsolation

open Runs TcpMachine ReceiveRing NetdTcp TcpStream Function List Option

/-- Payload is neither sent nor moved, and no reception begins to wait. -/
structure Silent (n n' : Netd) : Prop where
  responses : ∃ rs, n'.responses = n.responses ++ rs ∧ ∀ r ∈ rs, payloadOf r = []
  waiting : ∀ i, waiting n' i = waiting n i
  recvs : ∀ i pr, n'.recvs i = some pr → n.recvs i = some pr
  clients : n'.clients = n.clients

section Silent

variable {n n' n'' : Netd} {c i : ℕ} {seq : UInt32}

lemma Silent.refl (n : Netd) : Silent n n :=
  ⟨⟨[], by simp⟩, fun _ => rfl, fun _ _ h => h, rfl⟩

lemma Silent.trans (h : Silent n n') (h' : Silent n' n'') : Silent n n'' := by
  obtain ⟨rs, hrs, hpay⟩ := h.responses
  obtain ⟨rs', hrs', hpay'⟩ := h'.responses
  refine ⟨⟨rs ++ rs', by rw [hrs', hrs, append_assoc], fun r hr => ?_⟩,
    fun i => (h'.waiting i).trans (h.waiting i), fun i pr hpr => h.recvs i pr (h'.recvs i pr hpr),
    h'.clients.trans h.clients⟩
  rcases mem_append.mp hr with hr | hr
  · exact hpay r hr
  · exact hpay' r hr

lemma silent_foldl {f : Netd → ℕ → Netd} (hf : ∀ n i, Silent n (f n i)) (is : List ℕ) :
    Silent n (is.foldl f n) := by
  induction is generalizing n with
  | nil => exact Silent.refl n
  | cons i is ih => exact (hf n i).trans ih

/-- A loop over a table whose body sends no payload. -/
lemma silent_forSlots {α : Type*} {table : Netd → ℕ → Option α} {body : Netd → ℕ → α → Netd}
    (hbody : ∀ n i a, Silent n (body n i a)) (is : List ℕ) : Silent n (forSlots table body is n) :=
  forSlots_rel Silent.refl Silent.trans (fun n i a _ => hbody n i a) is n

lemma silent_respond {r : Response} (hr : payloadOf r = []) : Silent n (n.respond c r) := by
  rw [Netd.respond]
  split_ifs
  · exact ⟨⟨[r], rfl, by simpa using hr⟩, fun _ => rfl, fun _ _ h => h, rfl⟩
  · exact Silent.refl n

lemma silent_setConn {conn : TcpConn} (hring : conn.ring = (n.conns i).ring) :
    Silent n (n.setConn i conn) := by
  refine ⟨⟨[], by simp [Netd.setConn]⟩, fun j => ?_, fun _ _ h => h, rfl⟩
  by_cases hj : j = i
  · rw [waiting, waiting, hj, Netd.setConn_self, hring]
  · rw [waiting, waiting, Netd.setConn_of_ne hj]

lemma silent_setSocket {sock : TcpSocket} : Silent n (n.setSocket i sock) :=
  ⟨⟨[], by simp [Netd.setSocket]⟩, fun _ => rfl, fun _ _ h => h, rfl⟩

lemma silent_setOpen {po : Option PendingOpen} : Silent n (n.setOpen i po) :=
  ⟨⟨[], by simp [Netd.setOpen]⟩, fun _ => rfl, fun _ _ h => h, rfl⟩

lemma silent_transmit {s : Option TcpSegment} : Silent n (n.transmit s) :=
  ⟨⟨[], by simp [Netd.transmit]⟩, fun _ => rfl, fun _ _ h => h, rfl⟩

lemma silent_setRecv_none : Silent n (n.setRecv i none) := by
  refine ⟨⟨[], by simp [Netd.setRecv]⟩, fun _ => rfl, fun j pr h => ?_, rfl⟩
  by_cases hj : j = i
  · rw [hj, Netd.setRecv_self] at h
    cases h
  · rwa [Netd.setRecv_of_ne hj] at h

lemma silent_dropConnection : Silent n (dropConnection n i) := by
  refine Silent.trans ?_ silent_setSocket
  exact silent_setConn rfl

lemma silent_openResp {i : Option ℕ} {status : ℤ} :
    Silent n (tcpSendOpenResp n i c seq status) := by
  refine silent_respond ?_
  cases i with
  | none => rfl
  | some i =>
    split_ifs <;> rfl

lemma silent_fireOpen (c : ℕ) (n : Netd) (i : ℕ) (po : PendingOpen) :
    Silent n (fireOpen c n i po) := by
  rw [fireOpen]
  split_ifs
  · exact Silent.refl n
  cases (n.sockets c).state
  case established => exact silent_openResp.trans silent_setOpen
  case closed => exact (silent_openResp.trans silent_setOpen).trans silent_dropConnection
  all_goals exact Silent.refl n

lemma silent_tcpOnSocketStateChange : Silent n (tcpOnSocketStateChange n c) :=
  silent_forSlots (silent_fireOpen c) _

variable (nowTsc : UInt64)

lemma silent_tickSocket (n : Netd) (i : ℕ) : Silent n (tickSocket nowTsc n i) := by
  rw [tickSocket]
  split_ifs with huse
  · exact Silent.refl n
  generalize netdTcpTick (n.sockets i) nowTsc netdTicksPerSec = r
  obtain ⟨sock, retx⟩ := r
  dsimp only
  have hset : Silent n ((n.setSocket i sock).transmit retx) :=
    silent_setSocket.trans silent_transmit
  have hchange : Silent n (if sock.state ≠ (n.sockets i).state then
      tcpOnSocketStateChange ((n.setSocket i sock).transmit retx) i
      else (n.setSocket i sock).transmit retx) := by
    split_ifs
    · exact hset.trans silent_tcpOnSocketStateChange
    · exact hset
  generalize (if sock.state ≠ (n.sockets i).state then
    tcpOnSocketStateChange ((n.setSocket i sock).transmit retx) i
    else (n.setSocket i sock).transmit retx) = n₁ at hchange ⊢
  split_ifs
  · exact hchange.trans silent_dropConnection
  · exact hchange

lemma silent_expireOpen (n : Netd) (i : ℕ) (po : PendingOpen) :
    Silent n (expireOpen nowTsc n i po) := by
  rw [expireOpen]
  split_ifs
  · exact Silent.refl n
  · exact (silent_openResp.trans silent_dropConnection).trans silent_setOpen

lemma silent_expireRecv (n : Netd) (i : ℕ) (pr : PendingRecv) :
    Silent n (expireRecv nowTsc n i pr) := by
  rw [expireRecv]
  split_ifs
  · exact Silent.refl n
  · exact (silent_respond rfl).trans silent_setRecv_none

lemma silent_tcpTick : Silent n (tcpTick n nowTsc) :=
  ((silent_foldl (silent_tickSocket nowTsc) _).trans
    (silent_forSlots (silent_expireOpen nowTsc) _)).trans
      (silent_forSlots (silent_expireRecv nowTsc) _)

lemma silent_handleTcpSend {cookie : UInt32} {payload : List UInt8} {txStatus : ℤ} :
    Silent n (handleTcpSend n c seq cookie payload txStatus) := by
  rw [handleTcpSend]
  cases findSocketByCookie n cookie with
  | none => exact silent_respond rfl
  | some idx =>
    dsimp only
    split_ifs
    · exact silent_respond rfl
    · exact silent_respond rfl
    · exact silent_respond rfl
    · exact (silent_transmit.trans silent_setSocket).trans (silent_respond rfl)

lemma silent_handleTcpClose {cookie : UInt32} : Silent n (handleTcpClose n c seq cookie) := by
  rw [handleTcpClose]
  cases findSocketByCookie n cookie with
  | none => exact silent_respond rfl
  | some idx =>
    refine Silent.trans ?_ (silent_respond rfl)
    cases netdTcpClose (n.sockets idx) with
    | none => exact Silent.refl n
    | some r => exact (silent_setSocket.trans silent_transmit).trans (silent_setConn rfl)

end Silent

/-- The slot of the client that a message goes to. -/
def clientOf : Response → ℕ
  | .openResp c .. => c
  | .recvResp c .. => c
  | .sendResp c .. => c
  | .closeResp c .. => c
  | .errorResp c .. => c

/-- Bytes of the ring of slot `idx` were sent, in order, to sessions that satisfy `Entitled`, or
dropped. -/
structure Drains (idx : ℕ) (Entitled : ℕ → Prop) (n n' : Netd) : Prop where
  responses : ∃ rs, n'.responses = n.responses ++ rs ∧
    (∀ r ∈ rs, payloadOf r ≠ [] → ∃ s, n.clients (clientOf r) = some s ∧ Entitled s) ∧
    (rs.flatMap payloadOf ++ waiting n' idx).Sublist (waiting n idx)
  others : ∀ i, i ≠ idx → waiting n' i = waiting n i
  recvs : ∀ i pr, n'.recvs i = some pr → n.recvs i = some pr
  clients : n'.clients = n.clients

/-- Who waits for bytes of slot `idx` satisfies `Entitled`, if connected. -/
def Waiters (idx : ℕ) (Entitled : ℕ → Prop) (n : Netd) : Prop :=
  ∀ i pr s, n.recvs i = some pr → pr.socketIdx = idx → n.clients pr.clientIdx = some s → Entitled s

section Draining

variable {idx : ℕ} {Entitled : ℕ → Prop} {n n' n'' : Netd}

lemma Silent.drains (h : Silent n n') : Drains idx Entitled n n' := by
  obtain ⟨rs, hrs, hpay⟩ := h.responses
  have hnil : rs.flatMap payloadOf = [] := flatMap_eq_nil_iff.mpr hpay
  refine ⟨⟨rs, hrs, fun r hr hne => absurd (hpay r hr) hne, ?_⟩, fun i _ => h.waiting i, h.recvs,
    h.clients⟩
  rw [hnil, nil_append, h.waiting]

lemma Drains.trans (h : Drains idx Entitled n n') (h' : Drains idx Entitled n' n'') :
    Drains idx Entitled n n'' := by
  obtain ⟨rs, hrs, hent, hsub⟩ := h.responses
  obtain ⟨rs', hrs', hent', hsub'⟩ := h'.responses
  refine ⟨⟨rs ++ rs', by rw [hrs', hrs, append_assoc], fun r hr hne => ?_, ?_⟩,
    fun i hi => (h'.others i hi).trans (h.others i hi),
    fun i pr hpr => h.recvs i pr (h'.recvs i pr hpr), h'.clients.trans h.clients⟩
  · rcases mem_append.mp hr with hr | hr
    · exact hent r hr hne
    · rw [← h.clients]
      exact hent' r hr hne
  · rw [flatMap_append, append_assoc]
    exact (hsub'.append_left _).trans hsub

lemma Drains.waiters (h : Drains idx Entitled n n') (hw : Waiters idx Entitled n) :
    Waiters idx Entitled n' := by
  intro i pr s hpr hidx hs
  rw [h.clients] at hs
  exact hw i pr s (h.recvs i pr hpr) hidx hs

/-- A chunk leaves the ring and is sent to a slot whose session, if there is one, is entitled. -/
lemma drains_taken {c m : ℕ} {r : Response} (hclient : clientOf r = c)
    (hbytes : payloadOf r = (takeChunk n idx m).1) (hent : ∀ s, n.clients c = some s → Entitled s) :
    Drains idx Entitled n ((takeChunk n idx m).2.respond c r) := by
  have hring : waiting n idx = (takeChunk n idx m).1 ++ waiting (takeChunk n idx m).2 idx := by
    rw [waiting, waiting, takeChunk, Netd.setConn_self]
    exact RxRing.contents_pop _
  have hothers : ∀ i, i ≠ idx → waiting (takeChunk n idx m).2 i = waiting n i := by
    intro i hi
    rw [waiting, waiting, takeChunk, Netd.setConn_of_ne hi]
  rw [Netd.respond]
  split_ifs with hsome
  · refine ⟨⟨[r], rfl, fun r' hr' _ => ?_, ?_⟩, hothers, fun _ _ h => h, rfl⟩
    · obtain rfl := mem_singleton.mp hr'
      obtain ⟨s, hs⟩ := isSome_iff_exists.mp hsome
      exact ⟨s, hclient ▸ hs, hent s hs⟩
    · rw [flatMap_singleton, hbytes, hring]
      exact .refl _
  · refine ⟨⟨[], (append_nil _).symm, fun _ h => absurd h not_mem_nil, ?_⟩, hothers,
      fun _ _ h => h, rfl⟩
    rw [hring]
    exact sublist_append_right _ _

lemma drains_satisfyRecv {i : ℕ} {pr : PendingRecv} (hpr : n.recvs i = some pr)
    (hw : Waiters idx Entitled n) : Drains idx Entitled n (satisfyRecv idx n i pr) := by
  rw [satisfyRecv]
  by_cases hidx : pr.socketIdx = idx
  · rw [if_neg (not_not.mpr hidx)]
    dsimp only
    split_ifs with hwait hempty
    · exact (Silent.refl n).drains
    · refine Drains.trans (drains_taken (by rfl) ?_ fun s hs => hw i pr s hpr hidx hs)
        silent_setRecv_none.drains
      exact (eq_nil_of_length_eq_zero hempty.1).symm
    · exact Drains.trans (drains_taken (by rfl) rfl fun s hs => hw i pr s hpr hidx hs)
        silent_setRecv_none.drains
  · rw [if_pos hidx]
    exact (Silent.refl n).drains

lemma drains_tcpSatisfyPendingRecv (hw : Waiters idx Entitled n) :
    Drains idx Entitled n (tcpSatisfyPendingRecv n idx) := by
  refine forSlots_rel (R := fun n n' => Waiters idx Entitled n → Drains idx Entitled n n')
    (fun n _ => (Silent.refl n).drains) (fun h h' hw => (h hw).trans (h' ((h hw).waiters hw)))
    (fun n i pr hpr hw => ?_) _ n hw
  exact drains_satisfyRecv hpr hw

lemma stash_frame (n : Netd) (idx : ℕ) (pkt : TcpParsed) :
    (stash n idx pkt).responses = n.responses ∧
    (stash n idx pkt).recvs = n.recvs ∧ (stash n idx pkt).clients = n.clients ∧
    ∀ i, i ≠ idx → waiting (stash n idx pkt) i = waiting n i := by
  rw [stash_eq]
  split_ifs
  · refine ⟨rfl, rfl, rfl, fun i hi => ?_⟩
    rw [waiting, waiting, Netd.pushRing, Netd.setConn_of_ne hi]
  · exact ⟨rfl, rfl, rfl, fun _ _ => rfl⟩

/-- A segment adds bytes to the ring of its slot before the ring is drained. -/
lemma rxSocket_drains (pkt : TcpParsed) (nowTsc : UInt64) (hw : Waiters idx Entitled n) :
    ∃ n₁, waiting n₁ idx = waiting n idx ++
        stashed (netdTcpOnSegment (n.sockets idx) pkt nowTsc netdTicksPerSec).1
          (n.conns idx).ring pkt ∧
      (∀ i, i ≠ idx → waiting n₁ i = waiting n i) ∧ n₁.responses = n.responses ∧
      n₁.recvs = n.recvs ∧ n₁.clients = n.clients ∧
      Drains idx Entitled n₁ (rxSocket n idx pkt nowTsc) := by
  rw [rxSocket]
  generalize netdTcpOnSegment (n.sockets idx) pkt nowTsc netdTicksPerSec = r
  obtain ⟨sock, resp⟩ := r
  dsimp only
  have hstash : Received idx n (stash ((n.setSocket idx sock).transmit resp) idx pkt) sock
      (stashed sock (n.conns idx).ring pkt) :=
    stash_received Netd.setSocket_self (fun i hi => Netd.setSocket_of_ne hi) rfl rfl rfl rfl rfl
  obtain ⟨hresp, hrecvs, hclients, hothers⟩ :=
    stash_frame ((n.setSocket idx sock).transmit resp) idx pkt
  generalize stash ((n.setSocket idx sock).transmit resp) idx pkt = n₁
    at hstash hresp hrecvs hclients hothers ⊢
  refine ⟨n₁, ?_, hothers, hresp, hrecvs, hclients, ?_⟩
  · have hhanded : handed n₁ = handed n := by rw [handed, handed, hresp]; rfl
    have hbytes := hstash.bytes
    rw [hhanded, append_assoc] at hbytes
    exact append_cancel_left hbytes
  · have hfin : Silent n₁ (if pkt.has tcpFlagFin then
        n₁.setConn idx { n₁.conns idx with peerFin := true } else n₁) := by
      split_ifs
      · exact silent_setConn rfl
      · exact Silent.refl n₁
    generalize (if pkt.has tcpFlagFin then n₁.setConn idx { n₁.conns idx with peerFin := true }
      else n₁) = n₂ at hfin ⊢
    have hchange : Silent n₁ (if sock.state ≠ (n.sockets idx).state then
        tcpOnSocketStateChange n₂ idx else n₂) := by
      split_ifs
      · exact hfin.trans silent_tcpOnSocketStateChange
      · exact hfin
    refine hchange.drains.trans (drains_tcpSatisfyPendingRecv ?_)
    refine hchange.drains.waiters ?_
    intro i pr s hpr hidx hs
    rw [hrecvs] at hpr
    rw [hclients] at hs
    exact hw i pr s hpr hidx hs

lemma handleTcpRecv_cases {c : ℕ} {req : RecvRequest} (nowTsc : UInt64)
    (hfind : findSocketByCookie n req.cookie = some idx)
    (hent : ∀ s, n.clients c = some s → Entitled s) :
    Drains idx Entitled n (handleTcpRecv n c req nowTsc) ∨
      ∃ i pr, handleTcpRecv n c req nowTsc = n.setRecv i (some pr) ∧ pr.clientIdx = c ∧
        pr.socketIdx = idx := by
  rw [handleTcpRecv, hfind]
  dsimp only
  by_cases hbytes : 0 < (n.conns idx).ring.bytes
  · rw [if_pos hbytes]
    exact .inl (drains_taken rfl rfl hent)
  rw [if_neg hbytes]
  split_ifs
  · exact .inl (silent_respond rfl).drains
  · exact .inl (silent_respond rfl).drains
  cases (List.range netdMaxPendingTcpRecv).find? fun i => (n.recvs i).isNone with
  | none => exact .inl (silent_respond rfl).drains
  | some i => exact .inr ⟨i, _, rfl, rfl, rfl⟩

end Draining

/-- The slot that an open request is given. -/
def openSlot (n : Netd) (req : OpenRequest) : Option ℕ :=
  if !n.stackRunning ∨ req.dstPort = 0 then none
  else netdTcpSocketAlloc (takeCookie n).2 (takeCookie n).1

section Opening

variable {n : Netd} {c idx : ℕ} {req : OpenRequest} {env : OpenEnv}

lemma silent_takeCookie : Silent n (takeCookie n).2 := by
  rw [takeCookie]
  split_ifs <;> exact ⟨⟨[], by simp⟩, fun _ => rfl, fun _ _ h => h, rfl⟩

lemma handleTcpOpen_refused (h : openSlot n req = none) : Silent n (handleTcpOpen n c req env) := by
  rw [openSlot] at h
  rw [handleTcpOpen]
  by_cases hdown : !n.stackRunning
  · rw [if_pos hdown]
    exact silent_respond rfl
  by_cases hport : req.dstPort = 0
  · rw [if_neg hdown, if_pos hport]
    exact silent_respond rfl
  rw [if_neg (by simp_all)] at h
  rw [if_neg hdown, if_neg hport]
  dsimp only
  rw [h]
  exact silent_takeCookie.trans (silent_respond rfl)

lemma handleTcpOpen_opened (c : ℕ) (env : OpenEnv) (h : openSlot n req = some idx) :
    ∃ conn : TcpConn, conn.ring = RxRing.empty ∧
      Silent ((takeCookie n).2.setConn idx conn) (handleTcpOpen n c req env) := by
  rw [openSlot] at h
  split_ifs at h with hrefused
  rw [handleTcpOpen, if_neg (fun hdown => hrefused (.inl hdown)),
    if_neg (fun hport => hrefused (.inr hport))]
  dsimp only
  rw [h]
  dsimp only [startConnection]
  generalize (takeCookie n).2 = n₀
  refine ⟨⟨true, false, false, c, (takeCookie n).1, RxRing.empty⟩, rfl, ?_⟩
  cases netdTcpConnect _ env.iss tcpDefaultRtoMs env.nowTsc netdTicksPerSec with
  | none => exact silent_dropConnection.trans (silent_respond rfl)
  | some r =>
    dsimp only
    cases (List.range netdMaxPendingTcpOpen).find? _ with
    | none =>
      exact ((silent_setSocket.trans silent_transmit).trans silent_dropConnection).trans
        (silent_respond rfl)
    | some i => exact (silent_setSocket.trans silent_transmit).trans silent_setOpen

end Opening

/-- A payload that was sent: the connection whose ring it came from, and the session that was
connected in the slot it was sent to. -/
structure Delivery where
  conn : Option (ℕ × ℕ)
  session : Option ℕ
  bytes : List UInt8
  deriving DecidableEq

/-- The daemon and its history. A connection is a slot and the number of times it was opened. -/
structure Net where
  netd : Netd
  generation : ℕ → ℕ
  opener : ℕ × ℕ → ℕ
  nextSession : ℕ
  arrived : ℕ × ℕ → List UInt8
  sent : List Delivery

/-- The payloads among the messages sent between two states. -/
def deliveries (conn : Option (ℕ × ℕ)) (n n' : Netd) : List Delivery :=
  (n'.responses.drop n.responses.length).filterMap fun r =>
    if payloadOf r = [] then none else some ⟨conn, n.clients (clientOf r), payloadOf r⟩

/-- The next state of the daemon, where the operation works on the ring of `conn`. -/
def Net.record (w : Net) (conn : Option (ℕ × ℕ)) (n : Netd) : Net :=
  { w with netd := n, sent := w.sent ++ deliveries conn w.netd n }

/-- The connection that is now in a slot. -/
def Net.connection (w : Net) (idx : ℕ) : ℕ × ℕ := (idx, w.generation idx)

inductive NetOp where
  | accept
  | disconnect (c : ℕ)
  | open (c : ℕ) (req : OpenRequest) (env : OpenEnv)
  | recv (c : ℕ) (req : RecvRequest) (nowTsc : UInt64)
  | send (c : ℕ) (seq cookie : UInt32) (payload : List UInt8) (txStatus : ℤ)
  | close (c : ℕ) (seq cookie : UInt32)
  | segment (src dst : UInt32) (pkt : TcpParsed) (nowTsc : UInt64)
  | tick (nowTsc : UInt64)
  | link (running : Bool) (ip : UInt32)

/-- The slot that a segment is found for. -/
def segmentSlot (n : Netd) (src dst : UInt32) (pkt : TcpParsed) : Option ℕ :=
  (netdTcpFindEstablished n dst pkt.dstPort src pkt.srcPort).filter fun idx => (n.conns idx).inUse

/-- One operation. Sessions are numbered in the order in which they are accepted, requests are
read from sessions that are connected, and `link` is what the link and DHCP set. -/
def step (w : Net) : NetOp → Net
  | .accept => { w.record none (serviceAccept w.netd w.nextSession) with
      nextSession := w.nextSession + 1 }
  | .disconnect c => w.record none (clientRelease w.netd c)
  | .open c req env =>
    match w.netd.clients c with
    | none => w
    | some session =>
      match openSlot w.netd req with
      | none => w.record none (handleTcpOpen w.netd c req env)
      | some idx => { w.record none (handleTcpOpen w.netd c req env) with
          generation := Function.update w.generation idx (w.generation idx + 1)
          opener := Function.update w.opener (idx, w.generation idx + 1) session }
  | .recv c req nowTsc =>
    if (w.netd.clients c).isSome then
      w.record ((findSocketByCookie w.netd req.cookie).map w.connection)
        (handleTcpRecv w.netd c req nowTsc)
    else w
  | .send c seq cookie payload txStatus =>
    if (w.netd.clients c).isSome then
      w.record none (handleTcpSend w.netd c seq cookie payload txStatus)
    else w
  | .close c seq cookie =>
    if (w.netd.clients c).isSome then w.record none (handleTcpClose w.netd c seq cookie) else w
  | .segment src dst pkt nowTsc =>
    match segmentSlot w.netd src dst pkt with
    | none => w.record none (rxTcp w.netd src dst pkt nowTsc)
    | some idx => { w.record (some (w.connection idx)) (rxTcp w.netd src dst pkt nowTsc) with
        arrived := Function.update w.arrived (w.connection idx) (w.arrived (w.connection idx) ++
          stashed (netdTcpOnSegment (w.netd.sockets idx) pkt nowTsc netdTicksPerSec).1
            (w.netd.conns idx).ring pkt) }
  | .tick nowTsc => w.record none (tcpTick w.netd nowTsc)
  | .link running ip => w.record none { w.netd with stackRunning := running, ip := ip }

/-- A session asks for bytes of connections that it has opened, and no reception waits for a
slot, of a socket or of a client, that is given out again. -/
def Careful (w : Net) : NetOp → Prop
  | .accept => ∀ slot, findFreeClientSlot w.netd = some slot →
      ∀ i pr, w.netd.recvs i = some pr → pr.clientIdx ≠ slot
  | .open c req _ => (w.netd.clients c).isSome → ∀ idx, openSlot w.netd req = some idx →
      ∀ i pr, w.netd.recvs i = some pr → pr.socketIdx ≠ idx
  | .recv c req _ => ∀ session, w.netd.clients c = some session →
      ∀ idx, findSocketByCookie w.netd req.cookie = some idx →
        w.opener (w.connection idx) = session
  | _ => True

/-- The bytes sent from the ring of a connection. -/
def bytesSent (sent : List Delivery) (id : ℕ × ℕ) : List UInt8 :=
  (sent.filter fun d => d.conn = some id).flatMap Delivery.bytes

structure Isolated (w : Net) : Prop where
  waiters : ∀ i pr s, w.netd.recvs i = some pr → w.netd.clients pr.clientIdx = some s →
    w.opener (w.connection pr.socketIdx) = s
  sent : ∀ d ∈ w.sent, ∃ id : ℕ × ℕ, d.conn = some id ∧ id.2 ≤ w.generation id.1 ∧
    d.session = some (w.opener id)
  rings : ∀ idx, (bytesSent w.sent (w.connection idx) ++ waiting w.netd idx).Sublist
    (w.arrived (w.connection idx))
  past : ∀ id : ℕ × ℕ, id.2 < w.generation id.1 → (bytesSent w.sent id).Sublist (w.arrived id)
  future : ∀ id : ℕ × ℕ, w.generation id.1 < id.2 → w.arrived id = []

section Invariant

variable {w : Net} {n' n₁ : Netd} {conn : Option (ℕ × ℕ)}

lemma bytesSent_append (sent ds : List Delivery) (id : ℕ × ℕ) :
    bytesSent (sent ++ ds) id = bytesSent sent id ++ bytesSent ds id := by
  simp [bytesSent]

lemma bytesSent_of_conn {ds : List Delivery} (h : ∀ d ∈ ds, d.conn = conn) (id : ℕ × ℕ) :
    bytesSent ds id = if conn = some id then ds.flatMap Delivery.bytes else [] := by
  rw [bytesSent]
  split_ifs with hid
  · rw [filter_eq_self.mpr fun d hd => by simp [h d hd, hid]]
  · rw [filter_eq_nil_iff.mpr fun d hd => by simp [h d hd, hid]]
    rfl

section Deliveries

variable {conn : Option (ℕ × ℕ)} {n : Netd} {rs : List Response}

lemma deliveries_conn : ∀ d ∈ deliveries conn n n', d.conn = conn := by
  intro d hd
  obtain ⟨r, -, hr⟩ := mem_filterMap.mp hd
  split_ifs at hr
  rw [← some.inj hr]

lemma deliveries_eq (h : n'.responses = n.responses ++ rs) :
    deliveries conn n n' = rs.filterMap fun r =>
      if payloadOf r = [] then none else some ⟨conn, n.clients (clientOf r), payloadOf r⟩ := by
  rw [deliveries, h, drop_left]

lemma deliveries_bytes (h : n'.responses = n.responses ++ rs) :
    (deliveries conn n n').flatMap Delivery.bytes = rs.flatMap payloadOf := by
  rw [deliveries_eq h]
  clear h
  induction rs with
  | nil => rfl
  | cons r rs ih =>
    rw [filterMap_cons, flatMap_cons]
    split_ifs with hr
    · rw [hr, nil_append, ih]
    · rw [flatMap_cons, ih]

lemma deliveries_silent (h : Silent n n') : deliveries conn n n' = [] := by
  obtain ⟨rs, hrs, hpay⟩ := h.responses
  rw [deliveries_eq hrs, filterMap_eq_nil_iff]
  intro r hr
  rw [if_pos (hpay r hr)]

end Deliveries

variable (hi : Isolated w)
include hi

/-- Nothing is sent, and the rings stay as they are. -/
lemma Isolated.keeps (hsent : deliveries conn w.netd n' = [])
    (hring : ∀ idx, waiting n' idx = waiting w.netd idx)
    (hwaiters : ∀ i pr s, n'.recvs i = some pr → n'.clients pr.clientIdx = some s →
      w.opener (w.connection pr.socketIdx) = s) : Isolated (w.record conn n') := by
  have hsame : (w.record conn n').sent = w.sent := by rw [Net.record, hsent, append_nil]
  refine ⟨hwaiters, fun d hd => hi.sent d (hsame ▸ hd), fun idx => ?_, fun id hid => ?_, hi.future⟩
  · have hring' : waiting (w.record conn n').netd idx = waiting w.netd idx := hring idx
    rw [hsame, hring']
    exact hi.rings idx
  · rw [hsame]
    exact hi.past id hid

lemma Isolated.silent (conn : Option (ℕ × ℕ)) (h : Silent w.netd n') :
    Isolated (w.record conn n') :=
  hi.keeps (deliveries_silent h) h.waiting fun i pr s hpr hs =>
    hi.waiters i pr s (h.recvs i pr hpr) (h.clients ▸ hs)

/-- The table of clients changes, and nobody who waits gets to know another session. -/
lemma Isolated.clients {cl : ℕ → Option ℕ}
    (h : ∀ i pr s, w.netd.recvs i = some pr → cl pr.clientIdx = some s →
      w.netd.clients pr.clientIdx = some s) :
    Isolated (w.record none { w.netd with clients := cl }) :=
  hi.keeps (by simp [deliveries]) (fun _ => rfl) fun i pr s hpr hs =>
    hi.waiters i pr s hpr (h i pr s hpr hs)

/-- Nothing has been sent on a connection that is yet to come. -/
lemma Isolated.unsent {id : ℕ × ℕ} (hid : w.generation id.1 < id.2) : bytesSent w.sent id = [] := by
  rw [bytesSent, filter_eq_nil_iff.mpr]
  · rfl
  intro d hd
  obtain ⟨id', hconn, hle, -⟩ := hi.sent d hd
  simp only [hconn, some.injEq, decide_eq_true_eq]
  rintro rfl
  omega

/-- Bytes arrive in the ring of a slot, and bytes of it are sent to who opened the connection. -/
lemma Isolated.drains {idx : ℕ} {added : List UInt8}
    (hring : waiting n₁ idx = waiting w.netd idx ++ added)
    (hothers : ∀ i, i ≠ idx → waiting n₁ i = waiting w.netd i)
    (hresp : n₁.responses = w.netd.responses) (hrecvs : n₁.recvs = w.netd.recvs)
    (hclients : n₁.clients = w.netd.clients)
    (h : Drains idx (fun s => w.opener (w.connection idx) = s) n₁ n') :
    Isolated { w.record (some (w.connection idx)) n' with
      arrived := update w.arrived (w.connection idx)
        (w.arrived (w.connection idx) ++ added) } := by
  obtain ⟨rs, hrs, hent, hsub⟩ := h.responses
  rw [hresp] at hrs
  rw [hring] at hsub
  have hbytes : ∀ id, bytesSent (w.record (some (w.connection idx)) n').sent id =
      bytesSent w.sent id ++ if w.connection idx = id then rs.flatMap payloadOf else [] := by
    intro id
    rw [Net.record, bytesSent_append, bytesSent_of_conn deliveries_conn, deliveries_bytes hrs]
    simp only [some.injEq]
  refine ⟨fun i pr s hpr hs => ?_, fun d hd => ?_, fun i => ?_, fun id hid => ?_, fun id hid => ?_⟩
  · have hs' : n'.clients pr.clientIdx = some s := hs
    rw [h.clients, hclients] at hs'
    exact hi.waiters i pr s (hrecvs ▸ h.recvs i pr hpr) hs'
  · rcases mem_append.mp hd with hold | hnew
    · exact hi.sent d hold
    have hconn := deliveries_conn d hnew
    refine ⟨w.connection idx, hconn, le_rfl, ?_⟩
    rw [deliveries_eq hrs] at hnew
    obtain ⟨r, hr, hd⟩ := mem_filterMap.mp hnew
    split_ifs at hd with hpay
    obtain ⟨s, hs, hopener⟩ := hent r hr hpay
    rw [← some.inj hd, ← hclients, hs, ← hopener]
    rfl
  · change (bytesSent (w.record (some (w.connection idx)) n').sent (w.connection i) ++
      waiting n' i).Sublist (update w.arrived (w.connection idx)
        (w.arrived (w.connection idx) ++ added) (w.connection i))
    rw [hbytes]
    by_cases hidx : i = idx
    · subst hidx
      rw [if_pos rfl, update_self, append_assoc]
      exact (hsub.append_left _).trans (by
        rw [← append_assoc]
        exact (hi.rings i).append_right added)
    · have hne : w.connection idx ≠ w.connection i := fun heq => hidx (congrArg Prod.fst heq).symm
      rw [if_neg hne, append_nil, update_of_ne hne.symm, h.others i hidx, hothers i hidx]
      exact hi.rings i
  · have hne : w.connection idx ≠ id := by
      rintro rfl
      exact absurd hid (lt_irrefl _)
    change (bytesSent (w.record (some (w.connection idx)) n').sent id).Sublist
      (update w.arrived _ _ id)
    rw [hbytes, if_neg hne, append_nil, update_of_ne hne.symm]
    exact hi.past id hid
  · have hne : id ≠ w.connection idx := by
      rintro rfl
      exact absurd hid (lt_irrefl _)
    change update w.arrived _ _ id = []
    rw [update_of_ne hne]
    exact hi.future id hid

/-- A slot is opened: nothing has been sent or has arrived on the new connection. -/
lemma Isolated.opened {idx session : ℕ} {conn : TcpConn} (hn₁ : Silent w.netd n₁)
    (hring : conn.ring = RxRing.empty) (h : Silent (n₁.setConn idx conn) n')
    (hfree : ∀ i pr, w.netd.recvs i = some pr → pr.socketIdx ≠ idx) :
    Isolated { w.record none n' with
      generation := update w.generation idx (w.generation idx + 1)
      opener := update w.opener (idx, w.generation idx + 1) session } := by
  have hsent : (w.record none n').sent = w.sent := by
    obtain ⟨rs, hrs, hpay⟩ := hn₁.responses
    obtain ⟨rs', hrs', hpay'⟩ := h.responses
    have hresp : n'.responses = w.netd.responses ++ (rs ++ rs') := by
      rw [hrs', ← append_assoc, ← hrs]
      rfl
    rw [Net.record, deliveries_eq hresp, filterMap_eq_nil_iff.mpr, append_nil]
    intro r hr
    rcases mem_append.mp hr with hr | hr
    · rw [if_pos (hpay r hr)]
    · rw [if_pos (hpay' r hr)]
  have hgen : ∀ i, w.generation i ≤ update w.generation idx (w.generation idx + 1) i := by
    intro i
    by_cases hi : i = idx
    · rw [hi, update_self]
      omega
    · rw [update_of_ne hi]
  have hold : ∀ id : ℕ × ℕ, id.2 ≤ w.generation id.1 → id ≠ (idx, w.generation idx + 1) := by
    rintro ⟨i, g⟩ hle heq
    cases heq
    exact absurd hle (by simp)
  refine ⟨fun i pr s hpr hs => ?_, fun d hd => ?_, fun i => ?_, fun id hid => ?_, fun id hid => ?_⟩
  · have hpr' := hn₁.recvs i pr (h.recvs i pr hpr)
    have hs' : w.netd.clients pr.clientIdx = some s := by
      rw [← hn₁.clients]
      exact h.clients ▸ hs
    have hne := hfree i pr hpr'
    change update w.opener (idx, w.generation idx + 1) session
      (pr.socketIdx, update w.generation idx (w.generation idx + 1) pr.socketIdx) = s
    rw [update_of_ne hne, update_of_ne (hold _ le_rfl)]
    exact hi.waiters i pr s hpr' hs'
  · obtain ⟨id, hconn, hle, hsession⟩ := hi.sent d (hsent ▸ hd)
    refine ⟨id, hconn, hle.trans (hgen id.1), ?_⟩
    change d.session = some (update w.opener (idx, w.generation idx + 1) session id)
    rw [update_of_ne (hold id hle), hsession]
  · change (bytesSent (w.record none n').sent
      (i, update w.generation idx (w.generation idx + 1) i) ++ waiting n' i).Sublist
      (w.arrived (i, update w.generation idx (w.generation idx + 1) i))
    rw [hsent, h.waiting]
    by_cases hidx : i = idx
    · subst hidx
      rw [update_self, hi.unsent (Nat.lt_succ_self _), waiting, Netd.setConn_self, hring]
      exact nil_sublist _
    · rw [update_of_ne hidx, waiting, Netd.setConn_of_ne hidx]
      have hkeep := hn₁.waiting i
      rw [waiting] at hkeep
      rw [hkeep]
      exact hi.rings i
  · rw [hsent]
    by_cases hlt : id.2 < w.generation id.1
    · exact hi.past id hlt
    -- the connection that was in the slot until now
    have heq : id = w.connection id.1 := by
      have hid' : id.2 < update w.generation idx (w.generation idx + 1) id.1 := hid
      rw [update_apply] at hid'
      split_ifs at hid' with hidx
      · rw [← hidx] at hid'
        exact Prod.ext rfl (by simp only [Net.connection]; omega)
      · exact absurd hid' hlt
    rw [heq]
    exact (sublist_append_left _ _).trans (hi.rings id.1)
  · exact hi.future id ((hgen id.1).trans_lt hid)

omit hi

lemma rxTcp_of_segmentSlot {n : Netd} {src dst : UInt32} {pkt : TcpParsed} {nowTsc : UInt64} :
    rxTcp n src dst pkt nowTsc =
      (segmentSlot n src dst pkt).elim n fun idx => rxSocket n idx pkt nowTsc := by
  rw [rxTcp, segmentSlot]
  cases netdTcpFindEstablished n dst pkt.dstPort src pkt.srcPort with
  | none => rfl
  | some idx =>
    rw [elim_some, filter_some]
    split_ifs <;> rfl

lemma step_isolated (w : Net) (op : NetOp) (hi : Isolated w) (hop : Careful w op) :
    Isolated (step w op) := by
  cases op with
  | accept =>
    have haccept : Isolated (w.record none (serviceAccept w.netd w.nextSession)) := by
      rw [serviceAccept]
      cases hslot : findFreeClientSlot w.netd with
      | none => exact hi.silent none (Silent.refl _)
      | some slot =>
        refine hi.clients fun i pr s hpr hs => ?_
        rwa [update_of_ne (hop slot hslot i pr hpr)] at hs
    exact ⟨haccept.waiters, haccept.sent, haccept.rings, haccept.past, haccept.future⟩
  | disconnect c =>
    refine hi.clients fun i pr s hpr hs => ?_
    by_cases hc : pr.clientIdx = c
    · rw [hc, update_self] at hs
      cases hs
    · rwa [update_of_ne hc] at hs
  | «open» c req env =>
    rw [step]
    cases hclient : w.netd.clients c with
    | none => exact hi
    | some session =>
      cases hslot : openSlot w.netd req with
      | none => exact hi.silent none (handleTcpOpen_refused hslot)
      | some idx =>
        obtain ⟨conn, hring, hsilent⟩ := handleTcpOpen_opened c env hslot
        exact hi.opened silent_takeCookie hring hsilent
          (hop (isSome_iff_exists.mpr ⟨session, hclient⟩) idx hslot)
  | recv c req nowTsc =>
    rw [step]
    split_ifs with hclient
    swap
    · exact hi
    cases hfind : findSocketByCookie w.netd req.cookie with
    | none =>
      have hsilent : Silent w.netd (handleTcpRecv w.netd c req nowTsc) := by
        rw [handleTcpRecv, hfind]
        exact silent_respond rfl
      exact hi.silent none hsilent
    | some idx =>
      have hent : ∀ s, w.netd.clients c = some s → w.opener (w.connection idx) = s :=
        fun s hs => hop s hs idx hfind
      rcases handleTcpRecv_cases nowTsc hfind hent with hdrains | ⟨i, pr, hset, hc, hidx⟩
      · have := hi.drains (append_nil _).symm (fun _ _ => rfl) rfl rfl rfl hdrains
        rwa [append_nil, update_eq_self] at this
      rw [hset]
      refine hi.keeps (by simp [deliveries, Netd.setRecv]) (fun _ => rfl) fun j pr' s hpr hs => ?_
      by_cases hj : j = i
      · rw [hj, Netd.setRecv_self] at hpr
        cases hpr
        rw [hidx]
        exact hent s (hc ▸ hs)
      · rw [Netd.setRecv_of_ne hj] at hpr
        exact hi.waiters j pr' s hpr hs
  | send c seq cookie payload txStatus =>
    rw [step]
    split_ifs
    · exact hi.silent none silent_handleTcpSend
    · exact hi
  | close c seq cookie =>
    rw [step]
    split_ifs
    · exact hi.silent none silent_handleTcpClose
    · exact hi
  | segment src dst pkt nowTsc =>
    rw [step, rxTcp_of_segmentSlot]
    cases segmentSlot w.netd src dst pkt with
    | none => exact hi.silent none (Silent.refl _)
    | some idx =>
      have hw : Waiters idx (fun s => w.opener (w.connection idx) = s) w.netd := by
        intro i pr s hpr hidx hs
        subst hidx
        exact hi.waiters i pr s hpr hs
      obtain ⟨n₁, hring, hothers, hresp, hrecvs, hclients, hdrains⟩ :=
        rxSocket_drains pkt nowTsc hw
      exact hi.drains hring hothers hresp hrecvs hclients hdrains
  | tick nowTsc => exact hi.silent none (silent_tcpTick nowTsc)
  | link running ip =>
    exact hi.silent none ⟨⟨[], by simp⟩, fun _ => rfl, fun _ _ h => h, rfl⟩

end Invariant

/-- The daemon after its start: no sessions, no connections. -/
def Net.empty : Net where
  netd := {
    sockets := fun _ => {}
    conns := fun _ => ⟨false, false, false, 0, 0, RxRing.empty⟩
    opens := fun _ => none
    recvs := fun _ => none
    clients := fun _ => none
    responses := []
    segments := [] }
  generation := fun _ => 0
  opener := fun _ => 0
  nextSession := 0
  arrived := fun _ => []
  sent := []

lemma isolated_empty : Isolated Net.empty where
  waiters := fun _ _ _ h => by simp [Net.empty] at h
  sent := fun _ h => absurd h not_mem_nil
  rings := fun idx => by
    have hring : waiting Net.empty.netd idx = [] := RxRing.contents_empty
    rw [hring]
    simp [bytesSent, Net.empty]
  past := fun _ _ => by simp [bytesSent, Net.empty]
  future := fun _ _ => rfl

/-- Every payload that the daemon sends comes from the ring of a connection and goes to the
session that opened it; and what is sent from the ring of a connection has arrived on it. -/
theorem payload_goes_to_the_opener {ops : List NetOp} (hops : Guarded step Careful Net.empty ops) :
    (∀ d ∈ (run step Net.empty ops).sent, ∃ id, d.conn = some id ∧
      d.session = some ((run step Net.empty ops).opener id)) ∧
    ∀ id, (bytesSent (run step Net.empty ops).sent id).Sublist
      ((run step Net.empty ops).arrived id) := by
  have hi := invariant_run Isolated step_isolated isolated_empty hops
  refine ⟨fun d hd => ?_, fun id => ?_⟩
  · obtain ⟨id, hconn, -, hsession⟩ := hi.sent d hd
    exact ⟨id, hconn, hsession⟩
  · rcases lt_trichotomy id.2 ((run step Net.empty ops).generation id.1) with hlt | heq | hgt
    · exact hi.past id hlt
    · have hid : id = (run step Net.empty ops).connection id.1 := Prod.ext rfl heq
      rw [hid]
      exact (List.sublist_append_left _ _).trans (hi.rings id.1)
    · rw [hi.unsent hgt]
      exact List.nil_sublist _

/-- What the peer at port 80 sends to the connection opened below. -/
def peerSends (seq : UInt32) (flags : UInt8) (payload : List UInt8) : NetOp :=
  .segment 2 1 {
    srcPort := 80, dstPort := 4000, seq := seq, ack := 101, flags := flags, window := 1000
    payload := payload, optMss := 0 } 0

/-- Two sessions connect, and the first opens a connection. -/
def openOps : List NetOp :=
  [.accept, .accept, .link true 1, .open 0 ⟨1, 2, 80, 1000⟩ ⟨4000, 100, 0⟩]

/-- The connection is established, a payload arrives, and the client in slot `c` asks for it. -/
def askOps (c : ℕ) : List NetOp :=
  [peerSends 500 (tcpFlagSyn ||| tcpFlagAck) [], peerSends 501 tcpFlagAck [7, 8],
    .recv c ⟨2, 0x1000, 100, 1000⟩ 0]

lemma serviceAccept_recvs (n : Netd) (session : ℕ) : (serviceAccept n session).recvs = n.recvs := by
  rw [serviceAccept]
  cases findFreeClientSlot n <;> rfl

lemma openOps_careful : Guarded step Careful Net.empty openOps := by
  have haccepted : ∀ w, (step w .accept).netd.recvs = w.netd.recvs := fun w =>
    serviceAccept_recvs w.netd w.nextSession
  have hidle : ∀ i pr, (step (step Net.empty .accept) .accept).netd.recvs i ≠ some pr := by
    intro i pr
    rw [haccepted, haccepted]
    exact some_ne_none pr ∘ Eq.symm
  refine ⟨fun _ _ i pr h => ?_, fun _ _ i pr h => ?_, trivial, fun _ _ _ i pr h => ?_, trivial⟩
  · exact absurd h (some_ne_none pr ∘ Eq.symm)
  · rw [haccepted] at h
    exact absurd h (some_ne_none pr ∘ Eq.symm)
  · exact absurd h (hidle i pr)

/-- The session that opened the connection asks for its bytes. -/
theorem opener_gets_its_payload :
    Guarded step Careful Net.empty (openOps ++ askOps 0) ∧
    (run step Net.empty (openOps ++ askOps 0)).sent = [⟨some (0, 1), some 0, [7, 8]⟩] ∧
    (∀ d ∈ (run step Net.empty (openOps ++ askOps 0)).sent, ∃ id, d.conn = some id ∧
      d.session = some ((run step Net.empty (openOps ++ askOps 0)).opener id)) ∧
    ∀ id, (bytesSent (run step Net.empty (openOps ++ askOps 0)).sent id).Sublist
      ((run step Net.empty (openOps ++ askOps 0)).arrived id) := by
  have hguard : Guarded step Careful Net.empty (openOps ++ askOps 0) := by
    rw [guarded_append]
    refine ⟨openOps_careful, trivial, trivial, ?_, trivial⟩
    intro session hclient idx hfind
    have hclient' : (run step Net.empty (openOps ++ (askOps 0).take 2)).netd.clients 0 = some 0 := by
      decide +kernel
    have hfind' : findSocketByCookie
        (run step Net.empty (openOps ++ (askOps 0).take 2)).netd 0x1000 = some 0 := by
      decide +kernel
    obtain rfl : (0 : ℕ) = session := mem_unique hclient' hclient
    obtain rfl : (0 : ℕ) = idx := mem_unique hfind' hfind
    decide +kernel
  exact ⟨hguard, by decide +kernel, payload_goes_to_the_opener hguard⟩

/-- Cookies are given out in order, and `handle_tcp_recv` finds the connection by its cookie
alone: a session that asks with the cookie of another gets the payload. -/
theorem other_session_gets_the_payload :
    (run step Net.empty (openOps ++ askOps 1)).sent = [⟨some (0, 1), some 1, [7, 8]⟩] ∧
    (run step Net.empty (openOps ++ askOps 1)).opener (0, 1) = 0 ∧
    ¬ ∀ d ∈ (run step Net.empty (openOps ++ askOps 1)).sent, ∃ id, d.conn = some id ∧
      d.session = some ((run step Net.empty (openOps ++ askOps 1)).opener id) := by
  have hsent : (run step Net.empty (openOps ++ askOps 1)).sent =
      [⟨some (0, 1), some 1, [7, 8]⟩] := by decide +kernel
  have hopener : (run step Net.empty (openOps ++ askOps 1)).opener (0, 1) = 0 := by
    decide +kernel
  refine ⟨hsent, hopener, fun h => ?_⟩
  obtain ⟨id, hconn, hsession⟩ := h _ (hsent ▸ List.mem_singleton_self _)
  cases hconn
  rw [hopener] at hsession
  exact absurd hsession (by decide)

end GrahaOS.NetdIsolation
