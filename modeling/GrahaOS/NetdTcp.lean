import GrahaOS.ReceiveRing
import GrahaOS.Runs
import GrahaOS.TcpMachine

/-!
# TCP in the network daemon

The dispatcher of `user/netd.c` around the state machine: `rx_tcp` puts the payload of a segment
into the receive ring of its connection; `tcp_satisfy_pending_recv` and `handle_tcp_recv` take bytes
out of the ring and send them to the client.

The state has the tables of the daemon and, oldest first, what it has sent: messages on the channels
of its clients and segments handed to IP. A slot that is not in use is `none`, or has a flag where
the code reads other fields of a free slot.
-/

namespace GrahaOS.NetdTcp

open Runs TcpMachine ReceiveRing Function

-- The sizes of the tables are irreducible, so that no proof runs through a table.
@[irreducible] def tcpMaxSockets : ℕ := 1024
@[irreducible] def netdMaxPendingTcpOpen : ℕ := 1024
@[irreducible] def netdMaxPendingTcpRecv : ℕ := 1024
@[irreducible] def netdMaxClients : ℕ := 16
def netdTicksPerSec : UInt64 := 2400000000
def libnetTcpChunkMax : ℕ := 200

/-- `netd_tcp_conn_t`. -/
structure TcpConn where
  inUse : Bool
  peerFin : Bool
  closeSent : Bool
  clientIdx : ℕ
  cookie : UInt32
  ring : RxRing

/-- `pending_tcp_open_t`. -/
structure PendingOpen where
  clientIdx : ℕ
  socketIdx : ℕ
  reqSeq : UInt32
  deadlineTsc : UInt64

/-- `pending_tcp_recv_t`. -/
structure PendingRecv where
  clientIdx : ℕ
  socketIdx : ℕ
  reqSeq : UInt32
  maxBytes : ℕ
  deadlineTsc : UInt64

/-- Messages to a client: the responses to the requests on sockets, and an error. -/
inductive Response where
  | openResp (clientIdx : ℕ) (reqSeq : UInt32) (status : ℤ) (cookie : UInt32) (port : UInt16)
  | recvResp (clientIdx : ℕ) (reqSeq : UInt32) (status : ℤ) (payload : List UInt8) (fin : Bool)
  | sendResp (clientIdx : ℕ) (reqSeq : UInt32) (status : ℤ) (bytesSent : ℕ)
  | closeResp (clientIdx : ℕ) (reqSeq : UInt32) (status : ℤ)
  | errorResp (clientIdx : ℕ) (reqSeq : UInt32) (status : ℤ)

/-- The globals of the daemon that TCP uses. -/
structure Netd where
  sockets : ℕ → TcpSocket
  conns : ℕ → TcpConn
  opens : ℕ → Option PendingOpen
  recvs : ℕ → Option PendingRecv
  clients : ℕ → Option ℕ
  cookieSeed : UInt32 := 0x1000
  ip : UInt32 := 0
  stackRunning : Bool := false
  responses : List Response
  segments : List TcpSegment

namespace Netd

def setSocket (n : Netd) (i : ℕ) (sock : TcpSocket) : Netd :=
  { n with sockets := Function.update n.sockets i sock }

def setConn (n : Netd) (i : ℕ) (conn : TcpConn) : Netd :=
  { n with conns := Function.update n.conns i conn }

def setOpen (n : Netd) (i : ℕ) (po : Option PendingOpen) : Netd :=
  { n with opens := Function.update n.opens i po }

def setRecv (n : Netd) (i : ℕ) (pr : Option PendingRecv) : Netd :=
  { n with recvs := Function.update n.recvs i pr }

section Setters

variable {n : Netd} {i j : ℕ} {sock : TcpSocket} {conn : TcpConn} {pr : Option PendingRecv}

@[simp] lemma setSocket_self : (n.setSocket i sock).sockets i = sock :=
  update_self ..

lemma setSocket_of_ne (h : j ≠ i) :
    (n.setSocket i sock).sockets j = n.sockets j := update_of_ne h ..

@[simp] lemma setConn_self : (n.setConn i conn).conns i = conn :=
  update_self ..

lemma setConn_of_ne (h : j ≠ i) : (n.setConn i conn).conns j = n.conns j :=
  update_of_ne h ..

@[simp] lemma setRecv_self : (n.setRecv i pr).recvs i = pr :=
  update_self ..

lemma setRecv_of_ne (h : j ≠ i) : (n.setRecv i pr).recvs j = n.recvs j := update_of_ne h ..

end Setters

/-- A message on the channel of a client, where the slot is in use. -/
def respond (n : Netd) (clientIdx : ℕ) (r : Response) : Netd :=
  if (n.clients clientIdx).isSome then { n with responses := n.responses ++ [r] } else n

/-- `tx_ipv4_datagram` for the answer of the state machine, where there is one. -/
def transmit (n : Netd) (s : Option TcpSegment) : Netd :=
  { n with segments := n.segments ++ s.toList }

/-- `tcp_ring_push` on the ring of a connection. -/
def pushRing (n : Netd) (i : ℕ) (src : List UInt8) : Netd :=
  n.setConn i { n.conns i with ring := (n.conns i).ring.push src }

end Netd

variable (n : Netd)

def netdTcpFindEstablished (localIp : UInt32) (localPort : UInt16)
    (remoteIp : UInt32) (remotePort : UInt16) : Option ℕ :=
  (List.range tcpMaxSockets).find? fun i =>
    (n.sockets i).state ≠ .closed ∧ (n.sockets i).state ≠ .listen ∧
      (n.sockets i).localPort = localPort ∧ (n.sockets i).remotePort = remotePort ∧
      (n.sockets i).localIp = localIp ∧ (n.sockets i).remoteIp = remoteIp

def findSocketByCookie (cookie : UInt32) : Option ℕ :=
  if cookie = 0 then none else
  (List.range tcpMaxSockets).find? fun i => (n.conns i).inUse ∧ (n.conns i).cookie = cookie

def tcpSendOpenResp (socketIdx : Option ℕ) (clientIdx : ℕ) (reqSeq : UInt32) (status : ℤ) : Netd :=
  n.respond clientIdx <|
    match socketIdx with
    | some i => if status = 0 then
        .openResp clientIdx reqSeq status (n.conns i).cookie (n.sockets i).localPort
      else .openResp clientIdx reqSeq status 0 0
    | none => .openResp clientIdx reqSeq status 0 0

def tcpSendRecvResp (clientIdx : ℕ) (reqSeq : UInt32) (status : ℤ)
    (payload : List UInt8) (fin : Bool) : Netd :=
  n.respond clientIdx (.recvResp clientIdx reqSeq status payload fin)

/-- The body of the loop of `tcp_on_socket_state_change`. -/
def fireOpen (socketIdx : ℕ) (n : Netd) (i : ℕ) (po : PendingOpen) : Netd :=
  if po.socketIdx ≠ socketIdx then n else
  match (n.sockets socketIdx).state with
  | .established => (tcpSendOpenResp n (some socketIdx) po.clientIdx po.reqSeq 0).setOpen i none
  | .closed =>
    let n := (tcpSendOpenResp n none po.clientIdx po.reqSeq (-111)).setOpen i none
    (n.setConn socketIdx { n.conns socketIdx with inUse := false }).setSocket socketIdx {}
  | _ => n

def tcpOnSocketStateChange (socketIdx : ℕ) : Netd :=
  forSlots Netd.opens (fireOpen socketIdx) (List.range netdMaxPendingTcpOpen) n

/-- The size of the chunk for a request: the default for zero, and at most the maximum. -/
def chunkCap (maxBytes : ℕ) : ℕ :=
  if maxBytes = 0 then libnetTcpChunkMax else min maxBytes libnetTcpChunkMax

/-- Take at most a chunk out of the ring of a connection. -/
def takeChunk (i : ℕ) (maxBytes : ℕ) : List UInt8 × Netd :=
  ((RxRing.pop (n.conns i).ring (chunkCap maxBytes)).1,
    n.setConn i { n.conns i with ring := (RxRing.pop (n.conns i).ring (chunkCap maxBytes)).2 })

/-- The body of the loop of `tcp_satisfy_pending_recv`. -/
def satisfyRecv (socketIdx : ℕ) (n : Netd) (i : ℕ) (pr : PendingRecv) : Netd :=
  if pr.socketIdx ≠ socketIdx then n else
  let conn := n.conns socketIdx
  if conn.ring.bytes = 0 ∧ !conn.peerFin then n else
  let (buf, n) := takeChunk n socketIdx pr.maxBytes
  let n := if buf.length = 0 ∧ conn.peerFin then
      tcpSendRecvResp n pr.clientIdx pr.reqSeq (-32) [] conn.peerFin
    else tcpSendRecvResp n pr.clientIdx pr.reqSeq 0 buf conn.peerFin
  n.setRecv i none

def tcpSatisfyPendingRecv (socketIdx : ℕ) : Netd :=
  forSlots Netd.recvs (satisfyRecv socketIdx) (List.range netdMaxPendingTcpRecv) n

/-- Where `rx_tcp` puts the payload into the ring. Both branches ask whether `rcv_nxt`, as the
machine has left it, is the end of the segment. -/
def stash (idx : ℕ) (pkt : TcpParsed) : Netd :=
  let sock := n.sockets idx
  if 0 < pkt.payload.length ∧ pkt.seq = sock.irs + 1 then
    if sock.rcvNxt = pkt.seq + pkt.payloadLen then n.pushRing idx pkt.payload else n
  else if 0 < pkt.payload.length ∧ sock.rcvNxt = pkt.seq + pkt.payloadLen then
    n.pushRing idx pkt.payload
  else n

/-- `rx_tcp` once the socket is found. -/
def rxSocket (idx : ℕ) (pkt : TcpParsed) (nowTsc : UInt64) : Netd :=
  let prevState := (n.sockets idx).state
  let (sock, resp) := netdTcpOnSegment (n.sockets idx) pkt nowTsc netdTicksPerSec
  let n := (n.setSocket idx sock).transmit resp
  let n := stash n idx pkt
  let n := if pkt.has tcpFlagFin then n.setConn idx { n.conns idx with peerFin := true } else n
  let n := if sock.state ≠ prevState then tcpOnSocketStateChange n idx else n
  tcpSatisfyPendingRecv n idx

/-- `rx_tcp` for a segment from `src` to `dst` that has passed the parser. -/
def rxTcp (src dst : UInt32) (pkt : TcpParsed) (nowTsc : UInt64) : Netd :=
  (netdTcpFindEstablished n dst pkt.dstPort src pkt.srcPort).elim n fun idx =>
    if (n.conns idx).inUse then rxSocket n idx pkt nowTsc else n

/-- `libnet_tcp_recv_req_t`. -/
structure RecvRequest where
  seq : UInt32
  cookie : UInt32
  maxBytes : ℕ
  timeoutMs : UInt32

/-- `handle_tcp_recv` for the client in slot `c`. -/
def handleTcpRecv (c : ℕ) (req : RecvRequest) (nowTsc : UInt64) : Netd :=
  match findSocketByCookie n req.cookie with
  | none => n.respond c (.errorResp c req.seq (-9))
  | some idx =>
    let conn := n.conns idx
    if 0 < conn.ring.bytes then
      let (buf, n) := takeChunk n idx req.maxBytes
      tcpSendRecvResp n c req.seq 0 buf conn.peerFin
    else if conn.peerFin then tcpSendRecvResp n c req.seq (-32) [] conn.peerFin
    else if req.timeoutMs = 0 then tcpSendRecvResp n c req.seq (-11) [] conn.peerFin
    else
      match (List.range netdMaxPendingTcpRecv).find? fun i => (n.recvs i).isNone with
      | none => n.respond c (.errorResp c req.seq (-11))
      | some i => n.setRecv i (some {
          clientIdx := c
          socketIdx := idx
          reqSeq := req.seq
          maxBytes := chunkCap req.maxBytes
          deadlineTsc := nowTsc + req.timeoutMs.toUInt64 * (netdTicksPerSec / 1000) })

/-- `clients_dispatch_tick` reads requests of clients that are in use. -/
def clientRecv (c : ℕ) (req : RecvRequest) (nowTsc : UInt64) : Netd :=
  if (n.clients c).isSome then handleTcpRecv n c req nowTsc else n

/-- The body of the last loop of `tcp_tick`: a reception whose deadline has passed. -/
def expireRecv (nowTsc : UInt64) (n : Netd) (i : ℕ) (pr : PendingRecv) : Netd :=
  if 2 ^ 63 ≤ (nowTsc - pr.deadlineTsc).toNat then n
  else (tcpSendRecvResp n pr.clientIdx pr.reqSeq (-110) [] false).setRecv i none

def expireRecvs (nowTsc : UInt64) : Netd :=
  forSlots Netd.recvs (expireRecv nowTsc) (List.range netdMaxPendingTcpRecv) n

/-- `netd_tcp_socket_alloc`: the first free slot, for a cookie that is not zero. -/
def netdTcpSocketAlloc (cookie : UInt32) : Option ℕ :=
  if cookie = 0 then none else
  (List.range tcpMaxSockets).find? fun i => (n.sockets i).ownerCookie = 0

/-- The socket in a slot that has just been allocated. -/
def allocatedSocket (cookie : UInt32) : TcpSocket :=
  { ownerCookie := cookie, rcvWnd := tcpDefaultWindow, mss := tcpDefaultMss }

/-- Give a socket and its connection back. -/
def dropConnection (i : ℕ) : Netd :=
  (n.setConn i { n.conns i with inUse := false }).setSocket i {}

/-- `libnet_tcp_open_req_t`. -/
structure OpenRequest where
  seq : UInt32
  dstIp : UInt32
  dstPort : UInt16
  timeoutMs : UInt32

/-- What `handle_tcp_open` takes from its surroundings: the local port and the initial sequence
number are random. -/
structure OpenEnv where
  localPort : UInt16
  iss : UInt32
  nowTsc : UInt64

/-- The next cookie; zero is left out. -/
def takeCookie : UInt32 × Netd :=
  if n.cookieSeed = 0 then (n.cookieSeed + 1, { n with cookieSeed := n.cookieSeed + 2 })
  else (n.cookieSeed, { n with cookieSeed := n.cookieSeed + 1 })

/-- The connection in slot `idx` for client `c`, with its socket on the way to open. -/
def startConnection (c idx : ℕ) (cookie : UInt32) (req : OpenRequest) (env : OpenEnv) : Netd :=
  let sock := { allocatedSocket cookie with
    localIp := n.ip
    localPort := env.localPort
    remoteIp := req.dstIp
    remotePort := req.dstPort }
  let n := n.setConn idx ⟨true, false, false, c, cookie, RxRing.empty⟩
  match netdTcpConnect sock env.iss tcpDefaultRtoMs env.nowTsc netdTicksPerSec with
  | none => (dropConnection n idx).respond c (.errorResp c req.seq (-2))
  | some (sock, syn) =>
    let n := (n.setSocket idx sock).transmit (some syn)
    match (List.range netdMaxPendingTcpOpen).find? fun i => (n.opens i).isNone with
    | none => (dropConnection n idx).respond c (.errorResp c req.seq (-11))
    | some i => n.setOpen i (some {
        clientIdx := c
        socketIdx := idx
        reqSeq := req.seq
        deadlineTsc := env.nowTsc +
          (if req.timeoutMs = 0 then 10000 else req.timeoutMs).toUInt64 *
            (netdTicksPerSec / 1000) })

/-- `handle_tcp_open` for the client in slot `c`. -/
def handleTcpOpen (c : ℕ) (req : OpenRequest) (env : OpenEnv) : Netd :=
  if !n.stackRunning then n.respond c (.errorResp c req.seq (-101)) else
  if req.dstPort = 0 then n.respond c (.errorResp c req.seq (-5)) else
  let (cookie, n) := takeCookie n
  match netdTcpSocketAlloc n cookie with
  | none => n.respond c (.errorResp c req.seq (-11))
  | some idx => startConnection n c idx cookie req env

/-- `tcp_emit_segment`, without what becomes of the segment below IP. -/
def dataSegment (sock : TcpSocket) (payload : List UInt8) : TcpSegment :=
  { emitCtrl sock (tcpFlagAck ||| tcpFlagPsh) 0 with payload := payload }

/-- `handle_tcp_send`; `txStatus` is the result of the transmission. -/
def handleTcpSend (c : ℕ) (seq cookie : UInt32) (payload : List UInt8) (txStatus : ℤ) : Netd :=
  match findSocketByCookie n cookie with
  | none => n.respond c (.sendResp c seq (-9) 0)
  | some idx =>
    let sock := n.sockets idx
    if sock.state ≠ .established ∧ sock.state ≠ .closeWait then
      n.respond c (.sendResp c seq (-107) 0)
    else if payload.length = 0 ∨ libnetTcpChunkMax < payload.length then
      n.respond c (.sendResp c seq (-5) 0)
    else if txStatus < 0 then n.respond c (.sendResp c seq txStatus 0)
    else
      let n := (n.transmit (some (dataSegment sock payload))).setSocket idx
        { sock with sndNxt := sock.sndNxt + UInt32.ofNat payload.length }
      n.respond c (.sendResp c seq 0 payload.length)

/-- `handle_tcp_close`. The connection stays until its socket is closed. -/
def handleTcpClose (c : ℕ) (seq cookie : UInt32) : Netd :=
  match findSocketByCookie n cookie with
  | none => n.respond c (.closeResp c seq (-9))
  | some idx =>
    let n := match netdTcpClose (n.sockets idx) with
      | none => n
      | some (sock, fin) => ((n.setSocket idx sock).transmit (some fin)).setConn idx
          { n.conns idx with closeSent := true }
    n.respond c (.closeResp c seq 0)

/-- The body of the first loop of `tcp_tick`. -/
def tickSocket (nowTsc : UInt64) (n : Netd) (i : ℕ) : Netd :=
  if !(n.conns i).inUse then n else
  let prevState := (n.sockets i).state
  let (sock, retx) := netdTcpTick (n.sockets i) nowTsc netdTicksPerSec
  let n := (n.setSocket i sock).transmit retx
  let n := if sock.state ≠ prevState then tcpOnSocketStateChange n i else n
  if (n.sockets i).state = .closed ∧ (n.sockets i).ownerCookie ≠ 0 then dropConnection n i else n

/-- The body of the second loop of `tcp_tick`: an open whose deadline has passed. -/
def expireOpen (nowTsc : UInt64) (n : Netd) (i : ℕ) (po : PendingOpen) : Netd :=
  if 2 ^ 63 ≤ (nowTsc - po.deadlineTsc).toNat then n else
  (dropConnection (tcpSendOpenResp n none po.clientIdx po.reqSeq (-110)) po.socketIdx).setOpen
    i none

def tcpTick (nowTsc : UInt64) : Netd :=
  let n := (List.range tcpMaxSockets).foldl (tickSocket nowTsc) n
  let n := forSlots Netd.opens (expireOpen nowTsc) (List.range netdMaxPendingTcpOpen) n
  expireRecvs n nowTsc

def findFreeClientSlot : Option ℕ :=
  (List.range netdMaxClients).find? fun i => (n.clients i).isNone

/-- `service_accept_tick` for one session that connects. -/
def serviceAccept (session : ℕ) : Netd :=
  match findFreeClientSlot n with
  | none => n
  | some slot => { n with clients := Function.update n.clients slot (some session) }

/-- `client_release`: nothing but the slot is cleared. -/
def clientRelease (c : ℕ) : Netd :=
  { n with clients := Function.update n.clients c none }

end GrahaOS.NetdTcp
