import Mathlib.Tactic

/-!
# The TCP state machine of the network daemon

`user/netd_tcp.c`: the eleven states of a socket, what an incoming segment does to them, and the
opening and closing operations. Sequence numbers are 32-bit and wrap around. Segments are records of
the fields that are written to or read from the wire. The buffers for answers are always large
enough, so an answer is a record or nothing.
-/

namespace GrahaOS.TcpMachine

def tcpFlagFin : UInt8 := 0x01
def tcpFlagSyn : UInt8 := 0x02
def tcpFlagRst : UInt8 := 0x04
def tcpFlagPsh : UInt8 := 0x08
def tcpFlagAck : UInt8 := 0x10

def tcpDefaultMss : UInt16 := 1460
def tcpDefaultWindow : UInt32 := 8192
def tcpDefaultRtoMs : UInt32 := 1000
def tcpMaxRtoMs : UInt32 := 60000
def tcpTimeWaitMs : UInt32 := 120000

inductive TcpState where
  | closed
  | listen
  | synSent
  | synRcvd
  | established
  | finWait1
  | finWait2
  | closing
  | closeWait
  | lastAck
  | timeWait
  deriving DecidableEq

/-- `tcp_socket_t`. -/
structure TcpSocket where
  state : TcpState := .closed
  localPort : UInt16 := 0
  remotePort : UInt16 := 0
  localIp : UInt32 := 0
  remoteIp : UInt32 := 0
  sndUna : UInt32 := 0
  sndNxt : UInt32 := 0
  sndWnd : UInt32 := 0
  iss : UInt32 := 0
  rcvNxt : UInt32 := 0
  rcvWnd : UInt32 := 0
  irs : UInt32 := 0
  cwnd : UInt32 := 0
  ssthresh : UInt32 := 0
  mss : UInt16 := 0
  dupAcks : UInt8 := 0
  rtoMs : UInt32 := 0
  retxExpiryTsc : UInt64 := 0
  timeWaitExpiryTsc : UInt64 := 0
  ownerCookie : UInt32 := 0
  deriving DecidableEq

/-- `tcp_parsed_t`: a segment that has passed the parser. -/
structure TcpParsed where
  srcPort : UInt16
  dstPort : UInt16
  seq : UInt32
  ack : UInt32
  flags : UInt8
  window : UInt16
  payload : List UInt8
  optMss : UInt16
  deriving DecidableEq

/-- The arguments of `netd_tcp_build`: a segment to send. -/
structure TcpSegment where
  srcIp : UInt32
  dstIp : UInt32
  srcPort : UInt16
  dstPort : UInt16
  seq : UInt32
  ack : UInt32
  flags : UInt8
  window : UInt16
  mssOpt : UInt16
  payload : List UInt8
  deriving DecidableEq

/-- The segment has the flag set. -/
def TcpParsed.has (pkt : TcpParsed) (flag : UInt8) : Bool := pkt.flags &&& flag ≠ 0

/-- The length of the payload as it enters sequence arithmetic. -/
def TcpParsed.payloadLen (pkt : TcpParsed) : UInt32 := UInt32.ofNat pkt.payload.length

/-- `seq_cmp`: serial comparison of sequence numbers by the sign of their difference. -/
def seqCmp (a b : UInt32) : ℤ :=
  if 2 ^ 31 ≤ (a - b).toNat then -1 else if a - b = 0 then 0 else 1

/-- `ms_to_tsc`. The result is cut to 32 bits. -/
def msToTsc (ticksPerSec : UInt64) (ms : UInt32) : UInt32 :=
  if ticksPerSec = 0 then 0 else (ticksPerSec * ms.toUInt64 / 1000).toUInt32

variable (sock : TcpSocket)

/-- `emit_ctrl`: a segment without payload at the current position. -/
def emitCtrl (flags : UInt8) (mssOpt : UInt16) : TcpSegment where
  srcIp := sock.localIp
  dstIp := sock.remoteIp
  srcPort := sock.localPort
  dstPort := sock.remotePort
  seq := sock.sndNxt
  ack := sock.rcvNxt
  flags := flags
  window := sock.rcvWnd.toUInt16
  mssOpt := mssOpt
  payload := []

/-- `emit_rst` with the addresses of a socket. -/
def emitRst (ack : UInt32) : TcpSegment where
  srcIp := sock.localIp
  dstIp := sock.remoteIp
  srcPort := sock.localPort
  dstPort := sock.remotePort
  seq := 0
  ack := ack
  flags := tcpFlagRst ||| tcpFlagAck
  window := 0
  mssOpt := 0
  payload := []

/-- `netd_tcp_connect`: the socket and the SYN, or nothing where it is refused. -/
def netdTcpConnect (iss : UInt32) (initialRtoMs : UInt32)
    (nowTsc ticksPerSec : UInt64) : Option (TcpSocket × TcpSegment) :=
  if sock.state ≠ .closed then none else
  let rtoMs := if initialRtoMs = 0 then tcpDefaultRtoMs else initialRtoMs
  let sock := { sock with
    iss := iss
    sndUna := iss
    sndNxt := iss + 1
    sndWnd := 0
    cwnd := if sock.mss ≠ 0 then sock.mss.toUInt32 else tcpDefaultMss.toUInt32
    ssthresh := 0xFFFF
    rtoMs := rtoMs
    dupAcks := 0
    state := .synSent
    retxExpiryTsc := nowTsc + (msToTsc ticksPerSec rtoMs).toUInt64
    timeWaitExpiryTsc := 0 }
  some (sock, { emitCtrl sock tcpFlagSyn sock.mss with seq := iss, ack := 0 })

def netdTcpListen (localIp : UInt32) (localPort : UInt16) : Option TcpSocket :=
  if sock.state ≠ .closed then none else
  some { sock with
    state := .listen
    localIp := localIp
    localPort := localPort
    remoteIp := 0
    remotePort := 0
    rcvWnd := tcpDefaultWindow
    mss := tcpDefaultMss }

/-- The smaller of the segment's MSS option, where there is one, and the socket's. -/
def takeMss (pkt : TcpParsed) : TcpSocket :=
  if pkt.optMss ≠ 0 ∧ pkt.optMss < sock.mss then { sock with mss := pkt.optMss } else sock

/-- Answer of a listening socket. The remote address is left to the caller, and takes the
value of a port on the way. -/
def onListen (pkt : TcpParsed) (nowTsc ticksPerSec : UInt64) : TcpSocket × Option TcpSegment :=
  if !pkt.has tcpFlagSyn then (sock, none) else
  let sock := takeMss { sock with
    remoteIp := pkt.dstPort.toUInt32
    remotePort := pkt.srcPort
    irs := pkt.seq
    rcvNxt := pkt.seq + 1
    iss := nowTsc.toUInt32
    sndUna := nowTsc.toUInt32
    sndNxt := nowTsc.toUInt32 + 1
    sndWnd := pkt.window.toUInt32 } pkt
  let sock := { sock with
    cwnd := sock.mss.toUInt32
    ssthresh := 0xFFFF
    rtoMs := tcpDefaultRtoMs
    retxExpiryTsc := nowTsc + (msToTsc ticksPerSec tcpDefaultRtoMs).toUInt64
    state := .synRcvd }
  (sock, some (emitCtrl sock (tcpFlagSyn ||| tcpFlagAck) sock.mss))

def onSynSent (pkt : TcpParsed) : TcpSocket × Option TcpSegment :=
  if !pkt.has tcpFlagSyn || !pkt.has tcpFlagAck then (sock, none) else
  if pkt.ack ≠ sock.iss + 1 then (sock, none) else
  let sock := takeMss { sock with
    irs := pkt.seq
    rcvNxt := pkt.seq + 1
    sndUna := pkt.ack
    sndWnd := pkt.window.toUInt32 } pkt
  let sock := { sock with
    cwnd := 2 * sock.mss.toUInt32
    retxExpiryTsc := 0
    state := .established }
  (sock, some (emitCtrl sock tcpFlagAck 0))

def onSynRcvd (pkt : TcpParsed) : TcpSocket × Option TcpSegment :=
  if !pkt.has tcpFlagAck then (sock, none) else
  if pkt.ack ≠ sock.iss + 1 then (sock, none) else
  ({ sock with
    sndUna := pkt.ack
    sndWnd := pkt.window.toUInt32
    retxExpiryTsc := 0
    state := .established }, none)

/-- The acknowledgement in a segment: the send window and the congestion window. -/
def takeAck (pkt : TcpParsed) : TcpSocket :=
  if !pkt.has tcpFlagAck then sock else
  if 0 < seqCmp pkt.ack sock.sndUna ∧ seqCmp pkt.ack sock.sndNxt ≤ 0 then
    { sock with
      sndUna := pkt.ack
      dupAcks := 0
      cwnd :=
        if sock.cwnd < sock.ssthresh then sock.cwnd + sock.mss.toUInt32
        else if 0 < sock.cwnd then
          sock.cwnd + sock.mss.toUInt32 * sock.mss.toUInt32 / sock.cwnd
        else sock.cwnd }
  else if pkt.ack = sock.sndUna ∧ pkt.payload.length = 0 then
    if sock.dupAcks < 255 then { sock with dupAcks := sock.dupAcks + 1 } else sock
  else sock

/-- Only a payload that starts at `rcv_nxt` is accepted; every payload is answered. -/
def takeData (pkt : TcpParsed) : TcpSocket × Option TcpSegment :=
  if 0 < pkt.payload.length then
    let sock := if pkt.seq = sock.rcvNxt then
      { sock with rcvNxt := sock.rcvNxt + pkt.payloadLen } else sock
    (sock, some (emitCtrl sock tcpFlagAck 0))
  else (sock, none)

/-- The FIN is taken wherever it stands in the sequence. -/
def onEstablished (pkt : TcpParsed) : TcpSocket × Option TcpSegment :=
  let r := takeData (takeAck sock pkt) pkt
  if pkt.has tcpFlagFin then
    let sock := { r.1 with rcvNxt := r.1.rcvNxt + 1, state := .closeWait }
    (sock, some (emitCtrl sock tcpFlagAck 0))
  else r

/-- The transition to `TIME_WAIT` and its timer. -/
def enterTimeWait (nowTsc ticksPerSec : UInt64) : TcpSocket :=
  { sock with
    state := .timeWait
    timeWaitExpiryTsc := nowTsc + (msToTsc ticksPerSec tcpTimeWaitMs).toUInt64 }

def onFinWait1 (pkt : TcpParsed) (nowTsc ticksPerSec : UInt64) : TcpSocket × Option TcpSegment :=
  let sock := if pkt.has tcpFlagAck ∧ pkt.ack = sock.sndNxt then
    { sock with sndUna := pkt.ack, state := .finWait2 } else sock
  if pkt.has tcpFlagFin then
    let sock := { sock with rcvNxt := sock.rcvNxt + 1 }
    let sock := if sock.state = .finWait2 then enterTimeWait sock nowTsc ticksPerSec
      else { sock with state := .closing }
    (sock, some (emitCtrl sock tcpFlagAck 0))
  else (sock, none)

def onFinWait2 (pkt : TcpParsed) (nowTsc ticksPerSec : UInt64) : TcpSocket × Option TcpSegment :=
  if pkt.has tcpFlagFin then
    let sock := enterTimeWait { sock with rcvNxt := sock.rcvNxt + 1 } nowTsc ticksPerSec
    (sock, some (emitCtrl sock tcpFlagAck 0))
  else (sock, none)

def onClosing (pkt : TcpParsed) (nowTsc ticksPerSec : UInt64) : TcpSocket × Option TcpSegment :=
  if pkt.has tcpFlagAck ∧ pkt.ack = sock.sndNxt then
    (enterTimeWait { sock with sndUna := pkt.ack } nowTsc ticksPerSec, none)
  else (sock, none)

def onLastAck (pkt : TcpParsed) : TcpSocket × Option TcpSegment :=
  if pkt.has tcpFlagAck ∧ pkt.ack = sock.sndNxt then ({ sock with state := .closed }, none)
  else (sock, none)

/-- Every segment restarts the timer. -/
def onTimeWait (pkt : TcpParsed) (nowTsc ticksPerSec : UInt64) : TcpSocket × Option TcpSegment :=
  let sock := enterTimeWait sock nowTsc ticksPerSec
  (sock, if pkt.has tcpFlagFin then some (emitCtrl sock tcpFlagAck 0) else none)

/-- The default branch of the switch, which is taken in `CLOSED` and also in `CLOSE_WAIT`. -/
def onOther (pkt : TcpParsed) : TcpSocket × Option TcpSegment :=
  if pkt.has tcpFlagRst then (sock, none) else
  (sock, some (emitRst sock (pkt.seq + pkt.payloadLen +
    (if pkt.has tcpFlagSyn then 1 else 0) + (if pkt.has tcpFlagFin then 1 else 0))))

/-- `netd_tcp_on_segment`: the socket and the answer. A reset is honoured at `rcv_nxt` exactly;
a socket that listens treats it as any other segment. -/
def netdTcpOnSegment (pkt : TcpParsed) (nowTsc ticksPerSec : UInt64) :
    TcpSocket × Option TcpSegment :=
  if pkt.has tcpFlagRst ∧ sock.state ≠ .listen ∧ sock.state ≠ .synSent then
    if pkt.seq = sock.rcvNxt then ({ sock with state := .closed }, none) else (sock, none)
  else if pkt.has tcpFlagRst ∧ sock.state = .synSent then
    if pkt.has tcpFlagAck ∧ pkt.ack = sock.sndNxt then ({ sock with state := .closed }, none)
    else (sock, none)
  else
    match sock.state with
    | .listen => onListen sock pkt nowTsc ticksPerSec
    | .synSent => onSynSent sock pkt
    | .synRcvd => onSynRcvd sock pkt
    | .established => onEstablished sock pkt
    | .finWait1 => onFinWait1 sock pkt nowTsc ticksPerSec
    | .finWait2 => onFinWait2 sock pkt nowTsc ticksPerSec
    | .closing => onClosing sock pkt nowTsc ticksPerSec
    | .lastAck => onLastAck sock pkt
    | .timeWait => onTimeWait sock pkt nowTsc ticksPerSec
    | .closed | .closeWait => onOther sock pkt

/-- The FIN of `netd_tcp_close`. -/
def sendFin (state : TcpState) : TcpSocket × TcpSegment :=
  ({ sock with state := state, sndNxt := sock.sndNxt + 1 },
    emitCtrl sock (tcpFlagFin ||| tcpFlagAck) 0)

/-- `netd_tcp_close`: the socket and the FIN, or nothing where none is legal. -/
def netdTcpClose : Option (TcpSocket × TcpSegment) :=
  match sock.state with
  | .established => some (sendFin sock .finWait1)
  | .closeWait => some (sendFin sock .lastAck)
  | _ => none

/-- `netd_tcp_tick`: the end of `TIME_WAIT`, and retransmission during the handshake. -/
def netdTcpTick (nowTsc ticksPerSec : UInt64) : TcpSocket × Option TcpSegment :=
  if sock.state = .timeWait then
    (if sock.timeWaitExpiryTsc ≤ nowTsc then { sock with state := .closed } else sock, none)
  else if sock.retxExpiryTsc ≠ 0 ∧ sock.retxExpiryTsc ≤ nowTsc then
    let newRto := if tcpMaxRtoMs < sock.rtoMs * 2 then tcpMaxRtoMs else sock.rtoMs * 2
    let sock := { sock with
      rtoMs := newRto
      retxExpiryTsc := nowTsc + (msToTsc ticksPerSec newRto).toUInt64 }
    (sock,
      match sock.state with
      | .synSent => some { emitCtrl sock tcpFlagSyn sock.mss with seq := sock.iss, ack := 0 }
      | .synRcvd => some { emitCtrl sock (tcpFlagSyn ||| tcpFlagAck) sock.mss with
          seq := sock.iss }
      | _ => none)
  else (sock, none)

end GrahaOS.TcpMachine
