import GrahaOS.TcpStream

/-!
# Runs of a socket

A socket goes through calls that open, close and tick it, and segments arrive in between. Three
laws are about such runs: when resets are sent and obeyed, what moves `rcv_nxt`, and how early the
timers fire.
-/

namespace GrahaOS.SocketRuns

open Runs TcpMachine TcpStream

inductive SocketOp where
  | connect (iss initialRtoMs : UInt32) (nowTsc : UInt64)
  | listen (localIp : UInt32) (localPort : UInt16)
  | segment (pkt : TcpParsed) (nowTsc : UInt64)
  | close
  | tick (nowTsc : UInt64)

/-- A call that is refused leaves the socket as it is. -/
def step (ticksPerSec : UInt64) (sock : TcpSocket) : SocketOp → TcpSocket
  | .connect iss rto nowTsc => ((netdTcpConnect sock iss rto nowTsc ticksPerSec).map (·.1)).getD sock
  | .listen localIp localPort => (netdTcpListen sock localIp localPort).getD sock
  | .segment pkt nowTsc => (netdTcpOnSegment sock pkt nowTsc ticksPerSec).1
  | .close => ((netdTcpClose sock).map (·.1)).getD sock
  | .tick nowTsc => (netdTcpTick sock nowTsc ticksPerSec).1

variable {sock : TcpSocket} {pkt : TcpParsed} {ticksPerSec nowTsc : UInt64}

/-- Both ends know of the connection, or are about to. -/
def Synchronized (state : TcpState) : Prop :=
  state ≠ .closed ∧ state ≠ .listen ∧ state ≠ .synSent

/-- A segment is answered with a reset in `CLOSED` only, `CLOSE_WAIT` is left by a close or by a
reset at `rcv_nxt`, and no other reset has an effect on a connection. -/
def ResetLaw (ticksPerSec : UInt64) (sock : TcpSocket) : SocketOp → Prop
  | .segment pkt nowTsc =>
    (∀ resp ∈ (netdTcpOnSegment sock pkt nowTsc ticksPerSec).2,
      resp.flags &&& tcpFlagRst ≠ 0 → sock.state = .closed) ∧
    (sock.state = .closeWait →
      (netdTcpOnSegment sock pkt nowTsc ticksPerSec).1.state ≠ .closeWait →
        pkt.has tcpFlagRst ∧ pkt.seq = sock.rcvNxt) ∧
    (Synchronized sock.state → pkt.has tcpFlagRst → pkt.seq ≠ sock.rcvNxt →
      netdTcpOnSegment sock pkt nowTsc ticksPerSec = (sock, none))
  | .close => True
  | op => sock.state = .closeWait → (step ticksPerSec sock op).state = .closeWait

/-- Nothing but resets arrives in `CLOSE_WAIT`. -/
def OnlyResets (sock : TcpSocket) : SocketOp → Prop
  | .segment pkt _ => sock.state = .closeWait → pkt.has tcpFlagRst
  | _ => True

/-- Resets are sent in the default branch of the switch. -/
lemma reset_answer {resp : TcpSegment}
    (h : resp ∈ (netdTcpOnSegment sock pkt nowTsc ticksPerSec).2)
    (hreset : resp.flags &&& tcpFlagRst ≠ 0) :
    ¬ pkt.has tcpFlagRst ∧ (sock.state = .closed ∨ sock.state = .closeWait) := by
  have hctrl : ∀ {s flags mss}, flags &&& tcpFlagRst = 0 → resp ∉ some (emitCtrl s flags mss) := by
    rintro s flags mss hflags ⟨⟩
    exact hreset hflags
  rw [netdTcpOnSegment] at h
  split_ifs at h with hno
  · cases h
  · cases h
  · cases h
  · cases h
  -- the other branches acknowledge or say nothing
  split at h
  · rw [onListen] at h
    split_ifs at h <;> first | exact absurd h (hctrl (by decide)) | cases h
  · rw [onSynSent] at h
    split_ifs at h <;> first | exact absurd h (hctrl (by decide)) | cases h
  · rw [onSynRcvd] at h
    split_ifs at h <;> cases h
  · rw [onEstablished, takeData] at h
    split_ifs at h <;> first | exact absurd h (hctrl (by decide)) | cases h
  · rw [onFinWait1] at h
    split_ifs at h <;> first | exact absurd h (hctrl (by decide)) | cases h
  · rw [onFinWait2] at h
    split_ifs at h <;> first | exact absurd h (hctrl (by decide)) | cases h
  · rw [onClosing] at h
    split_ifs at h <;> cases h
  · rw [onLastAck] at h
    split_ifs at h <;> cases h
  · rw [onTimeWait] at h
    split_ifs at h <;> first | exact absurd h (hctrl (by decide)) | cases h
  · rename_i hst
    exact ⟨fun hrst => hno ⟨hrst, by simp [hst]⟩, .inl hst⟩
  · rename_i hst
    exact ⟨fun hrst => hno ⟨hrst, by simp [hst]⟩, .inr hst⟩

lemma onSegment_reset (hsync : Synchronized sock.state) (hrst : pkt.has tcpFlagRst)
    (hseq : pkt.seq ≠ sock.rcvNxt) :
    netdTcpOnSegment sock pkt nowTsc ticksPerSec = (sock, none) := by
  rw [netdTcpOnSegment, if_pos ⟨hrst, hsync.2⟩, if_neg hseq]

lemma resetLaw_iff (op : SocketOp) : ResetLaw ticksPerSec sock op ↔ OnlyResets sock op := by
  cases op with
  | connect iss rto nowTsc =>
    refine iff_of_true (fun hst => ?_) trivial
    simp [step, netdTcpConnect, hst]
  | listen localIp localPort =>
    refine iff_of_true (fun hst => ?_) trivial
    simp [step, netdTcpListen, hst]
  | close => exact Iff.rfl
  | tick nowTsc =>
    refine iff_of_true (fun hst => ?_) trivial
    rw [step, netdTcpTick, if_neg (by simp [hst])]
    split_ifs <;> exact hst
  | segment pkt nowTsc =>
  constructor
  · rintro ⟨hsent, -, -⟩ hst
    by_contra hrst
    have hanswer : (netdTcpOnSegment sock pkt nowTsc ticksPerSec).2 = (onOther sock pkt).2 := by
      simp [netdTcpOnSegment, hst, hrst]
    rw [onOther, if_neg hrst] at hanswer
    have hclosed := hsent _ hanswer (show (tcpFlagRst ||| tcpFlagAck) &&& tcpFlagRst ≠ 0 by decide)
    rw [hst] at hclosed
    cases hclosed
  · intro honly
    refine ⟨fun resp hresp hreset => ?_, fun hst hleft => ?_, onSegment_reset⟩
    · obtain ⟨hrst, hclosed | hwait⟩ := reset_answer hresp hreset
      · exact hclosed
      · exact absurd (honly hwait) hrst
    · refine ⟨honly hst, ?_⟩
      by_contra hseq
      rw [onSegment_reset (by simp [Synchronized, hst]) (honly hst) hseq] at hleft
      exact hleft hst

/-- The law holds along a run exactly if nothing but resets arrives in `CLOSE_WAIT`: any other
segment is answered there with a reset. -/
theorem resets_are_lawful_iff (ticksPerSec : UInt64) (sock : TcpSocket) (ops : List SocketOp) :
    Guarded (step ticksPerSec) (ResetLaw ticksPerSec) sock ops ↔
      Guarded (step ticksPerSec) OnlyResets sock ops := by
  have hlaw : ResetLaw ticksPerSec = OnlyResets := by
    funext sock op
    exact propext (resetLaw_iff op)
  rw [hlaw]

/-- A segment of the peer with the given flags. -/
def peer (seq : UInt32) (flags : UInt8) (payload : List UInt8) : TcpParsed :=
  ⟨80, 40000, seq, 8, flags, 1000, payload, 0⟩

/-- The handshake of a client whose initial sequence number is 7; that of the peer is 99. -/
def handshake : List SocketOp :=
  [.connect 7 0 0, .segment (peer 99 (tcpFlagSyn ||| tcpFlagAck) []) 0]

/-- After the peer's FIN, an acknowledgement is answered with a reset. -/
theorem close_wait_answers_with_reset :
    let ops := handshake ++ [.segment (peer 100 (tcpFlagFin ||| tcpFlagAck) []) 0]
    (run (step 1000) {} ops).state = .closeWait ∧
      ((netdTcpOnSegment (run (step 1000) {} ops) (peer 101 tcpFlagAck []) 0 1000).2.map
        (·.flags)) = some (tcpFlagRst ||| tcpFlagAck) ∧
      ¬ Guarded (step 1000) (ResetLaw 1000) {} (ops ++ [.segment (peer 101 tcpFlagAck []) 0]) := by
  refine ⟨by decide, by decide, fun h => ?_⟩
  obtain ⟨-, hlaw, -⟩ := (guarded_append _ _).mp h
  exact absurd ((resetLaw_iff _).mp hlaw (by decide)) (by decide)

/-- A socket with the payload that it has taken since the peer's SYN, and whether it has taken a
FIN at the end of it. -/
structure Receiver where
  sock : TcpSocket
  stream : List UInt8 := []
  fin : Bool := false

/-- The sequence number of what follows the stream. -/
def position (irs : UInt32) (stream : List UInt8) : UInt32 := irs + 1 + UInt32.ofNat stream.length

/-- The states in which the machine takes a FIN. -/
def takesFin (state : TcpState) : Prop :=
  state = .established ∨ state = .finWait1 ∨ state = .finWait2

instance (state : TcpState) : Decidable (takesFin state) := inferInstanceAs (Decidable (_ ∨ _ ∨ _))

/-- Payload is taken in `ESTABLISHED`, if it starts where the stream ends. -/
def Receiver.takes (x : Receiver) (pkt : TcpParsed) : List UInt8 :=
  if x.sock.state = .established ∧ pkt.seq = position x.sock.irs x.stream then
    x.stream ++ pkt.payload
  else x.stream

/-- The stream starts with the peer's SYN, and a FIN counts if it stands at the end. -/
def receive (ticksPerSec : UInt64) (x : Receiver) (op : SocketOp) : Receiver :=
  let sock := step ticksPerSec x.sock op
  match op with
  | .segment pkt _ =>
    if x.sock.state = .listen ∨ x.sock.state = .synSent then ⟨sock, [], false⟩
    else if pkt.has tcpFlagRst ∨ ¬ takesFin x.sock.state then { x with sock := sock }
    else ⟨sock, x.takes pkt, pkt.has tcpFlagFin &&
      pkt.seq + pkt.payloadLen = position x.sock.irs (x.takes pkt)⟩
  | _ => { x with sock := sock }

/-- A FIN that is taken stands at `rcv_nxt`, where the payload has moved it. -/
def InOrder (x : Receiver) : SocketOp → Prop
  | .segment pkt _ => takesFin x.sock.state → ¬ pkt.has tcpFlagRst → pkt.has tcpFlagFin →
    pkt.seq + pkt.payloadLen = x.sock.rcvNxt +
      if x.sock.state = .established then UInt32.ofNat (accepted x.sock pkt) else 0
  | _ => True

/-- The states after the peer's FIN. -/
def finTaken : TcpState → Bool
  | .closeWait | .lastAck | .closing | .timeWait => true
  | _ => false

def Contiguous (x : Receiver) : Prop :=
  Synchronized x.sock.state → x.fin = finTaken x.sock.state ∧
    x.sock.rcvNxt = position x.sock.irs x.stream + if x.fin then 1 else 0

lemma Contiguous.keeps {x : Receiver} (h : Contiguous x)
    (hsock : Synchronized sock.state → Synchronized x.sock.state ∧
      finTaken sock.state = finTaken x.sock.state ∧ sock.rcvNxt = x.sock.rcvNxt ∧
      sock.irs = x.sock.irs) : Contiguous { x with sock := sock } := by
  intro hsync
  obtain ⟨hold, hfin, hnxt, hirs⟩ := hsock hsync
  rw [hfin, hnxt, hirs]
  exact h hold

lemma onSegment_opens (hst : sock.state = .listen ∨ sock.state = .synSent) :
    Contiguous ⟨(netdTcpOnSegment sock pkt nowTsc ticksPerSec).1, [], false⟩ := by
  intro hsync
  dsimp only at hsync ⊢
  have htake : ∀ s : TcpSocket, (takeMss s pkt).rcvNxt = s.rcvNxt ∧ (takeMss s pkt).irs = s.irs := by
    intro s
    rw [takeMss]
    split_ifs <;> exact ⟨rfl, rfl⟩
  rw [netdTcpOnSegment] at hsync ⊢
  rcases hst with hst | hst
  · simp only [hst, onListen] at hsync ⊢
    split_ifs at hsync ⊢ <;> simp_all [Synchronized, finTaken, position]
  · simp only [hst, onSynSent] at hsync ⊢
    split_ifs at hsync ⊢ <;> simp_all [Synchronized, finTaken, position]

lemma onSegment_keeps (hopen : ¬ (sock.state = .listen ∨ sock.state = .synSent))
    (hst : pkt.has tcpFlagRst ∨ ¬ takesFin sock.state)
    (hsync : Synchronized (netdTcpOnSegment sock pkt nowTsc ticksPerSec).1.state) :
    let sock' := (netdTcpOnSegment sock pkt nowTsc ticksPerSec).1
    Synchronized sock.state ∧ finTaken sock'.state = finTaken sock.state ∧
      sock'.rcvNxt = sock.rcvNxt ∧ sock'.irs = sock.irs := by
  rw [netdTcpOnSegment] at hsync ⊢
  cases hs : sock.state <;>
    simp only [hs, onSynRcvd, onClosing, onLastAck, onTimeWait, onOther, enterTimeWait] at hsync ⊢ <;>
    split_ifs at hsync ⊢ <;> simp_all [Synchronized, finTaken, takesFin]

/-- The machine takes payload that starts at `rcv_nxt`, in `ESTABLISHED`, and then any FIN. -/
lemma onSegment_takes (nowTsc ticksPerSec : UInt64) {x : Receiver} (hst : takesFin x.sock.state)
    (hrst : ¬ pkt.has tcpFlagRst) (hnxt : x.sock.rcvNxt = position x.sock.irs x.stream) :
    let sock' := (netdTcpOnSegment x.sock pkt nowTsc ticksPerSec).1
    sock'.irs = x.sock.irs ∧ finTaken sock'.state = pkt.has tcpFlagFin ∧
      sock'.rcvNxt = position x.sock.irs (x.takes pkt) + (if pkt.has tcpFlagFin then 1 else 0) ∧
      position x.sock.irs (x.takes pkt) = x.sock.rcvNxt +
        if x.sock.state = .established then UInt32.ofNat (accepted x.sock pkt) else 0 := by
  rcases hst with hst | hst | hst
  · obtain ⟨hends, hnxt', hstate⟩ := onSegment_established nowTsc ticksPerSec hst hrst
    have htakes : position x.sock.irs (x.takes pkt) =
        x.sock.rcvNxt + UInt32.ofNat (accepted x.sock pkt) := by
      rw [Receiver.takes, accepted, hnxt]
      split_ifs <;> simp_all [position, UInt32.add_assoc]
    refine ⟨hends.irs, ?_, by rw [hnxt', htakes], by rw [htakes, if_pos hst]⟩
    rw [hstate]
    split_ifs <;> simp_all [finTaken]
  · rw [show x.takes pkt = x.stream by simp [Receiver.takes, hst], netdTcpOnSegment,
      if_neg fun h => hrst h.1, if_neg fun h => hrst h.1, hst, ← hnxt]
    by_cases hack : pkt.has tcpFlagAck ∧ pkt.ack = x.sock.sndNxt <;>
      by_cases hf : pkt.has tcpFlagFin <;>
        simp [onFinWait1, hack, hf, hst, finTaken, enterTimeWait]
  · rw [show x.takes pkt = x.stream by simp [Receiver.takes, hst], netdTcpOnSegment,
      if_neg fun h => hrst h.1, if_neg fun h => hrst h.1, hst, ← hnxt]
    by_cases hf : pkt.has tcpFlagFin <;> simp [onFinWait2, hf, hst, finTaken, enterTimeWait]

lemma receive_contiguous {x : Receiver} {op : SocketOp} (h : Contiguous x) (hop : InOrder x op) :
    Contiguous (receive ticksPerSec x op) := by
  cases op with
  | connect iss rto nowTsc =>
    refine h.keeps fun hsync => ?_
    by_cases hst : x.sock.state = .closed
    · simp [step, netdTcpConnect, hst, Synchronized] at hsync
    · simp_all [step, netdTcpConnect]
  | listen localIp localPort =>
    refine h.keeps fun hsync => ?_
    by_cases hst : x.sock.state = .closed
    · simp [step, netdTcpListen, hst, Synchronized] at hsync
    · simp_all [step, netdTcpListen]
  | close =>
    refine h.keeps fun hsync => ?_
    cases hst : x.sock.state <;> simp_all [step, netdTcpClose, sendFin, Synchronized, finTaken]
  | tick nowTsc =>
    refine h.keeps fun hsync => ?_
    rw [step, netdTcpTick] at *
    split_ifs at * <;> simp_all [Synchronized]
  | segment pkt nowTsc =>
    rw [receive]
    split_ifs with hopen hst
    · exact onSegment_opens hopen
    · exact h.keeps (onSegment_keeps hopen hst)
    rw [not_or, not_not] at hst
    obtain ⟨hfin, hnxt⟩ := h (by rcases hst.2 with hs | hs | hs <;> simp [hs, Synchronized])
    have hnone : x.fin = false := by rcases hst.2 with hs | hs | hs <;> simp [hfin, hs, finTaken]
    rw [hnone, if_neg Bool.false_ne_true, UInt32.add_zero] at hnxt
    obtain ⟨hirs, hfin', hnxt', hnext⟩ := onSegment_takes nowTsc ticksPerSec hst.2 hst.1 hnxt
    intro _
    rw [step, hirs, hfin', hnxt', hnext]
    by_cases hf : pkt.has tcpFlagFin
    · simp [hf, hop hst.2 hst.1 hf]
    · simp [hf]

variable (ticksPerSec)

/-- A segment with payload and one with a FIN, both in order. -/
def inOrder : List SocketOp :=
  handshake ++ [.segment (peer 100 tcpFlagAck [1, 2]) 0,
    .segment (peer 102 (tcpFlagFin ||| tcpFlagAck) [3]) 0]

instance (x : Receiver) : ∀ op, Decidable (InOrder x op)
  | .segment _ _ => inferInstanceAs (Decidable (_ → _))
  | .connect _ _ _ | .listen _ _ | .close | .tick _ => .isTrue trivial

/-- A socket with the times of the last segment it received and of the last part of the handshake
it sent, and how often it has sent that again. -/
structure Timed where
  sock : TcpSocket
  lastSegment : ℕ := 0
  sent : ℕ := 0
  retransmissions : ℕ := 0

def timedStep (x : Timed) (op : SocketOp) : Timed :=
  let x' := { x with sock := step ticksPerSec x.sock op }
  match op with
  | .connect _ _ nowTsc =>
    if x.sock.state = .closed then { x' with sent := nowTsc.toNat, retransmissions := 0 } else x'
  | .segment _ nowTsc =>
    if x.sock.state = .listen then ⟨x'.sock, nowTsc.toNat, nowTsc.toNat, 0⟩
    else { x' with lastSegment := nowTsc.toNat }
  | .tick nowTsc =>
    if (netdTcpTick x.sock nowTsc ticksPerSec).2.isSome then
      { x' with sent := nowTsc.toNat, retransmissions := x.retransmissions + 1 }
    else x'
  | _ => x'

/-- Milliseconds in ticks. -/
def ticks (ms : ℕ) : ℕ := ms * ticksPerSec.toNat / 1000

/-- How long the socket waits for an answer before it sends again. -/
def patience (retransmissions : ℕ) : ℕ := min (1000 * 2 ^ retransmissions) 60000

/-- `TIME_WAIT` ends 120 seconds after the last segment or later, and the handshake is sent again
after one second, two seconds and so on, up to one minute. -/
def TimerLaw (x : Timed) (op : SocketOp) : Prop :=
  (x.sock.state = .timeWait → (step ticksPerSec x.sock op).state = .closed →
    ∃ nowTsc, op = .tick nowTsc ∧ x.lastSegment + ticks ticksPerSec 120000 ≤ nowTsc.toNat) ∧
  ∀ nowTsc, op = .tick nowTsc → (netdTcpTick x.sock nowTsc ticksPerSec).2.isSome →
    x.sent + ticks ticksPerSec (patience x.retransmissions) ≤ nowTsc.toNat

/-- A clock of at most 35 MHz, that does not wrap around within two minutes; a connection starts
with the default time-out, and no reset arrives in `TIME_WAIT`. -/
def Ordinary (x : Timed) (op : SocketOp) : Prop :=
  120 * ticksPerSec.toNat < 2 ^ 32 ∧
  match op with
  | .connect _ rto nowTsc => (rto = 0 ∨ rto = tcpDefaultRtoMs) ∧
      nowTsc.toNat + 120 * ticksPerSec.toNat < 2 ^ 64
  | .segment pkt nowTsc => (x.sock.state = .timeWait → ¬ pkt.has tcpFlagRst) ∧
      nowTsc.toNat + 120 * ticksPerSec.toNat < 2 ^ 64
  | .tick nowTsc => nowTsc.toNat + 120 * ticksPerSec.toNat < 2 ^ 64
  | _ => True

variable {ticksPerSec}

/-- The timers as they were set. -/
structure OnTime (ticksPerSec : UInt64) (x : Timed) : Prop where
  timeWait : x.sock.state = .timeWait →
    x.sock.timeWaitExpiryTsc.toNat = x.lastSegment + ticks ticksPerSec 120000
  handshake : x.sock.state = .synSent ∨ x.sock.state = .synRcvd →
    x.sock.rtoMs.toNat = patience x.retransmissions ∧
      x.sock.retxExpiryTsc.toNat = x.sent + ticks ticksPerSec (patience x.retransmissions)

lemma expiry_toNat {ms : UInt32} (hslow : 120 * ticksPerSec.toNat < 2 ^ 32)
    (hnow : nowTsc.toNat + 120 * ticksPerSec.toNat < 2 ^ 64) (hms : ms.toNat ≤ 120000) :
    (nowTsc + (msToTsc ticksPerSec ms).toUInt64).toNat =
      nowTsc.toNat + ticks ticksPerSec ms.toNat := by
  have hle : ms.toNat * ticksPerSec.toNat ≤ 120000 * ticksPerSec.toNat := Nat.mul_le_mul_right _ hms
  have hticks : (msToTsc ticksPerSec ms).toNat = ticks ticksPerSec ms.toNat := by
    rw [msToTsc, ticks]
    split_ifs with hzero
    · simp [hzero]
    · simp
      rw [Nat.mul_comm ticksPerSec.toNat, Nat.mod_eq_of_lt (by omega), Nat.mod_eq_of_lt (by omega)]
  rw [ticks] at hticks ⊢
  rw [UInt64.toNat_add, UInt32.toNat_toUInt64, hticks]
  omega

/-- A segment starts the timer of `TIME_WAIT`, where it leads there or finds the socket there, and
in `LISTEN` that of the handshake; otherwise it ends the handshake, or changes nothing. -/
lemma onSegment_timers (hrst : sock.state = .timeWait → ¬ pkt.has tcpFlagRst) :
    let sock' := (netdTcpOnSegment sock pkt nowTsc ticksPerSec).1
    (sock'.state = .timeWait → sock'.timeWaitExpiryTsc =
      nowTsc + (msToTsc ticksPerSec tcpTimeWaitMs).toUInt64) ∧
    (sock'.state = .synSent ∨ sock'.state = .synRcvd → sock' = sock ∧ sock.state ≠ .listen ∨
      sock.state = .listen ∧ sock'.rtoMs = tcpDefaultRtoMs ∧
        sock'.retxExpiryTsc = nowTsc + (msToTsc ticksPerSec tcpDefaultRtoMs).toUInt64) := by
  cases hst : sock.state with
  | established =>
    have hstate : ¬ pkt.has tcpFlagRst → _ :=
      fun hr => (onSegment_established nowTsc ticksPerSec hst hr).2.2
    by_cases hr : pkt.has tcpFlagRst
    · simp only [netdTcpOnSegment, hr, hst]
      split_ifs <;> simp_all
    · dsimp only
      rw [hstate hr]
      split_ifs <;> simp
  | finWait1 =>
    by_cases hack : pkt.has tcpFlagAck ∧ pkt.ack = sock.sndNxt <;>
      simp only [netdTcpOnSegment, hst, onFinWait1, hack, enterTimeWait] <;>
      split_ifs <;> simp_all
  | _ =>
    rw [netdTcpOnSegment, hst]
    simp only [onListen, onSynSent, onSynRcvd, onFinWait2, onClosing, onLastAck, onTimeWait,
      onOther, enterTimeWait]
    split_ifs <;> simp_all

/-- A state without timers. -/
lemma onTime_of_state {x : Timed} (h : x.sock.state ≠ .timeWait ∧ x.sock.state ≠ .synSent ∧
    x.sock.state ≠ .synRcvd) : OnTime ticksPerSec x :=
  ⟨fun hst => absurd hst h.1, fun hst => (hst.elim h.2.1 h.2.2).elim⟩

lemma tick_sends : (netdTcpTick sock nowTsc ticksPerSec).2.isSome ↔
    (sock.state = .synSent ∨ sock.state = .synRcvd) ∧
      sock.retxExpiryTsc ≠ 0 ∧ sock.retxExpiryTsc ≤ nowTsc := by
  rw [netdTcpTick]
  by_cases hdue : sock.retxExpiryTsc ≠ 0 ∧ sock.retxExpiryTsc ≤ nowTsc <;>
    cases sock.state <;> simp [hdue]

lemma patience_succ {rto : UInt32} {n : ℕ} (h : rto.toNat = patience n) :
    (if tcpMaxRtoMs < rto * 2 then tcpMaxRtoMs else rto * 2).toNat = patience (n + 1) := by
  have hle : patience n ≤ 60000 := min_le_right ..
  have hdouble : (rto * 2).toNat = 2 * patience n := by
    rw [UInt32.toNat_mul, h, Nat.mod_eq_of_lt (by simp; omega), mul_comm]
    rfl
  have hmax : tcpMaxRtoMs.toNat = 60000 := rfl
  rw [patience] at hle hdouble
  rw [patience, pow_succ]
  split_ifs with hlt
  · rw [UInt32.lt_iff_toNat_lt, hdouble, hmax] at hlt
    omega
  · rw [UInt32.lt_iff_toNat_lt, hdouble, hmax] at hlt
    omega

lemma timedStep_onTime {x : Timed} {op : SocketOp} (h : OnTime ticksPerSec x)
    (hop : Ordinary ticksPerSec x op) : OnTime ticksPerSec (timedStep ticksPerSec x op) := by
  obtain ⟨hslow, hop⟩ := hop
  cases op with
  | connect iss rto nowTsc =>
    have hrto : (if rto = 0 then tcpDefaultRtoMs else rto) = tcpDefaultRtoMs := by
      rcases hop.1 with rfl | rfl <;> rfl
    by_cases hst : x.sock.state = .closed
    · simp only [timedStep, step, netdTcpConnect, hrto, if_pos hst, if_neg (not_not.mpr hst)]
      exact ⟨nofun, fun _ => ⟨rfl, expiry_toNat hslow hop.2 (by decide)⟩⟩
    · have hsame : step ticksPerSec x.sock (.connect iss rto nowTsc) = x.sock := by
        simp [step, netdTcpConnect, hst]
      rw [timedStep, if_neg hst, hsame]
      exact h
  | listen localIp localPort =>
    simp only [timedStep, step, netdTcpListen]
    split_ifs
    · exact h
    · exact onTime_of_state (by simp)
  | close =>
    simp only [timedStep, step, netdTcpClose, sendFin]
    split
    · exact onTime_of_state (by simp)
    · exact onTime_of_state (by simp)
    · exact h
  | tick nowTsc =>
    rw [timedStep]
    split_ifs with hsends
    · obtain ⟨hst, hdue⟩ := tick_sends.mp hsends
      have hne : x.sock.state ≠ .timeWait := by rcases hst with hst | hst <;> simp [hst]
      have hrto := patience_succ (h.handshake hst).1
      rw [step, netdTcpTick, if_neg hne, if_pos hdue]
      refine ⟨fun htw => absurd htw hne, fun _ => ⟨hrto, ?_⟩⟩
      exact (expiry_toNat hslow hop (by rw [hrto]; exact (min_le_right ..).trans (by decide))).trans
        (by rw [hrto])
    · rw [tick_sends, not_and_or, not_or] at hsends
      rw [step, netdTcpTick]
      split_ifs with htw hend hdue
      · exact onTime_of_state (by simp)
      · exact h
      · exact onTime_of_state ⟨htw, hsends.resolve_right (not_not.mpr hdue)⟩
      · exact onTime_of_state ⟨htw, hsends.resolve_right (not_not.mpr hdue)⟩
      · exact h
  | segment pkt nowTsc =>
    obtain ⟨htw, hhs⟩ := @onSegment_timers x.sock pkt ticksPerSec nowTsc hop.1
    have hends := fun hst =>
      (congrArg UInt64.toNat (htw hst)).trans (expiry_toNat hslow hop.2 (by decide))
    rw [timedStep]
    split_ifs with hlisten
    · refine ⟨hends, fun hst => ?_⟩
      obtain ⟨-, hne⟩ | ⟨-, hrto, hretx⟩ := hhs hst
      · exact absurd hlisten hne
      · exact ⟨congrArg UInt32.toNat hrto,
          (congrArg UInt64.toNat hretx).trans (expiry_toNat hslow hop.2 (by decide))⟩
    · refine ⟨hends, fun hst => ?_⟩
      obtain ⟨hsame, -⟩ | ⟨hst, -⟩ := hhs hst
      · have hsame : step ticksPerSec x.sock (.segment pkt nowTsc) = x.sock := hsame
        dsimp only at hst ⊢
        rw [hsame] at hst ⊢
        exact h.handshake hst
      · exact absurd hst hlisten

lemma timerLaw_of_onTime {x : Timed} {op : SocketOp} (h : OnTime ticksPerSec x)
    (hop : Ordinary ticksPerSec x op) : TimerLaw ticksPerSec x op := by
  refine ⟨fun hst hclosed => ?_, ?_⟩
  · cases op with
    | tick nowTsc =>
      refine ⟨nowTsc, rfl, ?_⟩
      rw [← h.timeWait hst, ← UInt64.le_iff_toNat_le]
      by_contra hlt
      simp [step, netdTcpTick, hst, hlt] at hclosed
    | segment pkt nowTsc =>
      simp [step, netdTcpOnSegment, hst, hop.2.1 hst, onTimeWait, enterTimeWait] at hclosed
    | _ => simp [step, netdTcpConnect, netdTcpListen, netdTcpClose, hst] at hclosed
  · rintro nowTsc rfl hsome
    obtain ⟨hst, -, hdue⟩ := tick_sends.mp hsome
    rw [← (h.handshake hst).2, ← UInt64.le_iff_toNat_le]
    exact hdue

/-- With a slow clock that does not wrap around, the default time-out and no reset in `TIME_WAIT`,
the timers of a socket never fire early. -/
theorem timers_are_lawful (ticksPerSec : UInt64) (hclosed : sock.state = .closed)
    {ops : List SocketOp}
    (hops : Guarded (timedStep ticksPerSec) (Ordinary ticksPerSec) ⟨sock, 0, 0, 0⟩ ops) :
    Guarded (timedStep ticksPerSec) (TimerLaw ticksPerSec) ⟨sock, 0, 0, 0⟩ ops :=
  guarded_of_invariant (OnTime ticksPerSec) (fun _ _ => timedStep_onTime)
    (fun _ _ => timerLaw_of_onTime) (onTime_of_state (by simp [hclosed])) hops

/-- A connection that the client closes, and the end of its `TIME_WAIT`. -/
def closing (closedAt : UInt64) : List SocketOp :=
  handshake ++ [.close, .segment { peer 100 (tcpFlagFin ||| tcpFlagAck) [] with ack := 9 } 0,
    .tick closedAt]

theorem closing_is_lawful :
    Guarded (timedStep 1000) (Ordinary 1000) ⟨{}, 0, 0, 0⟩ (closing 120000) ∧
      Guarded (timedStep 1000) (TimerLaw 1000) ⟨{}, 0, 0, 0⟩ (closing 120000) := by
  have hops : Guarded (timedStep 1000) (Ordinary 1000) ⟨{}, 0, 0, 0⟩ (closing 120000) := by
    simp [closing, handshake, Ordinary]
    decide
  exact ⟨hops, timers_are_lawful 1000 rfl hops⟩

/-- With 2.4 GHz, `TIME_WAIT` ends after 0.1 seconds. -/
theorem time_wait_ends_early :
    let x := run (timedStep 2400000000) ⟨{}, 0, 0, 0⟩ (closing 237191168)
    x.sock.state = .closed ∧ x.lastSegment = 0 ∧ ticks 2400000000 120000 = 288000000000 ∧
      ¬ Guarded (timedStep 2400000000) (TimerLaw 2400000000) ⟨{}, 0, 0, 0⟩ (closing 237191168) := by
  refine ⟨by decide, by decide, by decide, fun h => ?_⟩
  obtain ⟨-, -, -, hlaw, -⟩ := (guarded_append _ _).mp h
  obtain ⟨_, hnow, hle⟩ := hlaw.1 (by decide) (by decide)
  cases hnow
  exact absurd hle (by decide)

end GrahaOS.SocketRuns
