import Pickleback.Endpoint
import Pickleback.AckState
import Pickleback.Lib.AckProtocol

/-!
# Two endpoints and a network

The system the crate is for: two endpoints and the packets that are under way between them. A step
is one call on one of the endpoints. The network keeps every packet it was ever given, so that
delivering one any number of times, in any order or never, is a choice of steps; what it cannot do
is change a packet or make one up.

A run has no calls that drain an inbox, so what an inbox holds is all that ever came into it.
`Session.agree_run` carries what is proved of these runs over to runs with drains.

Beside the endpoints a `Link` carries a history that no call reads: the numbers of the packets each
side has accepted and those for which it has set `acked`, and the calls of `send_message`. A
packet's number counts the packets of its sender, so that it is its id before wrapping.

## Main definitions

* `Link`, `Link.start`, `Link.step` — states and calls
* `Link.Reachable` — the states of the runs whose steps are all permitted
* `Link.Timely` — delivery before either side has sent 16384 more packets
-/

namespace Pickleback

open Serial AckProtocol

/-- A packet given to the network. -/
structure Flight where
  source : Side
  /-- How many packets its sender had sent by then, this one included. -/
  number : ℕ
  /-- How many packets the other side had sent by then. -/
  stamp : ℕ
  bytes : List UInt8
  deriving DecidableEq

/-- A call of `send_message`: its arguments, the id the dispatcher had ready for it, and the
result. -/
structure SendCall where
  channel : UInt8
  payload : List UInt8
  firstId : MessageId
  result : Except PicklebackError MessageId

/-- Two endpoints, the network between them, and the history of the run. -/
structure Link where
  endpoint : Side → Endpoint
  net : List Flight
  /-- How many packets a side has given to the network. -/
  sent : Side → ℕ
  /-- The numbers of the packets of its peer that a side has accepted. -/
  accepted : Side → List ℕ
  /-- The numbers of its packets for which a side has set `acked`, in order. -/
  acked : Side → List ℕ
  /-- The calls of `send_message`. -/
  sends : Side → List SendCall

/-- The calls of a run. -/
inductive Call where
  | sendMessage (side : Side) (channel : UInt8) (payload : List UInt8)
  | update (side : Side) (dt : Time)
  | visitPacketsToSend (side : Side)
  /-- The network hands a packet to the side it was sent to, which calls `process_incoming_packet`.
  -/
  | deliver (flight : Flight)
  | sendKeepAlive (side : Side) (clientIndex : UInt32)

/-- Whether `process_incoming_packet` gets past the stale and duplicate checks. -/
def Endpoint.accepts (p : Endpoint) (header : ProtocolPacketHeader) : Bool :=
  p.receivedBuffer.checkSequence header.id && !p.receivedBuffer.existsSequence header.id

namespace Link

/-- Two new endpoints with their salts set, in any builds. -/
def start (overflowChecks : Side → Bool) (time : Side → Time) (salt : Side → UInt64) : Link where
  endpoint := fun e => (Endpoint.new (overflowChecks e) .default (time e)).setXorSalt
    (some (salt e))
  net := []
  sent := fun _ => 0
  accepted := fun _ => []
  acked := fun _ => []
  sends := fun _ => []

/-- One side's endpoint replaced. -/
def setEndpoint (l : Link) (e : Side) (p : Endpoint) : Link :=
  { l with endpoint := Function.update l.endpoint e p }

/-- The packets of one visit as the network gets them, numbered from `n` on. -/
def flights (source : Side) (stamp : ℕ) : ℕ → List (List UInt8) → List Flight
  | _, [] => []
  | n, bytes :: rest => ⟨source, n, stamp, bytes⟩ :: flights source stamp (n + 1) rest

/-- They come from one side, and have the bytes that were handed over. -/
theorem mem_flights {source : Side} {stamp n : ℕ} {packets : List (List UInt8)} {f : Flight}
    (h : f ∈ flights source stamp n packets) : f.source = source ∧ f.bytes ∈ packets := by
  induction packets generalizing n with
  | nil => cases h
  | cons bytes rest ih =>
    rcases List.mem_cons.mp h with rfl | h
    · exact ⟨rfl, List.mem_cons_self ..⟩
    · exact (ih h).imp_right (List.mem_cons_of_mem _)

/-- The packet in place `k` of the visit has the number `n + k`. -/
theorem exists_getElem?_of_mem_flights {source : Side} {stamp n : ℕ}
    {packets : List (List UInt8)} {f : Flight}
    (h : f ∈ flights source stamp n packets) :
    ∃ (k : ℕ) (bytes : List UInt8), packets[k]? = some bytes ∧
      f = ⟨source, n + k, stamp, bytes⟩ := by
  induction packets generalizing n with
  | nil => cases h
  | cons bytes rest ih =>
    rcases List.mem_cons.mp h with rfl | h
    · exact ⟨0, bytes, rfl, rfl⟩
    · obtain ⟨k, bytes', hk, rfl⟩ := ih h
      exact ⟨k + 1, bytes', hk, by rw [Nat.add_right_comm, Nat.add_assoc]⟩

/-- The packets of one visit, given to the network. -/
def launch (l : Link) (e : Side) (packets : List (List UInt8)) : Link :=
  { l with
    net := l.net ++ flights e (l.sent e.other) (l.sent e + 1) packets
    sent := Function.update l.sent e (l.sent e + packets.length) }

/-- A packet accepted by side `e`, and the packets of `e` it acks for the first time. -/
def recordAccept (l : Link) (e : Side) (number : ℕ) (header : ProtocolPacketHeader) : Link :=
  { l with
    accepted := Function.update l.accepted e (l.accepted e ++ [number])
    acked := Function.update l.acked e (l.acked e ++
      ((l.endpoint e).ackState.newAcks (header.acks.getD [])).map (latest (l.sent e))) }

/-- One call. Where the source would panic there is no state afterwards. -/
def step (l : Link) : Call → Except Panic Link
  | .sendMessage e channel payload =>
    match (l.endpoint e).sendMessage channel payload with
    | .error q => .error q
    | .ok (p, res) =>
      .ok { l.setEndpoint e p with
        sends := Function.update l.sends e (l.sends e ++
          [⟨channel, payload, (l.endpoint e).dispatcher.nextMessageId, res⟩]) }
  | .update e dt => .ok (l.setEndpoint e ((l.endpoint e).update dt))
  | .visitPacketsToSend e =>
    match (l.endpoint e).visitPacketsToSend with
    | .error q => .error q
    | .ok (p, packets) => .ok ((l.setEndpoint e p).launch e packets)
  | .deliver f =>
    match readPacket f.bytes with
    | .error _ => .ok l
    | .ok (packet, rest) =>
      match (l.endpoint f.source.other).processIncomingPacket packet.header rest with
      | .error q => .error q
      | .ok (p, _) =>
        let l' := if (l.endpoint f.source.other).accepts packet.header then
          l.recordAccept f.source.other f.number packet.header else l
        .ok (l'.setEndpoint f.source.other p)
  | .sendKeepAlive e clientIndex =>
    match (l.endpoint e).sendKeepAlive clientIndex with
    | .error q => .error q
    | .ok p => .ok (l.setEndpoint e p)

/-- The states of the runs whose every call is permitted in the state it is made. -/
inductive Reachable (permits : Link → Call → Prop) : Link → Prop
  | start (overflowChecks : Side → Bool) (time : Side → Time) (salt : Side → UInt64) :
    Reachable permits (start overflowChecks time salt)
  | step {l l' : Link} {c : Call} (h : Reachable permits l) (hc : permits l c)
    (hstep : l.step c = .ok l') : Reachable permits l'

/-- **The rule of induction over runs.** -/
theorem Reachable.invariant {permits : Link → Call → Prop} {I : Link → Prop}
    (hstart : ∀ overflowChecks time salt, I (Link.start overflowChecks time salt))
    (hstep : ∀ {l l' : Link} {c : Call}, Reachable permits l → I l → permits l c →
      l.step c = .ok l' → I l') {l : Link} (h : Reachable permits l) : I l := by
  induction h with
  | start overflowChecks time salt => exact hstart overflowChecks time salt
  | step h hc hs ih => exact hstep h ih hc hs

/-- What is permitted there is permitted here. -/
theorem Reachable.mono {permits permits' : Link → Call → Prop}
    (h : ∀ l c, permits l c → permits' l c) {l : Link}
    (hl : Reachable permits l) : Reachable permits' l := by
  induction hl with
  | start overflowChecks time salt => exact .start overflowChecks time salt
  | step _ hc hs ih => exact ih.step (h _ _ hc) hs

/-- A packet is delivered before either side has sent 16384 packets since. -/
def Timely (l : Link) (f : Flight) : Prop :=
  l.sent f.source < f.number + 16384 ∧ l.sent f.source.other < f.stamp + 16384

/-- The calls of an application over a network that neither alters nor forges packets, and delivers
none of them too late. All packets are composed by `compose_packets`. -/
def Permits (l : Link) : Call → Prop
  | .deliver f => f ∈ l.net ∧ l.Timely f
  | .sendKeepAlive _ _ => False
  | _ => True

instance (l : Link) (c : Call) : Decidable (l.Permits c) :=
  match c with
  | .deliver f => inferInstanceAs (Decidable (f ∈ l.net ∧ _ < _ ∧ _ < _))
  | .sendKeepAlive _ _ => isFalse id
  | .sendMessage .. | .update .. | .visitPacketsToSend _ => isTrue trivial

/-! ### Running a script -/

/-- A run written down: each call may depend on the state, so that a packet can be named by its
place in the network. -/
def run (permits : Link → Call → Prop) [∀ l c, Decidable (permits l c)] (l : Link) :
    List (Link → Call) → Option Link
  | [] => some l
  | c :: rest =>
    if permits l (c l) then
      match l.step (c l) with
      | .ok l' => l'.run permits rest
      | .error _ => none
    else none

theorem reachable_of_run {permits : Link → Call → Prop} [∀ l c, Decidable (permits l c)]
    {script : List (Link → Call)} {l l' : Link} (h : Reachable permits l)
    (hrun : l.run permits script = some l') : Reachable permits l' := by
  induction script generalizing l with
  | nil =>
    cases hrun
    exact h
  | cons c rest ih =>
    rw [run] at hrun
    split at hrun
    · next hc =>
      split at hrun
      · next l₁ hstep => exact ih (h.step hc hstep) hrun
      · cases hrun
    · cases hrun

/-- The network hands over the packet in place `i`. -/
def deliverAt (i : ℕ) (l : Link) : Call := .deliver (l.net.getD i ⟨.left, 0, 0, []⟩)

end Link

end Pickleback
