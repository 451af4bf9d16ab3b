import Pickleback.AlikeCalls
import Pickleback.Progress

/-!
# Sessions with draining applications

Two endpoints, a network, and two applications that drain the inboxes when they like. Each endpoint
may have pools of its own, one or more. A session is followed by a link of endpoints with the
default pools from which nobody drains: the same packets are in the network, and what was handed
over together with what is still in an inbox is what the inbox of the link holds. So pools and
drains have no effect on anything else, and what was proved of the inboxes of a link holds of what
the applications get.

## Main definitions

* `Session`, `Session.start`, `Session.step` — a link with draining applications
* `Session.FollowedBy` — the link that follows a session
* `Session.received`, `Session.reported` — what was handed over and what is ready

## Main results

* `Session.agree_run` — pools and drains have no effect on anything else
* `Session.received_exactly_once` — what the applications get
* `Session.reported_received`, `Session.reported_iff_not_waiting` — what the acks say
-/

namespace Pickleback

open Lockstep AckProtocol

theorem ReceivedMessage.Alike.is_iff {msg msg' : ReceivedMessage}
    (h : msg.Alike msg') (s : SendCall) :
    s.Is msg ↔ s.Is msg' := by
  constructor
  · exact fun his => ⟨h.channel? ▸ his.channel, h.id? ▸ his.id, h.payload ▸ his.payload⟩
  · exact fun his => ⟨h.channel? ▸ his.channel, h.id? ▸ his.id, h.payload ▸ his.payload⟩

namespace Endpoint

variable {messages : UInt8 → List ReceivedMessage} {acks : UInt8 → List MessageId} {p p' : Endpoint}

theorem Alike.ackState (h : p.Alike messages acks p') : p.ackState = p'.ackState := by
  rw [Endpoint.ackState, Endpoint.ackState, h.sequenceId, h.newestAck,
    h.ackLowWatermark, h.sentBuffer,
    h.receivedBuffer]

theorem Alike.accepts (h : p.Alike messages acks p') (header : ProtocolPacketHeader) :
    p.accepts header = p'.accepts header := by
  rw [Endpoint.accepts, Endpoint.accepts, h.receivedBuffer]

theorem Alike.takesSend_iff (h : p.Alike messages acks p') (channel : UInt8)
    (payload : List UInt8) :
    p.TakesSend channel payload ↔ p'.TakesSend channel payload := by
  rw [TakesSend, TakesSend, (congrArg PicklebackConfig.maxMessageSize h.config :),
    h.sentUnackedPackets,
    isSome_eq_of_rel (h.channels.get? channel)]

theorem Alike.ids_queuedOn (h : p.Alike messages acks p') (channel : UInt8) :
    (p.queuedOn channel).map Message.id = (p'.queuedOn channel).map Message.id := by
  have hget := h.channels.get? channel
  rw [queuedOn, queuedOn]
  generalize p.channels.get? channel = x at hget ⊢
  generalize p'.channels.get? channel = x' at hget ⊢
  cases hget with
  | none => rfl
  | some hch =>
    cases hch with
    | unreliable hc => exact map_eq_map hc.q fun _ _ hm => hm.id
    | reliable hc =>
      simp only [Option.elim_some, Channel.queued, List.map_map]
      exact map_eq_map hc.q fun _ _ hm => hm.message.id

end Endpoint

/-- A link, and what the applications have drained. -/
structure Session where
  link : Link
  /-- What `drain_received_messages` has handed over, in order. -/
  messages : Side → UInt8 → List ReceivedMessage
  /-- What `drain_message_acks` has handed over, in order. -/
  acks : Side → UInt8 → List MessageId

namespace Session

/-- A call of a run of the link, or a drain. -/
inductive Call where
  | call (c : Pickleback.Call)
  | drainReceivedMessages (side : Side) (channel : UInt8)
  | drainMessageAcks (side : Side) (channel : UInt8)

/-- Two new endpoints, each with the pools that its configuration names. -/
def start (overflowChecks : Side → Bool) (time : Side → Time) (salt : Side → UInt64)
    (pools : Side → Option (PoolConfig × List PoolConfig)) : Session where
  link := { Link.start overflowChecks time salt with
    endpoint := fun e =>
      let config := { PicklebackConfig.default with bufferPoolsConfig := pools e }
      (Endpoint.new (overflowChecks e) config (time e)).setXorSalt (some (salt e)) }
  messages := fun _ _ => []
  acks := fun _ _ => []

/-- One call. -/
def step (s : Session) : Call → Except Panic Session
  | .call c => (s.link.step c).map fun l => { s with link := l }
  | .drainReceivedMessages e channel =>
    let r := (s.link.endpoint e).drainReceivedMessages channel
    .ok { s with
      link := s.link.setEndpoint e r.1
      messages := Function.update s.messages e
        (Function.update (s.messages e) channel (s.messages e channel ++ r.2)) }
  | .drainMessageAcks e channel =>
    let r := (s.link.endpoint e).drainMessageAcks channel
    .ok { s with
      link := s.link.setEndpoint e r.1
      acks :=
        Function.update s.acks e (Function.update (s.acks e) channel (s.acks e channel ++ r.2)) }

/-- The call of the link that a call is, unless it is a drain. -/
def Call.link? : Call → Option Pickleback.Call
  | .call c => some c
  | .drainReceivedMessages _ _ => none
  | .drainMessageAcks _ _ => none

/-! ### The link that follows a session -/

/-- The same packets and the same history, and endpoints that differ only in their pools and in what
was drained. -/
structure FollowedBy (s : Session) (l : Link) : Prop where
  endpoint : ∀ e, (s.link.endpoint e).Alike (s.messages e) (s.acks e) (l.endpoint e)
  net : s.link.net = l.net
  sent : s.link.sent = l.sent
  accepted : s.link.accepted = l.accepted
  acked : s.link.acked = l.acked
  sends : s.link.sends = l.sends

variable {s s' : Session} {l l' : Link} {e : Side}

theorem followedBy_start (overflowChecks : Side → Bool) (time : Side → Time) (salt : Side → UInt64)
    (pools : Side → Option (PoolConfig × List PoolConfig)) :
    (start overflowChecks time salt pools).FollowedBy (Link.start overflowChecks time salt) where
  endpoint e := by
    have hconfig : PicklebackConfig.Alike { PicklebackConfig.default
      with bufferPoolsConfig := pools e } .default := rfl
    exact (Endpoint.alike_new (overflowChecks e) hconfig (time e)).setXorSalt (some (salt e))
  net := rfl
  sent := rfl
  accepted := rfl
  acked := rfl
  sends := rfl

/-- One endpoint is replaced in both. -/
theorem FollowedBy.endpoint_update (h : s.FollowedBy l) {p p' : Endpoint}
    (hp : p.Alike (s.messages e) (s.acks e) p') (e' : Side) :
    (Function.update s.link.endpoint e p e').Alike (s.messages e') (s.acks e')
      (Function.update l.endpoint e p' e') := by
  rcases e.eq_or_eq_other e' with rfl | rfl
  · rwa [Function.update_self, Function.update_self]
  · rw [Function.update_of_ne e.other_ne, Function.update_of_ne e.other_ne]
    exact h.endpoint e.other

/-- **A call agrees** with the same call on the link. -/
theorem FollowedBy.call (h : s.FollowedBy l) (c : Pickleback.Call) :
    Agree FollowedBy (s.step (.call c)) (l.step c) := by
  rw [Session.step]
  cases c with
  | sendMessage e channel payload =>
    have hcall := (h.endpoint e).sendMessage channel payload
    have hid := (h.endpoint e).dispatcher.nextMessageId
    rw [Link.step, Link.step]
    generalize (s.link.endpoint e).sendMessage channel payload = x at hcall ⊢
    generalize (l.endpoint e).sendMessage channel payload = x' at hcall ⊢
    cases hcall with
    | error q => exact .error q
    | @ok a b hab =>
      obtain ⟨p, res⟩ := a
      obtain ⟨p', res'⟩ := b
      obtain ⟨hp, rfl⟩ : p.Alike (s.messages e) (s.acks e) p' ∧ res = res' := hab
      exact .ok { h with
        endpoint := h.endpoint_update hp
        sends := by rw [h.sends, hid] }
  | update e dt => exact .ok { h with endpoint := h.endpoint_update ((h.endpoint e).update dt) }
  | visitPacketsToSend e =>
    have hcall := (h.endpoint e).visitPacketsToSend
    rw [Link.step, Link.step]
    generalize (s.link.endpoint e).visitPacketsToSend = x at hcall ⊢
    generalize (l.endpoint e).visitPacketsToSend = x' at hcall ⊢
    cases hcall with
    | error q => exact .error q
    | @ok a b hab =>
      obtain ⟨p, packets⟩ := a
      obtain ⟨p', packets'⟩ := b
      obtain ⟨hp, rfl⟩ : p.Alike (s.messages e) (s.acks e) p' ∧ packets = packets' := hab
      refine .ok { h with endpoint := h.endpoint_update hp, net := ?_, sent := ?_ }
      · simp only [Link.launch, Link.setEndpoint, h.net, h.sent]
      · simp only [Link.launch, Link.setEndpoint, h.sent]
  | deliver f =>
    rw [Link.step, Link.step]
    cases readPacket f.bytes with
    | error e => exact .ok h
    | ok r =>
      obtain ⟨packet, rest⟩ := r
      have hcall := (h.endpoint f.source.other).processIncomingPacket packet.header rest
      have haccepts := (h.endpoint f.source.other).accepts packet.header
      have hacks := (h.endpoint f.source.other).ackState
      dsimp only
      generalize (s.link.endpoint f.source.other).processIncomingPacket packet.header rest = x
        at hcall ⊢
      generalize (l.endpoint f.source.other).processIncomingPacket packet.header rest = x'
        at hcall ⊢
      cases hcall with
      | error q => exact .error q
      | ok hp =>
        dsimp only
        rw [haccepts]
        by_cases hacc : (l.endpoint f.source.other).accepts packet.header = true
        · rw [if_pos hacc, if_pos hacc]
          refine .ok { h with endpoint := h.endpoint_update hp.1, accepted := ?_, acked := ?_ }
          · simp only [Link.recordAccept, Link.setEndpoint, h.accepted]
          · simp only [Link.recordAccept, Link.setEndpoint, h.acked, h.sent, hacks]
        · rw [if_neg hacc, if_neg hacc]
          exact .ok { h with endpoint := h.endpoint_update hp.1 }
  | sendKeepAlive e clientIndex =>
    have hcall := (h.endpoint e).sendKeepAlive clientIndex
    rw [Link.step, Link.step]
    generalize (s.link.endpoint e).sendKeepAlive clientIndex = x at hcall ⊢
    generalize (l.endpoint e).sendKeepAlive clientIndex = x' at hcall ⊢
    cases hcall with
    | error q => exact .error q
    | ok hp => exact .ok { h with endpoint := h.endpoint_update hp }

/-- A drain changes nothing that the link would have to follow. -/
theorem FollowedBy.drain (h : s.FollowedBy l) {c : Call} (hc : c.link? = none) :
    ∃ s', s.step c = .ok s' ∧ s'.FollowedBy l := by
  cases c with
  | call c => cases hc
  | drainReceivedMessages e channel =>
    refine ⟨_, rfl, { h with endpoint := fun e' => ?_ }⟩
    simp only [Link.setEndpoint]
    rcases e.eq_or_eq_other e' with rfl | rfl
    · rw [Function.update_self, Function.update_self]
      exact (h.endpoint e').drainReceivedMessages channel
    · rw [Function.update_of_ne e.other_ne, Function.update_of_ne e.other_ne]
      exact h.endpoint e.other
  | drainMessageAcks e channel =>
    refine ⟨_, rfl, { h with endpoint := fun e' => ?_ }⟩
    simp only [Link.setEndpoint]
    rcases e.eq_or_eq_other e' with rfl | rfl
    · rw [Function.update_self, Function.update_self]
      exact (h.endpoint e').drainMessageAcks channel
    · rw [Function.update_of_ne e.other_ne, Function.update_of_ne e.other_ne]
      exact h.endpoint e.other

/-- **Pools and drains have no effect on anything else.** Any calls are made on a session, in which
the endpoints have any pools (at least one), and those of them that are no drains on a link. Either
both panic, in the same way, or the link follows the session: the same packets were sent, the same
results were returned, and the inboxes hold the same but for what has been drained. -/
theorem agree_run (overflowChecks : Side → Bool) (time : Side → Time) (salt : Side → UInt64)
    (pools : Side → Option (PoolConfig × List PoolConfig)) (calls : List Call) :
    Agree FollowedBy (calls.foldlM step (start overflowChecks time salt pools))
      ((calls.filterMap Call.link?).foldlM Link.step (Link.start overflowChecks time salt)) := by
  refine agree_foldlM (fun s l c c' h hc => ?_) (fun s l c h hc => h.drain hc) calls
    (followedBy_start overflowChecks time salt pools)
  cases c with
  | call c =>
    cases hc
    exact h.call c'
  | drainReceivedMessages e channel => cases hc
  | drainMessageAcks e channel => cases hc

/-! ### Short sessions -/

/-- The calls of a short session of the link, and drains at any time. -/
def Permits (s : Session) : Call → Prop
  | .call c => s.link.PermitsFew c
  | .drainReceivedMessages _ _ => True
  | .drainMessageAcks _ _ => True

instance (s : Session) (c : Call) : Decidable (s.Permits c) :=
  match c with
  | .call c => inferInstanceAs (Decidable (s.link.PermitsFew c))
  | .drainReceivedMessages _ _ => isTrue trivial
  | .drainMessageAcks _ _ => isTrue trivial

/-- The states of the runs of permitted calls. -/
inductive Reachable : Session → Prop
  | start (overflowChecks : Side → Bool) (time : Side → Time) (salt : Side → UInt64)
    (pools : Side → Option (PoolConfig × List PoolConfig)) :
      Reachable (start overflowChecks time salt pools)
  | step {s s' : Session} {c : Call} (h : Reachable s) (hc : s.Permits c)
    (hstep : s.step c = .ok s') : Reachable s'

theorem FollowedBy.queuedBy (h : s.FollowedBy l) (e : Side) : s.link.queuedBy e = l.queuedBy e := by
  rw [Link.queuedBy, Link.queuedBy, h.sends]

theorem FollowedBy.arrived (h : s.FollowedBy l) (e : Side) : s.link.Arrived e = l.Arrived e := by
  rw [Link.Arrived, Link.Arrived, h.net, h.accepted]

theorem FollowedBy.permitsFew (h : s.FollowedBy l) {c : Pickleback.Call}
    (hc : s.link.PermitsFew c) :
    l.PermitsFew c := by
  cases c with
  | sendMessage e channel payload =>
    intro htakes
    have hread := hc (((h.endpoint e).takesSend_iff channel payload).mpr htakes)
    rwa [Link.queuedContents, h.queuedBy] at hread
  | update e dt => exact hc
  | visitPacketsToSend e => exact hc
  | deliver f =>
    obtain ⟨hnet, htimely⟩ := hc
    rw [Link.Timely, h.sent] at htimely
    exact ⟨h.net ▸ hnet, htimely⟩
  | sendKeepAlive e clientIndex => exact hc

/-- A short session is followed by one of the link. -/
theorem Reachable.exists_link (h : Reachable s) : ∃ l, Link.Reachable Link.PermitsFew l ∧
    s.FollowedBy l := by
  induction h with
  | start overflowChecks time salt pools =>
    exact ⟨_, .start overflowChecks time salt, followedBy_start overflowChecks time salt pools⟩
  | @step s s' c _ hc hstep ih =>
    obtain ⟨l, hl, hfollowed⟩ := ih
    cases c with
    | call c =>
      obtain ⟨l', hstep', hfollowed'⟩ := (hfollowed.call c).exists_of_ok hstep
      exact ⟨l', hl.step (hfollowed.permitsFew hc) hstep', hfollowed'⟩
    | drainReceivedMessages e channel =>
      obtain ⟨s'', hs'', hfollowed'⟩ := hfollowed.drain (c := .drainReceivedMessages e channel) rfl
      obtain rfl : s'' = s' := Except.ok.inj (hs''.symm.trans hstep)
      exact ⟨l, hl, hfollowed'⟩
    | drainMessageAcks e channel =>
      obtain ⟨s'', hs'', hfollowed'⟩ := hfollowed.drain (c := .drainMessageAcks e channel) rfl
      obtain rfl : s'' = s' := Except.ok.inj (hs''.symm.trans hstep)
      exact ⟨l, hl, hfollowed'⟩

/-- A run written down, as for a link. -/
def run (s : Session) : List (Session → Call) → Option Session
  | [] => some s
  | c :: rest =>
    if s.Permits (c s) then
      match s.step (c s) with
      | .ok s' => s'.run rest
      | .error _ => none
    else none

theorem reachable_of_run {script : List (Session → Call)} (h : Reachable s)
    (hrun : s.run script = some s') :
    Reachable s' := by
  induction script generalizing s with
  | nil =>
    cases hrun
    exact h
  | cons c rest ih =>
    rw [run] at hrun
    split at hrun
    · next hc =>
      split at hrun
      · next s₁ hstep => exact ih (h.step hc hstep) hrun
      · cases hrun
    · cases hrun

/-- Delivery of the packet in place `i` of the network. -/
def deliverAt (i : ℕ) (s : Session) : Call := .call (Link.deliverAt i s.link)

/-! #### What the applications get -/

/-- The messages of a channel that were handed over to the application of side `e`, and those that
are ready for it. -/
def received (s : Session) (e : Side) (channel : UInt8) : List ReceivedMessage :=
  s.messages e channel ++ (s.link.endpoint e).dispatcher.messageInbox channel

/-- The acks of a channel that were handed over to the application of side `e`, and those that are
ready for it. -/
def reported (s : Session) (e : Side) (channel : UInt8) : List MessageId :=
  s.acks e channel ++ (s.link.endpoint e).dispatcher.ackInbox channel

theorem FollowedBy.countP_received (h : s.FollowedBy l) (e : Side)
    (channel : UInt8) (c : SendCall) :
    (s.received e channel).countP (fun msg => c.Is msg)
      = ((l.endpoint e).dispatcher.messageInbox channel).countP (fun msg => c.Is msg) :=
  countP_eq_countP ((h.endpoint e).dispatcher.messageInbox channel) fun _ _ hmsg =>
    decide_eq_decide.mpr (hmsg.is_iff c)

theorem exists_call_of_received (h : Reachable s) {channel : UInt8} {msg : ReceivedMessage}
    (hmsg : msg ∈ s.received e.other channel) : ∃ c ∈ s.link.queuedBy e, c.channel = channel ∧
      c.Is msg := by
  obtain ⟨l, hl, hfollowed⟩ := h.exists_link
  obtain ⟨msg', hmsg', halike⟩ :=
    exists_of_forall₂_mem ((hfollowed.endpoint e.other).dispatcher.messageInbox channel).flip hmsg
  obtain ⟨c, hc, hchannel, his⟩ := (Link.messageInbox_exactly_once hl e).2 channel msg' hmsg'
  rw [hfollowed.queuedBy]
  exact ⟨c, hc, hchannel, (ReceivedMessage.Alike.is_iff halike c).mpr his⟩

/-- **Exactly once.** In every short session over a network that loses, repeats and reorders
packets, with pools of any sizes and drains at any time: a call of `send_message` that has queued
something is received on its channel once if all its messages are in packets that the peer has
accepted, and it is not received otherwise. Nothing else is received. -/
theorem received_exactly_once (h : Reachable s) (e : Side) :
    (∀ c ∈ s.link.queuedBy e,
      ((∀ x ∈ c.contents, x ∈ s.link.Arrived e) →
        (s.received e.other c.channel).countP (fun msg => c.Is msg) = 1) ∧
      ((¬ ∀ x ∈ c.contents, x ∈ s.link.Arrived e) →
        (s.received e.other c.channel).countP (fun msg => c.Is msg) = 0)) ∧
      ∀ channel, ∀ msg ∈ s.received e.other channel, ∃ c ∈ s.link.queuedBy e, c.channel = channel ∧
        c.Is msg := by
  refine ⟨?_, fun channel msg hmsg => exists_call_of_received h hmsg⟩
  obtain ⟨l, hl, hfollowed⟩ := h.exists_link
  rw [hfollowed.queuedBy, hfollowed.arrived]
  intro c hc
  rw [hfollowed.countP_received]
  exact (Link.messageInbox_exactly_once hl e).1 c hc

/-- The first of two fragments is lost, a message that arrives twice is drained in between, and the
pools are small. -/
theorem received_exactly_once_drained : ∃ s, Reachable s ∧
    (s.link.queuedBy .left).map (fun c => c.payload.length) = [2048, 1] ∧
    (s.messages .right 0).map ReceivedMessage.payload = [[5]] ∧
    (∀ c ∈ s.link.queuedBy .left,
      ((∀ x ∈ c.contents, x ∈ s.link.Arrived .left) →
        (s.received .right c.channel).countP (fun msg => c.Is msg) = 1) ∧
      ((¬ ∀ x ∈ c.contents, x ∈ s.link.Arrived .left) →
        (s.received .right c.channel).countP (fun msg => c.Is msg) = 0)) ∧
      ∀ channel, ∀ msg ∈ s.received .right channel, ∃ c ∈ s.link.queuedBy .left,
        c.channel = channel ∧ c.Is msg := by
  have hrun :
    ((start (fun _ => true) (fun _ => 1) (fun _ => 7) fun _ => some (⟨1, 1, 64⟩, [])).run [
      fun _ => .call (.sendMessage .left 0 (List.replicate 2048 1)),
        fun _ => .call (.visitPacketsToSend .left),
      fun _ => .call (.sendMessage .left 0 [5]), fun _ => .call (.visitPacketsToSend .left),
        deliverAt 2,
      fun _ => .drainReceivedMessages .right 0, deliverAt 1, deliverAt 2]).any (fun s =>
        decide ((s.link.queuedBy .left).map (fun c => c.payload.length) = [2048, 1]) &&
          decide ((s.messages .right 0).map ReceivedMessage.payload = [[5]])) = true := by
    decide +kernel
  obtain ⟨s, hs, htest⟩ := (Option.any_eq_true _ _).mp hrun
  rw [Bool.and_eq_true, decide_eq_true_eq, decide_eq_true_eq] at htest
  have hreach : Reachable s := reachable_of_run (.start _ _ _ _) hs
  exact ⟨s, hreach, htest.1, htest.2, received_exactly_once hreach .left⟩

/-- **Acked messages are received**, in every short session: an id that was reported to the
application was returned by a call of `send_message`, and that call was received by the application
of the peer, or is ready for it, once. -/
theorem reported_received (h : Reachable s) {channel : UInt8} {id : MessageId}
    (hid : id ∈ s.reported e channel) :
    ∃ c ∈ s.link.queuedBy e, c.result = .ok id ∧ c.channel = channel ∧
      (s.received e.other channel).countP (fun msg => c.Is msg) = 1 := by
  obtain ⟨l, hl, hfollowed⟩ := h.exists_link
  rw [reported, (hfollowed.endpoint e).dispatcher.ackInbox] at hid
  rw [hfollowed.queuedBy]
  obtain ⟨c, hc, hresult, hchannel, hcount⟩ := Link.ackInbox_delivered_few hl hid
  exact ⟨c, hc, hresult, hchannel, (hfollowed.countP_received _ _ c).trans hcount⟩

/-- A message of two fragments, the first of which was lost and sent again, is acked. Both
applications drain. -/
theorem reported_received_drained : ∃ s, Reachable s ∧ s.acks .left 1 = [0] ∧
    ∃ c ∈ s.link.queuedBy .left, c.result = .ok 0 ∧ c.channel = 1 ∧
      (s.received .right 1).countP (fun msg => c.Is msg) = 1 := by
  have hrun : ((start (fun _ => true) (fun _ => 1) (fun _ => 7) fun _ => none).run [
      fun _ => .call (.sendMessage .left 1 (List.replicate 2048 1)),
        fun _ => .call (.visitPacketsToSend .left),
      deliverAt 1, fun _ => .call (.update .left 1), fun _ => .call (.visitPacketsToSend .left),
        deliverAt 2,
      fun _ => .drainReceivedMessages .right 1, fun _ => .call (.sendMessage .right 0 [2]),
      fun _ => .call (.visitPacketsToSend .right), deliverAt 4,
        fun _ => .drainMessageAcks .left 1]).any (fun s =>
        decide (s.acks .left 1 = [0])) = true := by
    decide +kernel
  obtain ⟨s, hs, hacks⟩ := (Option.any_eq_true _ _).mp hrun
  rw [decide_eq_true_eq] at hacks
  have hreach : Reachable s := reachable_of_run (.start _ _ _ _) hs
  refine ⟨s, hreach, hacks, reported_received hreach ?_⟩
  rw [reported, hacks]
  exact List.mem_append_left _ (List.mem_singleton_self 0)

/-- **Reported is what does not wait**, in every short session: the id that a call on the reliable
channel has returned was reported if and only if none of its messages waits in the queue. -/
theorem reported_iff_not_waiting (h : Reachable s) {c : SendCall} (hc : c ∈ s.link.queuedBy e)
    (hchannel : c.channel = 1) {id : MessageId} (hresult : c.result = .ok id) :
    id ∈ s.reported e 1 ↔ ∀ x ∈ c.contents, ∀ m ∈ (s.link.endpoint e).queuedOn 1, m.id ≠ x.id := by
  obtain ⟨l, hl, hfollowed⟩ := h.exists_link
  rw [hfollowed.queuedBy] at hc
  rw [reported, (hfollowed.endpoint e).dispatcher.ackInbox,
    Link.mem_ackInbox_iff hl hc hchannel hresult]
  have hids := (hfollowed.endpoint e).ids_queuedOn 1
  have hsame : ∀ x : MessageId, x ∈ ((l.endpoint e).queuedOn 1).map Message.id
      ↔ x ∈ ((s.link.endpoint e).queuedOn 1).map Message.id := fun x => by rw [hids]
  constructor
  · intro hnone x hx m hm heq
    obtain ⟨m', hm', hid'⟩ := List.mem_map.mp ((hsame m.id).mpr (List.mem_map_of_mem hm))
    exact hnone x hx m' hm' (hid'.trans heq)
  · intro hnone x hx m hm heq
    obtain ⟨m', hm', hid'⟩ := List.mem_map.mp ((hsame m.id).mp (List.mem_map_of_mem hm))
    exact hnone x hx m' hm' (hid'.trans heq)

/-- One fragment of the first call is acked, and the second call, which is drained. -/
theorem reported_iff_not_waiting_half : ∃ s, Reachable s ∧ s.acks .left 1 = [2] ∧
    ((s.link.endpoint .left).queuedOn 1).map Message.id = [1] ∧
    ∃ c ∈ s.link.queuedBy .left, c.channel = 1 ∧ c.result = .ok 0 ∧
      (0 ∈ s.reported .left 1 ↔
        ∀ x ∈ c.contents, ∀ m ∈ (s.link.endpoint .left).queuedOn 1, m.id ≠ x.id) := by
  have hrun : ((start (fun _ => true) (fun _ => 1) (fun _ => 7) fun _ => none).run [
      fun _ => .call (.sendMessage .left 1 (List.replicate 2048 1)),
        fun _ => .call (.sendMessage .left 1 [5]),
      fun _ => .call (.visitPacketsToSend .left), deliverAt 0,
        fun _ => .call (.sendMessage .right 0 [2]),
      fun _ => .call (.visitPacketsToSend .right), deliverAt 2,
        fun _ => .drainMessageAcks .left 1]).any (fun s =>
        decide (s.acks .left 1 = [2]) && decide
          (((s.link.endpoint .left).queuedOn 1).map Message.id = [1]) &&
          (s.link.queuedBy .left).any fun c =>
            decide (c.channel = 1 ∧ c.result.toOption = some 0)) = true := by
    decide +kernel
  obtain ⟨s, hs, htest⟩ := (Option.any_eq_true _ _).mp hrun
  rw [Bool.and_eq_true, Bool.and_eq_true, decide_eq_true_eq, decide_eq_true_eq, List.any_eq_true]
    at htest
  obtain ⟨⟨hacks, hqueue⟩, c, hc, hcall⟩ := htest
  obtain ⟨hchannel, hsome⟩ := of_decide_eq_true hcall
  have hresult : c.result = .ok 0 := by
    cases hres : c.result with
    | error err =>
      rw [hres] at hsome
      cases hsome
    | ok id =>
      rw [hres] at hsome
      cases hsome
      rfl
  have hreach : Reachable s := reachable_of_run (.start _ _ _ _) hs
  exact ⟨s, hreach, hacks, hqueue, c, hc, hchannel, hresult,
    reported_iff_not_waiting hreach hc hchannel hresult⟩

end Session

end Pickleback
