import Pickleback.Calls
import Pickleback.ComposeBound

/-!
# Admitted sends

`send_message` checks the size of the payload, the number of unacked packets and the channel, and
queues the message. For a payload of more than 1024 bytes one step is left that can fail: the parent
id is registered in `sent_frag_map`, whose window over the message ids only moves when a large
message is sent. By then the fragments are in the queue.

The size of that window is up to the configuration. Of the configuration no more is asked than what
its documentation asks: that `max_message_size` does not exceed `MAX_FRAGMENTS` times 1024 bytes.

## Main definitions

* `Endpoint.Configured` — what the endpoints of one configuration have in common, whichever it is
* `Endpoint.Untouched`, `Endpoint.Refused` — what a failed send leaves alone, and the sends that do
  not

## Main results

* `Reachable.configured` — every reachable endpoint has the configuration it was made with
* `sendMessage_returns_ok_iff` — which admitted sends succeed, in every reachable state
* `sendMessage_untouched_iff` — which calls leave nothing behind when they fail
-/

namespace Pickleback

namespace Endpoint

open MessageDispatcher

/-! ### Runs of calls -/

/-- A series of calls. -/
def run (p : Endpoint) (calls : List Call) : Except Panic Endpoint := calls.foldlM step p

theorem Reachable.run {overflowChecks : Bool} {config : PicklebackConfig} {p p' : Endpoint}
    (h : Reachable overflowChecks config p) {calls : List Call} (hrun : p.run calls = .ok p') :
    Reachable overflowChecks config p' :=
  of_foldlM_eq_ok (fun h hstep => h.step hstep) h hrun

/-- The state after a series of calls, if none panics and all meet a condition. -/
def runWhile (meets : Endpoint → Call → Prop) [∀ p c, Decidable (meets p c)] (p : Endpoint) :
    List Call → Option Endpoint
  | [] => some p
  | c :: calls =>
    if meets p c then (p.step c).toOption.bind fun p' => p'.runWhile meets calls else none

theorem exists_of_runWhile_cons {meets : Endpoint → Call → Prop} [∀ p c, Decidable (meets p c)]
    {p p' : Endpoint} {c : Call} {calls : List Call} (h : p.runWhile meets (c :: calls) = some p') :
    ∃ p₁, meets p c ∧ p.step c = .ok p₁ ∧ p₁.runWhile meets calls = some p' := by
  rw [runWhile] at h
  split at h
  · next hc =>
    obtain ⟨p₁, hp₁, hrest⟩ := Option.bind_eq_some_iff.mp h
    cases hstep : p.step c with
    | error e =>
      rw [hstep] at hp₁
      cases hp₁
    | ok p₂ =>
      rw [hstep] at hp₁
      exact ⟨p₁, hc, congrArg _ (Option.some.inj hp₁), hrest⟩
  · cases h

/-! ### Any configuration -/

/-- What all endpoints of a configuration have in common: the configuration, the two channels, and
the size of the fragment map. -/
structure Configured (config : PicklebackConfig) (p : Endpoint) : Prop where
  ids : p.channels.map Channel.id = [0, 1]
  fragLen : p.dispatcher.sentFragMap.len = config.sentFragMapSize
  config : p.config = config

namespace Configured

variable {config : PicklebackConfig} {p p' : Endpoint}

theorem new (overflowChecks : Bool) (config : PicklebackConfig) (time : Time) :
    (Endpoint.new overflowChecks config time).Configured config :=
  ⟨rfl, rfl, rfl⟩

theorem sendMessage (hmax : config.maxMessageSize ≤ 1024 * 1024)
    (h : p.Configured config) {channel : UInt8}
    {payload : List UInt8} {res : Except PicklebackError MessageId}
    (hcall : p.sendMessage channel payload = .ok (p', res)) : p'.Configured config := by
  obtain ⟨-, hp⟩ | ⟨ch, ms, -, hch, -, hrec, hp⟩ := sendMessage_cases (h.config.symm ▸ hmax) hcall
  · rw [hp]
    exact ⟨h.ids, h.fragLen, h.config⟩
  · have hids : (p.channels.set channel (ch.pushAll ms)).map Channel.id =
      p.channels.map Channel.id :=
      ChannelList.map_id_set (by simp [ChannelList.id_of_get? hch])
    have hfrag := hrec.len_sentFragMap
    rw [hp]
    exact ⟨hids.trans h.ids, hfrag.trans h.fragLen, h.config⟩

theorem processAck (h : p.Configured config) {packetType : PacketType} {ack : UInt16 × Bool}
    (hcall : p.processAck packetType ack = .ok p') : p'.Configured config := by
  obtain rfl | ⟨sentMeta, buffers, d, channels, -, -, hd, hp'⟩ := processAck_cases hcall
  · exact h
  · have hids : channels.map Channel.id = p.channels.map Channel.id := by
      rw [MessageDispatcher.ackedPacket] at hd
      split at hd
      · exact ChannelList.map_id_of_forall₂ (fun _ _ hch => hch)
          (MessageDispatcher.forall₂_ackHandles
          (R := fun ch ch' => ch'.id = ch.id) (fun _ => rfl) (fun h h' => h'.trans h)
          Channel.id_messageAckReceived (by rw [h.ids]; decide) hd)
      · cases hd
        rfl
    rw [hp']
    exact ⟨hids.trans h.ids, (len_ackedPacket hd).trans h.fragLen, h.config⟩

theorem receiveMessage (h : p.Configured config) {m : Message}
    (hcall : p.receiveMessage m = .ok p') :
    p'.Configured config := by
  simp only [Endpoint.receiveMessage] at hcall
  split at hcall
  · cases hcall
    exact h
  · next ch hch =>
    have hids : (p.channels.set m.channel (ch.acceptsMessage m.id).2).map Channel.id = [0, 1] :=
      (ChannelList.map_id_set ((ch.id_acceptsMessage m.id).trans
        (ChannelList.id_of_get? hch))).trans h.ids
    split at hcall
    · obtain ⟨d, hd, rfl⟩ := exists_of_map_eq_ok hcall
      refine ⟨hids, ?_, h.config⟩
      show d.sentFragMap.len = config.sentFragMapSize
      rw [MessageDispatcher.processReceivedMessage_eq_ok hd]
      exact h.fragLen
    · cases hcall
      exact ⟨hids, h.fragLen, h.config⟩

theorem processIncomingPacket (h : p.Configured config) {header : ProtocolPacketHeader}
    {payload : List UInt8}
    {r : Except PicklebackError Unit}
    (hcall : p.processIncomingPacket header payload = .ok (p', r)) :
    p'.Configured config := by
  refine processIncomingPacket_induct (I := Configured config) ?_ ?_
    (fun h hack => h.processAck hack)
    (fun h hm => h.receiveMessage hm) h hcall
  · intro q q' hq hsame
    rw [hsame]
    exact ⟨hq.ids, hq.fragLen, hq.config⟩
  · intro q b id m hq _
    exact ⟨hq.ids, hq.fragLen, hq.config⟩

theorem sendControl (h : p.Configured config) {packetType : PacketType}
    {build : ProtocolPacketHeader → ProtocolPacket} {r : Except PicklebackError Unit}
    (hcall : p.sendControl packetType build = .ok (p', r)) : p'.Configured config := by
  obtain ⟨-, hp⟩ | ⟨_, _, _, _, _, _, -, -, -, -, hp⟩ := sendControl_cases hcall <;>
  · rw [hp]
    exact ⟨h.ids, h.fragLen, h.config⟩

theorem launchesAll (h : p.Configured config) {headers : List ProtocolPacketHeader}
    (hall : p.LaunchesAll headers p') : p'.Configured config := by
  induction hall with
  | nil _ => exact h
  | cons hlaunches _ ih =>
    refine ih ⟨hlaunches.ids.trans h.ids, ?_, ?_⟩ <;> rw [hlaunches.rest]
    · exact h.fragLen
    · exact h.config

theorem visitPacketsToSend (h : p.Configured config) {packets : List (List UInt8)}
    (hcall : p.visitPacketsToSend = .ok (p', packets)) : p'.Configured config := by
  obtain ⟨headers, p₁, p₂, r, -, hall, hstops, rfl, -⟩ := visitPacketsToSend_launchesAll hcall
  have h₁ := h.launchesAll hall
  cases hstops <;> exact ⟨h₁.ids, h₁.fragLen, h₁.config⟩

theorem step (hmax : config.maxMessageSize ≤ 1024 * 1024) (h : p.Configured config) {c : Call}
    (hstep : p.step c = .ok p') : p'.Configured config := by
  cases c with
  | sendMessage channel payload =>
    obtain ⟨⟨p₁, res⟩, hcall, rfl⟩ := exists_of_map_eq_ok hstep
    exact h.sendMessage hmax hcall
  | update dt =>
    cases hstep
    have hids : (p.update dt).channels.map Channel.id = p.channels.map Channel.id := by
      rw [Endpoint.update, List.map_map]
      exact List.map_congr_left fun c _ => c.id_update dt
    exact ⟨hids.trans h.ids, h.fragLen, h.config⟩
  | visitPacketsToSend =>
    obtain ⟨⟨p₁, packets⟩, hcall, rfl⟩ := exists_of_map_eq_ok hstep
    exact h.visitPacketsToSend hcall
  | sendControl packetType build =>
    obtain ⟨⟨p₁, r⟩, hcall, rfl⟩ := exists_of_map_eq_ok hstep
    exact h.sendControl hcall
  | processIncomingPacket header payload =>
    obtain ⟨⟨p₁, r⟩, hcall, rfl⟩ := exists_of_map_eq_ok hstep
    exact h.processIncomingPacket hcall
  | _ =>
    cases hstep
    exact ⟨h.ids, h.fragLen, h.config⟩

end Configured

/-- **Every reachable endpoint** has the configuration it was made with. -/
theorem Reachable.configured {overflowChecks : Bool} {config : PicklebackConfig} {p : Endpoint}
    (h : Reachable overflowChecks config p) (hmax : config.maxMessageSize ≤ 1024 * 1024) :
    p.Configured config := by
  induction h with
  | new time => exact .new overflowChecks config time
  | step _ hstep ih => exact ih.step hmax hstep

theorem Intact.configured {p : Endpoint} (h : p.Intact) : p.Configured .default :=
  ⟨h.ids, h.fragLen, h.config⟩

/-! ### Which sends succeed -/

section Admitted

variable {config : PicklebackConfig} {p : Endpoint} {channel : UInt8}
  {ch : Channel} {payload : List UInt8}

/-- The channels of an endpoint. -/
theorem Configured.channel_eq (h : p.Configured config) (hch : p.channels.get? channel = some ch) :
    channel = 0 ∨ channel = 1 := by
  have hid : ch.id ∈ p.channels.map Channel.id := List.mem_map_of_mem (ChannelList.mem_of_get? hch)
  rwa [h.ids, ChannelList.id_of_get? hch, List.mem_pair] at hid

theorem Configured.channel_lt (h : p.Configured config) (hch : p.channels.get? channel = some ch) :
    channel < 64 := by
  rcases h.channel_eq hch with rfl | rfl <;> decide

/-- The endpoint has both channels. -/
theorem Intact.exists_get? (h : p.Intact) (hc : channel = 0 ∨ channel = 1) :
    ∃ ch, p.channels.get? channel = some ch := by
  have hmem : channel ∈ p.channels.map Channel.id := by
    rw [h.ids, List.mem_pair]
    exact hc
  obtain ⟨ch, hch, rfl⟩ := List.mem_map.mp hmem
  refine Option.isSome_iff_exists.mp ?_
  rw [ChannelList.get?, List.find?_isSome]
  exact ⟨ch, hch, beq_self_eq_true _⟩

theorem Intact.maxMessageSize (h : p.Intact) : p.config.maxMessageSize = 1024 * 1024 := by
  rw [h.config]
  rfl

/-- An admitted send is a call of the dispatcher. -/
theorem sendMessage_admitted (hch : p.channels.get? channel = some ch)
    (hlen : payload.length ≤ p.config.maxMessageSize)
    (hunacked : p.sentUnackedPackets < maxUnackedPackets) :
    p.sendMessage channel payload
      = (p.dispatcher.addMessageToChannel p.overflowChecks p.pool ch payload).map fun r =>
        ({ p with
          stats := { p.stats with messageSends := p.stats.messageSends + 1 }
          dispatcher := r.2.1
          channels := p.channels.set channel r.2.2.1
          pool := r.2.2.2 }, r.1) := by
  rw [Endpoint.sendMessage, if_neg (by omega), if_neg (UInt16.not_le.mpr hunacked)]
  simp only [hch]
  cases p.dispatcher.addMessageToChannel p.overflowChecks p.pool ch payload <;> rfl

/-- A large send whose fragments can be cut returns; it succeeds if its id can be registered. -/
theorem sendMessage_large (h : p.Configured config) (hmax : config.maxMessageSize ≤ 1024 * 1024)
    (hch : p.channels.get? channel = some ch) (hlen : payload.length ≤ p.config.maxMessageSize)
    (hlarge : 1024 < payload.length)
    (hunacked : p.sentUnackedPackets < maxUnackedPackets)
    (hcut : Cuttable p.overflowChecks payload) :
    ∃ p' res, p.sendMessage channel payload = .ok (p', res) ∧
      ((∃ id, res = .ok id) ↔ p.dispatcher.Registers) := by
  have hid : ch.id < 64 := ChannelList.id_of_get? hch ▸ h.channel_lt hch
  obtain ⟨res, d', ch', pool', hadd, hiff⟩ :=
    exists_addLargeMessageToChannel (hlen.trans (h.config.symm ▸ hmax))
      hlarge hcut p.dispatcher p.pool hid
  rw [sendMessage_admitted hch hlen hunacked, addMessageToChannel,
    if_neg (Nat.not_le.mpr hlarge), hadd]
  exact ⟨_, res, rfl, hiff⟩

/-- In a build that panics on overflow, a send from 64 kB on does not return. -/
theorem sendMessage_overflow (h : p.Configured config) (hmax : config.maxMessageSize ≤ 1024 * 1024)
    (hch : p.channels.get? channel = some ch) (hlen : payload.length ≤ p.config.maxMessageSize)
    (hunacked : p.sentUnackedPackets < maxUnackedPackets)
    (hcut : ¬ Cuttable p.overflowChecks payload) :
    ∃ q, p.sendMessage channel payload = .error q := by
  rw [Cuttable, Classical.not_imp, Nat.not_lt] at hcut
  obtain ⟨hchecks, hbig⟩ := hcut
  obtain ⟨q, hq⟩ := addLargeMessageToChannel_overflow (hlen.trans (h.config.symm ▸ hmax))
    hbig p.dispatcher p.pool ch
  rw [sendMessage_admitted hch hlen hunacked, addMessageToChannel, if_neg (by omega), hchecks, hq]
  exact ⟨q, rfl⟩

end Admitted

theorem Configured.sendMessage_ok_iff {config : PicklebackConfig}
    {p : Endpoint} (h : p.Configured config)
    (hmax : config.maxMessageSize ≤ 1024 * 1024) {channel : UInt8} {ch : Channel}
    (hch : p.channels.get? channel = some ch) {payload : List UInt8}
    (hlen : payload.length ≤ p.config.maxMessageSize)
    (hunacked : p.sentUnackedPackets < maxUnackedPackets) :
    (∃ p' id, p.sendMessage channel payload = .ok (p', .ok id)) ↔
      payload.length ≤ 1024 ∨ Cuttable p.overflowChecks payload ∧ p.dispatcher.Registers := by
  rcases Nat.lt_or_ge 1024 payload.length with hlarge | hsmall
  · by_cases hcut : Cuttable p.overflowChecks payload
    · obtain ⟨p', res, hcall, hiff⟩ := sendMessage_large h hmax hch hlen hlarge hunacked hcut
      rw [hcall]
      constructor
      · rintro ⟨p₁, id, heq⟩
        cases heq
        exact Or.inr ⟨hcut, hiff.mp ⟨id, rfl⟩⟩
      · rintro (hle | ⟨-, hreg⟩)
        · omega
        · obtain ⟨id, rfl⟩ := hiff.mpr hreg
          exact ⟨p', id, rfl⟩
    · obtain ⟨q, hq⟩ := sendMessage_overflow h hmax hch hlen hunacked hcut
      rw [hq]
      constructor
      · rintro ⟨p', id, heq⟩
        cases heq
      · rintro (hle | ⟨hcut', -⟩)
        · omega
        · exact absurd hcut' hcut
  · refine iff_of_true ?_ (Or.inl hsmall)
    have hid : ch.id < 64 := ChannelList.id_of_get? hch ▸ h.channel_lt hch
    obtain ⟨r, hr⟩ := ch.exists_enqueueMessage hid p.pool p.dispatcher.nextMessageId none hsmall
      fun f hf => by cases hf
    rw [sendMessage_admitted hch hlen hunacked, addMessageToChannel, if_pos hsmall]
    dsimp only
    rw [hr]
    exact ⟨_, _, rfl⟩

/-- **Admitted sends.** In every reachable state, on an existing channel, with a payload that is not
too big and few packets unacked, `send_message` returns an id if and only if the payload is at most
1024 bytes, or its fragments can be cut and the next id is not behind the window of
`sent_frag_map`. -/
theorem sendMessage_returns_ok_iff {overflowChecks : Bool} {p : Endpoint}
    (h : Reachable overflowChecks .default p) {channel : UInt8}
    (hch : (p.channels.get? channel).isSome) {payload : List UInt8}
    (hlen : payload.length ≤ p.config.maxMessageSize)
    (hunacked : p.sentUnackedPackets < maxUnackedPackets) :
    (∃ p' id, p.sendMessage channel payload = .ok (p', .ok id)) ↔
      payload.length ≤ 1024 ∨ Cuttable p.overflowChecks payload ∧ p.dispatcher.Registers := by
  obtain ⟨ch, hch⟩ := Option.isSome_iff_exists.mp hch
  exact h.intact.configured.sendMessage_ok_iff le_rfl hch hlen hunacked

/-- A small and a large message are queued, and two packets of the peer have come in. -/
def busyCalls : List Call :=
  [.setXorSalt (some 7), .sendMessage 0 [3], .sendMessage 1 (List.replicate 1025 0),
  .visitPacketsToSend, .processIncomingPacket ⟨.keepAlive, 1,
    some ⟨1, 1, AckHeader.padded [1], 1, 0, 0⟩⟩ [],
  .update 1, .sendMessage 0 (List.replicate 2048 1)]

/-- Another large send, when five message ids have been given out and a packet has been acked. -/
theorem sendMessage_returns_ok_iff_busy :
    ∃ p, (Endpoint.new true .default 0).run busyCalls = .ok p ∧
    p.dispatcher.nextMessageId = 5 ∧ p.newestAck = some 1 ∧
      ((∃ p' id, p.sendMessage 1 (List.replicate 1025 4) = .ok (p', .ok id)) ↔
        (List.replicate 1025 (4 : UInt8)).length ≤ 1024 ∨
          Cuttable p.overflowChecks (List.replicate 1025 4) ∧ p.dispatcher.Registers) := by
  obtain ⟨p, hrun, htest⟩ := exists_of_any_toOption (show
    ((Endpoint.new true .default 0).run busyCalls).toOption.any (fun p => decide
      (p.dispatcher.nextMessageId = 5 ∧ p.newestAck = some 1 ∧ (p.channels.get? 1).isSome ∧
        p.config.maxMessageSize = 1048576 ∧ p.sentUnackedPackets < maxUnackedPackets)) = true by
    decide +kernel)
  obtain ⟨hid, hacked, hch, hmax, hunacked⟩ := of_decide_eq_true htest
  exact ⟨p, hrun, hid, hacked, sendMessage_returns_ok_iff ((Reachable.new 0).run hrun) hch
    (by rw [List.length_replicate, hmax]; decide) hunacked⟩

/-! ### A large send after many small ones -/

/-- Empty messages on channel 0, one after another, move the counter and nothing else of the
dispatcher. -/
theorem exists_run_fillers {p : Endpoint} (h : p.Intact)
    (hunacked : p.sentUnackedPackets < maxUnackedPackets) (n : ℕ) :
    ∃ p', p.run (List.replicate n (.sendMessage 0 [])) = .ok p' ∧ p'.Intact ∧
      p'.dispatcher.nextMessageId = p.dispatcher.nextMessageId + UInt16.ofNat n ∧
      p'.dispatcher.sentFragMap = p.dispatcher.sentFragMap ∧
      p'.sentUnackedPackets = p.sentUnackedPackets := by
  induction n generalizing p with
  | zero => exact ⟨p, rfl, h, by simp, rfl, rfl⟩
  | succ n ih =>
    obtain ⟨ch, hch⟩ := h.exists_get? (Or.inl rfl)
    obtain ⟨p₁, hcall⟩ := exists_sendMessage hch (by decide) (List.length_nil.trans_le (by omega))
      (by rw [h.maxMessageSize]; omega) (UInt16.not_le.mpr hunacked)
    obtain ⟨⟨e, he⟩, -⟩ | ⟨ch', ms, -, -, hblock, hrec, hp₁⟩ :=
      sendMessage_cases h.maxMessageSize.le hcall
    · cases he
    have hone : ms.length = 1 := by
      rw [SendBlock, if_pos (by decide)] at hblock
      obtain ⟨m, rfl, -⟩ := hblock
      rfl
    have hnext := hrec.nextMessageId
    rw [hone] at hnext
    have hmap : p₁.dispatcher.sentFragMap = p.dispatcher.sentFragMap := by
      generalize hd : p₁.dispatcher = d at hrec
      cases hrec with
      | whole _ => rfl
      | fragmented hsize _ => exact absurd (by decide) hsize
    have hunacked₁ : p₁.sentUnackedPackets = p.sentUnackedPackets := by rw [hp₁, sentUnackedPackets,
      sentUnackedPackets]
    obtain ⟨p', hrun, h', hid, hmap', hunacked'⟩ := ih (h.sendMessage hcall) (hunacked₁ ▸ hunacked)
    refine ⟨p', ?_, h', ?_, hmap'.trans hmap, hunacked'.trans hunacked₁⟩
    · rw [List.replicate_succ, run, List.foldlM_cons]
      simp only [step, hcall, Except.map]
      exact hrun
    · rw [hid, hnext, Nat.add_comm n 1, UInt16.ofNat_add, UInt16.add_assoc]

/-- The state after ten thousand empty messages: the next id is behind the window of
`sent_frag_map`, which has not moved yet. -/
theorem exists_behind_window :
    ∃ p, (Endpoint.new false .default 0).run (List.replicate 10000 (.sendMessage 0 [])) = .ok p ∧
      p.Intact ∧ p.sentUnackedPackets < maxUnackedPackets ∧ ¬ p.dispatcher.Registers := by
  have h := intact_new false 0
  obtain ⟨p, hrun, hp, hid, hmap, hunacked⟩ := exists_run_fillers h (by decide) 10000
  refine ⟨p, hrun, hp, ?_, ?_⟩
  · rw [hunacked]
    decide
  · rw [Registers, hid, hmap, h.fragLen]
    decide

/-- A large send that is refused: the error, and what the call leaves behind. -/
theorem sendMessage_refused {config : PicklebackConfig} {p : Endpoint}
    {channel : UInt8} {payload : List UInt8}
    (h : p.Configured config) (hmax : config.maxMessageSize ≤ 1024 * 1024)
    (hch : (p.channels.get? channel).isSome) (hlarge : 1024 < payload.length)
    (hlen : payload.length ≤ p.config.maxMessageSize)
    (hunacked : p.sentUnackedPackets < maxUnackedPackets) (hcut : Cuttable p.overflowChecks payload)
    (hreg : ¬ p.dispatcher.Registers) :
    ∃ p', p.sendMessage channel payload = .ok (p', .error .sequenceTooOld) ∧
      p'.dispatcher.nextMessageId = p.dispatcher.nextMessageId + UInt16.ofNat
      (numFragments payload) := by
  obtain ⟨ch, hch⟩ := Option.isSome_iff_exists.mp hch
  have hid : ch.id < 64 := ChannelList.id_of_get? hch ▸ h.channel_lt hch
  have hsize : payload.length ≤ 1024 * 1024 := hlen.trans (h.config.symm ▸ hmax)
  obtain ⟨res, d', ch', pool', hlargeAdd, hiff⟩ :=
    exists_addLargeMessageToChannel hsize hlarge hcut p.dispatcher p.pool hid
  have hadd : p.dispatcher.addMessageToChannel p.overflowChecks p.pool ch payload
      = .ok (res, d', ch', pool') := by
    rw [addMessageToChannel, if_neg (by omega), hlargeAdd]
  obtain ⟨ms, hblock, -, hrec⟩ := addMessageToChannel_eq_ok hsize hadd
  rw [SendBlock, if_neg (by omega)] at hblock
  rw [sendMessage_admitted hch hlen hunacked, hadd]
  cases hrec with
  | whole hsize => omega
  | fragmented _ _ => exact absurd (hiff.mp ⟨_, rfl⟩) hreg
  | tooOld _ he =>
    obtain ⟨rfl, -⟩ := SequenceBuffer.insert_eq_error_iff.mp he
    exact ⟨_, rfl, by rw [← hblock.1]⟩

/-- After ten thousand empty messages, a payload of 1025 bytes is admitted and refused, in a build
whose arithmetic wraps. -/
theorem not_sendMessage_ok_after_fillers :
    ∃ p, (Endpoint.new false .default 0).run (List.replicate 10000 (.sendMessage 0 [])) = .ok p ∧
      Reachable false .default p ∧ (p.channels.get? 1).isSome ∧
      (List.replicate 1025 (0 : UInt8)).length ≤ p.config.maxMessageSize ∧
      p.sentUnackedPackets < maxUnackedPackets ∧
      ¬ ∃ p' id, p.sendMessage 1 (List.replicate 1025 0) = .ok (p', .ok id) := by
  obtain ⟨p, hrun, h, hunacked, hreg⟩ := exists_behind_window
  obtain ⟨ch, hch⟩ := h.exists_get? (Or.inr rfl)
  have hlen : (List.replicate 1025 (0 : UInt8)).length ≤ p.config.maxMessageSize := by
    rw [List.length_replicate, h.maxMessageSize]
    omega
  refine ⟨p, hrun, (Reachable.new 0).run hrun, hch ▸ rfl, hlen, hunacked, ?_⟩
  rw [h.configured.sendMessage_ok_iff le_rfl hch hlen hunacked, List.length_replicate]
  rintro (hle | ⟨-, hreg'⟩)
  · omega
  · exact hreg hreg'

/-! ### What a failed send leaves behind -/

/-- The queues, the message counter, the fragment map and the pool are as before. -/
def Untouched (p p' : Endpoint) : Prop :=
  p'.channels = p.channels ∧ p'.dispatcher.nextMessageId = p.dispatcher.nextMessageId ∧
    p'.dispatcher.sentFragMap = p.dispatcher.sentFragMap ∧ p'.pool = p.pool

/-- A send that passes every check and is refused when its parent id is registered. -/
def Refused (p : Endpoint) (channel : UInt8) (payload : List UInt8) : Prop :=
  (p.channels.get? channel).isSome ∧ 1024 < payload.length ∧
    payload.length ≤ p.config.maxMessageSize ∧
    p.sentUnackedPackets < maxUnackedPackets ∧ Cuttable p.overflowChecks payload ∧
    ¬ p.dispatcher.Registers

/-- A failed send that was not refused by the fragment map stopped at one of the checks. -/
theorem untouched_of_not_refused {config : PicklebackConfig} {p p' : Endpoint}
    (h : p.Configured config)
    (hmax : config.maxMessageSize ≤ 1024 * 1024) {channel : UInt8}
    {payload : List UInt8} (href : ¬ p.Refused channel payload)
    {e : PicklebackError} (hcall : p.sendMessage channel payload = .ok (p', .error e)) :
    p.Untouched p' := by
  by_cases hlen : payload.length ≤ p.config.maxMessageSize
  · by_cases hunacked : p.sentUnackedPackets < maxUnackedPackets
    · cases hch : p.channels.get? channel with
      | none =>
        rw [Endpoint.sendMessage, if_neg (by omega), if_neg (UInt16.not_le.mpr hunacked)] at hcall
        simp only [hch] at hcall
        cases hcall
        exact ⟨rfl, rfl, rfl, rfl⟩
      | some ch =>
        have hcut : Cuttable p.overflowChecks payload := by
          by_contra hcut
          obtain ⟨q, hq⟩ := sendMessage_overflow h hmax hch hlen hunacked hcut
          rw [hq] at hcall
          cases hcall
        -- the call does not return an id, so the payload is large and its id behind the window
        have hfailed : ¬ ∃ p₁ id, p.sendMessage channel payload = .ok (p₁, .ok id) := by
          rintro ⟨p₁, id, heq⟩
          rw [hcall] at heq
          cases heq
        rw [h.sendMessage_ok_iff hmax hch hlen hunacked, not_or] at hfailed
        refine absurd ⟨?_, by omega, hlen, hunacked, hcut, fun hreg => hfailed.2 ⟨hcut, hreg⟩⟩ href
        rw [hch]
        rfl
    · rw [Endpoint.sendMessage, if_neg (by omega), if_pos (UInt16.not_lt.mp hunacked)] at hcall
      cases hcall
      exact ⟨rfl, rfl, rfl, rfl⟩
  · rw [Endpoint.sendMessage, if_pos (by omega)] at hcall
    cases hcall
    exact ⟨rfl, rfl, rfl, rfl⟩

/-- **Failed sends.** In every reachable state of an endpoint with any configuration, for every
channel number and payload: whenever the call returns an error it has left the queues, the counter,
the fragment map and the pool alone, if and only if it is not a large send that is refused when its
parent id is registered. -/
theorem sendMessage_untouched_iff {overflowChecks : Bool} {config : PicklebackConfig}
    (hmax : config.maxMessageSize ≤ 1024 * 1024) {p : Endpoint}
    (h : Reachable overflowChecks config p)
    (channel : UInt8) (payload : List UInt8) :
    (∀ p' e, p.sendMessage channel payload = .ok (p', .error e) → p.Untouched p') ↔
      ¬ p.Refused channel payload := by
  have hconfigured := h.configured hmax
  constructor
  · rintro hall ⟨hch, hlarge, hlen, hunacked, hcut, hreg⟩
    obtain ⟨p', hcall, hid⟩ :=
      sendMessage_refused hconfigured hmax hch hlarge hlen hunacked hcut hreg
    have hsame := (hall p' _ hcall).2.1
    rw [hid] at hsame
    have hzero : UInt16.ofNat (numFragments payload) = 0 := by
      rwa [UInt16.add_eq_left] at hsame
    have hN := toNat_ofNat_numFragments (hlen.trans (hconfigured.config.symm ▸ hmax))
    rw [hzero, UInt16.toNat_zero] at hN
    have hpos : 0 < numFragments payload := lt_numFragments_iff.mpr (by rw [Nat.zero_mul]; omega)
    exact absurd hN hpos.ne
  · intro href p' e hcall
    exact untouched_of_not_refused hconfigured hmax href hcall

/-- A fragment map of thirty thousand entries. -/
def largeMap : PicklebackConfig := { PicklebackConfig.default with sentFragMapSize := 30000 }

/-- A large send, a small one, and one that fails: there is no channel 2. -/
theorem sendMessage_untouched_iff_noSuchChannel :
    ∃ p p', (Endpoint.new true largeMap 0).run
        [.sendMessage 1 (List.replicate 1025 0), .sendMessage 0 [7]] = .ok p ∧
      p.dispatcher.nextMessageId = 3 ∧ p.sendMessage 2 [7] = .ok (p', .error .noSuchChannel) ∧
      ((∀ p' e, p.sendMessage 2 [7] = .ok (p', .error e) → p.Untouched p') ↔
        ¬ p.Refused 2 [7]) := by
  obtain ⟨p, hrun, htest⟩ := exists_of_any_toOption (show ((Endpoint.new true largeMap 0).run
      [.sendMessage 1 (List.replicate 1025 0), .sendMessage 0 [7]]).toOption.any (fun p =>
        decide (p.dispatcher.nextMessageId = 3) && (p.sendMessage 2 [7]).toOption.any fun r =>
          decide (r.2 = .error .noSuchChannel)) = true by decide +kernel)
  rw [Bool.and_eq_true] at htest
  obtain ⟨⟨p', r⟩, hcall, hres⟩ := exists_of_any_toOption htest.2
  obtain rfl : r = .error .noSuchChannel := of_decide_eq_true hres
  exact ⟨p, p', hrun, of_decide_eq_true htest.1, hcall,
    sendMessage_untouched_iff le_rfl ((Reachable.new 0).run hrun) 2 [7]⟩

/-- The send refused after ten thousand empty messages has used up two message ids, and more. -/
theorem not_untouched_after_fillers :
    ∃ p p', (Endpoint.new false .default 0).run (List.replicate 10000 (.sendMessage 0 [])) = .ok p ∧
      Reachable false .default p ∧ p.sendMessage 1 (List.replicate 1025 0) = .ok
      (p', .error .sequenceTooOld) ∧
      ¬ p.Untouched p' := by
  obtain ⟨p, hrun, h, hunacked, hreg⟩ := exists_behind_window
  obtain ⟨ch, hch⟩ := h.exists_get? (Or.inr rfl)
  have hlength : (List.replicate 1025 (0 : UInt8)).length = 1025 := List.length_replicate
  have hcut : Cuttable p.overflowChecks (List.replicate 1025 0) := fun _ => by omega
  obtain ⟨p', hcall, hid⟩ := sendMessage_refused h.configured le_rfl (by rw [hch]; rfl) (by omega)
    (by rw [hlength, h.maxMessageSize]; omega) hunacked hcut hreg
  refine ⟨p, p', hrun, (Reachable.new 0).run hrun, hcall, fun hsame => ?_⟩
  have hid' := hsame.2.1
  have hN : numFragments (List.replicate 1025 (0 : UInt8)) = 2 := by
    rw [numFragments, hlength]
    rfl
  rw [hid, hN, UInt16.add_eq_left] at hid'
  exact absurd hid' (by decide)

end Endpoint

end Pickleback
