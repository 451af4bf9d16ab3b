import Pickleback.History
import Pickleback.Link
import Pickleback.MessageWire
import Pickleback.Reassembly

/-!
# The length of a received message

`ReceivedMessage::payload_len` adds up `Message::size`, the length of a message on the wire. The
buffer of a parsed message holds only its payload, so the sum is the length of the payload and of
one header: the last fragment's, or that of the single message. It is too large for every message
that is delivered.

## Main results

* `Endpoint.Taking.payloadLen_ne_length` — in no run does a delivered message give the length of its
  payload
-/

namespace Pickleback

/-! ### One message -/

/-- The size of a message counts its headers. -/
theorem Message.length_data_lt_size (m : Message) : m.buffer.data.length < m.size := by
  rw [size]
  omega

namespace ReceivedMessage

/-- `payload_len` is more than what `payload` yields. -/
def Overstates (msg : ReceivedMessage) : Prop :=
  ∃ n, msg.payloadLen? = some n ∧ msg.payload.length < n

theorem overstates_single (m : Message) : (single m).Overstates :=
  ⟨m.size, rfl, m.length_data_lt_size⟩

/-- Every fragment but the last is counted as full. -/
theorem overstates_fragmented {ms : List Message} (hne : ms ≠ [])
    (hms : ∀ m ∈ ms, m.buffer.data.length ≤ 1024) : (fragmented ms).Overstates := by
  refine ⟨1024 * (ms.length - 1) + (ms.getLast hne).size, ?_, ?_⟩
  · rw [payloadLen?, List.getLast?_eq_some_getLast hne, Option.map_some]
  · have hfull : (ms.dropLast.flatMap fun m => m.buffer.data).length ≤ 1024 * (ms.length - 1) := by
      have hmap : (ms.dropLast.map fun m => m.buffer.data.length).length = ms.length - 1 := by
        rw [List.length_map, List.length_dropLast]
      rw [List.length_flatMap, ← hmap, Nat.mul_comm]
      refine List.sum_le_card_nsmul _ 1024 fun n hn => ?_
      obtain ⟨m, hm, rfl⟩ := List.mem_map.mp hn
      exact hms m (List.mem_of_mem_dropLast hm)
    have hsplit : (ms.flatMap fun m => m.buffer.data)
        = (ms.dropLast.flatMap fun m => m.buffer.data) ++ (ms.getLast hne).buffer.data := by
      conv_lhs => rw [← List.dropLast_append_getLast hne]
      simp
    have hlast := (ms.getLast hne).length_data_lt_size
    rw [payload, hsplit, List.length_append]
    omega

end ReceivedMessage

/-! ### Dispatchers -/

namespace MessageDispatcher

variable {d d' : MessageDispatcher} {m : Message}

/-- No stored fragment is more than full, and every delivered message overstates its length. -/
structure Overstates (d : MessageDispatcher) : Prop where
  stored : d.messageReassembler.Stores fun _ m => m.buffer.data.length ≤ 1024
  inbox : ∀ channel, ∀ msg ∈ d.messageInbox channel, msg.Overstates

namespace Overstates

theorem of_intake (h : d.Overstates) (hreassembler : d'.messageReassembler = d.messageReassembler)
    (hinbox : d'.messageInbox = d.messageInbox) : d'.Overstates where
  stored := by
    rw [hreassembler]
    exact h.stored
  inbox := by
    rw [hinbox]
    exact h.inbox

theorem pushInbox (h : d.Overstates) {msg : ReceivedMessage}
    (hmsg : msg.channel? ≠ none → msg.Overstates)
    (hcall : d.pushInbox msg = .ok d') : d'.Overstates := by
  rw [MessageDispatcher.pushInbox] at hcall
  split at hcall
  · cases hcall
  · next channel hchannel =>
    cases hcall
    refine ⟨h.stored, fun c x hx => ?_⟩
    by_cases hc : c = channel
    · subst hc
      simp only [Function.update_self, List.mem_append, List.mem_singleton] at hx
      rcases hx with hold | rfl
      · exact h.inbox c x hold
      · exact hmsg (by rw [hchannel]; exact Option.some_ne_none c)
    · simp only [Function.update_of_ne hc] at hx
      exact h.inbox c x hx

/-- **One message**, parsed from what a sender encoded. -/
theorem processReceivedMessage (h : d.Overstates) (hm : m.buffer.data.length ≤ 1024)
    (hcall : d.processReceivedMessage m = .ok d') : d'.Overstates := by
  rw [MessageDispatcher.processReceivedMessage] at hcall
  split at hcall
  · exact h.pushInbox (fun _ => ReceivedMessage.overstates_single m) hcall
  · next hsome =>
    obtain ⟨f, hf⟩ := Option.ne_none_iff_exists'.mp fun hnone =>
      hsome (Option.isNone_iff_eq_none.mpr hnone)
    split at hcall
    · cases hcall
    · next r hadd =>
      cases hcall
      exact ⟨(h.stored.addFragment hf hm hadd).1, h.inbox⟩
    · next received r hadd =>
      obtain ⟨hstored, hreturned⟩ := h.stored.addFragment hf hm hadd
      obtain ⟨ms, rfl, hms⟩ := hreturned received rfl
      have h₁ : Overstates { d with messageReassembler := r } := ⟨hstored, h.inbox⟩
      refine h₁.pushInbox (fun hchannel => ReceivedMessage.overstates_fragmented ?_ hms) hcall
      rintro rfl
      exact hchannel rfl

end Overstates

end MessageDispatcher

/-! ### Endpoints -/

/-- A message as some send has encoded it, with a fragment number that its header can hold. -/
def Message.Outgoing (m : Message) : Prop :=
  ∃ c : MessageContent, c.WellFormed ∧ ¬ c.Truncated ∧ m.Writes c

namespace Endpoint

variable {p p' : Endpoint}

/-- A packet of messages brings messages that were sent. -/
def Call.Genuine : Call → Prop
  | .processIncomingPacket header payload => header.packetType = .messages →
    ∃ ms : List Message, (∀ m ∈ ms, m.Outgoing) ∧ payload = ms.flatMap fun m => m.buffer.data
  | _ => True

/-- The states of the runs of an endpoint whose peer encodes the messages it sends. -/
inductive Taking (overflowChecks : Bool) (config : PicklebackConfig) : Endpoint → Prop
  | new (time : Time) : Taking overflowChecks config (Endpoint.new overflowChecks config time)
  | step {p p' : Endpoint} {c : Call} (h : Taking overflowChecks config p) (hc : c.Genuine)
    (hstep : p.step c = .ok p') : Taking overflowChecks config p'

theorem overstates_receiveMessage (h : p.dispatcher.Overstates)
    {m : Message} (hm : m.buffer.data.length ≤ 1024)
    (hcall : p.receiveMessage m = .ok p') : p'.dispatcher.Overstates := by
  simp only [receiveMessage] at hcall
  split at hcall
  · cases hcall
    exact h
  · split at hcall
    · obtain ⟨d, hd, rfl⟩ := exists_of_map_eq_ok hcall
      exact h.processReceivedMessage hm hd
    · cases hcall
      exact h

/-- **The messages of one packet.** Each is parsed as it was encoded, up to where it ends. -/
theorem overstates_processMessages {ms : List Message} (hms : ∀ m ∈ ms, m.Outgoing)
    (h : p.dispatcher.Overstates) {fuel : ℕ} {r : Except PicklebackError Unit}
    (hcall : processMessages fuel p (ms.flatMap fun m => m.buffer.data) = .ok (p', r)) :
    p'.dispatcher.Overstates := by
  induction ms generalizing p fuel with
  | nil =>
    cases fuel with
    | zero => cases hcall
    | succ fuel =>
      cases hcall
      exact h
  | cons m ms ih =>
    obtain ⟨c, hwf, htrunc, hwrites⟩ := hms m (List.mem_cons_self ..)
    obtain ⟨b, tail, hdata⟩ := hwrites.2.2.2.exists_data
    cases fuel with
    | zero => cases hcall
    | succ fuel =>
      have hne : (m.buffer.data ++ ms.flatMap fun m => m.buffer.data).isEmpty = false := by
        rw [hdata]
        rfl
      obtain ⟨pool, m', hparse, hcontent⟩ :=
        Message.parse_encodes p.overflowChecks p.pool hwf htrunc hwrites
        (ms.flatMap fun m => m.buffer.data)
      have hlen : m'.buffer.data.length ≤ 1024 := by
        have hpayload : m'.buffer.data = c.payload := congrArg MessageContent.payload hcontent
        rw [hpayload]
        exact hwf.payload
      rw [List.flatMap_cons] at hcall
      simp only [processMessages, hne, Bool.false_eq_true, if_false, hparse] at hcall
      split at hcall
      · cases hcall
      · next p₁ hp₁ =>
        refine ih (fun x hx => hms x (List.mem_cons_of_mem _ hx)) ?_ hcall
        exact overstates_receiveMessage (by exact h) hlen hp₁

theorem overstates_processIncomingPacket (h : p.dispatcher.Overstates)
    {header : ProtocolPacketHeader}
    {payload : List UInt8} (hgenuine : (Call.processIncomingPacket header payload).Genuine)
    {r : Except PicklebackError Unit}
    (hcall : p.processIncomingPacket header payload = .ok (p', r)) :
    p'.dispatcher.Overstates := by
  refine processIncomingPacket_induct_messages (I := fun p => p.dispatcher.Overstates)
    ?_ ?_ ?_ ?_ h hcall
  · intro q q' hq hsame
    rw [hsame]
    exact hq
  · intro q b id m hq hb
    exact hq
  · intro q q' packetType ack hq _ hack
    obtain rfl | ⟨_, _, _, _, -, -, hd, hq'⟩ := processAck_cases hack
    · exact hq
    · have hsame := MessageDispatcher.sameIntake_ackedPacket hd
      rw [hq']
      exact hq.of_intake hsame.messageReassembler hsame.messageInbox
  · intro q q' r hq htype hmessages
    obtain ⟨ms, hms, hpayload⟩ := hgenuine htype
    rw [hpayload] at hmessages
    exact overstates_processMessages hms hq hmessages

/-- Sending a message leaves alone what was received. -/
theorem intake_sendMessage {channel : UInt8} {payload : List UInt8}
    {res : Except PicklebackError MessageId}
    (hcall : p.sendMessage channel payload = .ok (p', res)) :
    p'.dispatcher.messageReassembler = p.dispatcher.messageReassembler ∧
      p'.dispatcher.messageInbox = p.dispatcher.messageInbox := by
  simp only [sendMessage] at hcall
  split at hcall
  · cases hcall
    exact ⟨rfl, rfl⟩
  · split at hcall
    · cases hcall
      exact ⟨rfl, rfl⟩
    · split at hcall
      · cases hcall
        exact ⟨rfl, rfl⟩
      · split at hcall
        · cases hcall
        · next hadd =>
          cases hcall
          simp only [MessageDispatcher.addMessageToChannel] at hadd
          split at hadd
          · obtain ⟨r, -, heq⟩ := exists_of_map_eq_ok hadd
            cases heq
            exact ⟨rfl, rfl⟩
          · simp only [MessageDispatcher.addLargeMessageToChannel] at hadd
            split at hadd
            · cases hadd
            · split at hadd <;> cases hadd <;> exact ⟨rfl, rfl⟩

theorem overstates_launchesAll (h : p.dispatcher.Overstates) {headers : List ProtocolPacketHeader}
    (hall : p.LaunchesAll headers p') : p'.dispatcher.Overstates := by
  induction hall with
  | nil _ => exact h
  | cons hlaunches _ ih =>
    refine ih ?_
    rw [hlaunches.rest]
    exact h.of_intake rfl rfl

theorem overstates_step (h : p.dispatcher.Overstates) {c : Call} (hc : c.Genuine)
    (hstep : p.step c = .ok p') : p'.dispatcher.Overstates := by
  cases c with
  | setXorSalt salt =>
    cases hstep
    exact h
  | sendMessage channel payload =>
    obtain ⟨⟨p₁, res⟩, hcall, rfl⟩ := exists_of_map_eq_ok hstep
    obtain ⟨hreassembler, hinbox⟩ := intake_sendMessage hcall
    exact h.of_intake hreassembler hinbox
  | update dt =>
    cases hstep
    exact h
  | visitPacketsToSend =>
    obtain ⟨⟨p₁, packets⟩, hcall, rfl⟩ := exists_of_map_eq_ok hstep
    obtain ⟨headers, p₂, p₃, r, -, hall, hstop, rfl, -⟩ := visitPacketsToSend_launchesAll hcall
    have h₂ := overstates_launchesAll h hall
    rw [← hstop.dispatcher] at h₂
    exact h₂
  | sendControl packetType build =>
    obtain ⟨⟨p₁, r⟩, hcall, rfl⟩ := exists_of_map_eq_ok hstep
    rw [dispatcher_sendControl hcall]
    exact h
  | processIncomingPacket header payload =>
    obtain ⟨⟨p₁, r⟩, hcall, rfl⟩ := exists_of_map_eq_ok hstep
    exact overstates_processIncomingPacket h hc hcall
  | drainReceivedMessages channel =>
    cases hstep
    refine ⟨h.stored, fun c msg hmsg => ?_⟩
    by_cases hchannel : c = channel
    · subst hchannel
      simp [drainReceivedMessages] at hmsg
    · simp only [drainReceivedMessages, Function.update_of_ne hchannel] at hmsg
      exact h.inbox c msg hmsg
  | drainMessageAcks channel =>
    cases hstep
    exact h.of_intake rfl rfl

variable {overflowChecks : Bool} {config : PicklebackConfig}

theorem Taking.overstates (h : Taking overflowChecks config p) : p.dispatcher.Overstates := by
  induction h with
  | new time => exact ⟨MessageReassembler.stores_empty _, fun _ _ hmsg => by cases hmsg⟩
  | step _ hc hstep ih => exact overstates_step ih hc hstep

/-- **The length is never right.** Whatever an endpoint is asked to do, in any order, whatever its
configuration and whatever messages its peer encodes, split or whole: no message in an inbox gives
the length of its payload as its own. -/
theorem Taking.payloadLen_ne_length (h : Taking overflowChecks config p) {channel : UInt8}
    {msg : ReceivedMessage} (hmsg : msg ∈ p.dispatcher.messageInbox channel) :
    ∃ n, msg.payloadLen? = some n ∧ n ≠ msg.payload.length := by
  obtain ⟨n, hn, hlt⟩ := h.overstates.inbox channel msg hmsg
  exact ⟨n, hn, hlt.ne'⟩

/-- A packet that brings one message of three bytes. -/
def threeBytes : Call := .processIncomingPacket ⟨.messages, 1, none⟩ [0, 0, 0, 3, 1, 2, 3]

theorem genuine_threeBytes : threeBytes.Genuine := by
  intro _
  let c : MessageContent := ⟨0, 0, [1, 2, 3], none⟩
  have hwf : c.WellFormed := ⟨by decide, by decide, fun f hf => by cases hf⟩
  obtain ⟨m, pool, -, hwrites⟩ := Message.exists_build hwf BufPool.default
  refine ⟨[m], by simpa using ⟨c, hwf, by decide, hwrites⟩, ?_⟩
  obtain ⟨hid, hchannel, hfragment, -, -, hmode, headers, hheaders, hdata⟩ := hwrites
  rw [hid, hchannel, hfragment, hmode] at hheaders
  have hbytes : headers = [0, 0, 0, 3] := by
    cases hheaders
    decide
  simp [hdata, hbytes, c]

theorem payloadLen_ne_length_threeBytes :
    ∃ p msg, (Endpoint.new true .default 0).step threeBytes = .ok p ∧
    msg ∈ p.dispatcher.messageInbox 0 ∧ msg.payload = [1, 2, 3] ∧
      ∃ n, msg.payloadLen? = some n ∧ n ≠ msg.payload.length := by
  obtain ⟨p, hstep, htest⟩ := exists_of_any_toOption (show
    ((Endpoint.new true .default 0).step threeBytes).toOption.any (fun p =>
      (p.dispatcher.messageInbox 0).map ReceivedMessage.payload = [[1, 2, 3]]) = true by
        decide +kernel)
  obtain ⟨msg, hmsg, hpayload⟩ := List.map_eq_singleton_iff.mp (of_decide_eq_true htest)
  have hmem : msg ∈ p.dispatcher.messageInbox 0 := by
    rw [hmsg]
    exact List.mem_singleton_self msg
  exact ⟨p, msg, hstep, hmem, hpayload,
    Taking.payloadLen_ne_length ((Taking.new 0).step genuine_threeBytes hstep) hmem⟩

end Endpoint

/-- Two endpoints: three bytes are sent, and the message that is delivered says seven. -/
theorem Link.not_payloadLen_eq : ¬ ∀ l, Reachable Permits l → ∀ e channel,
    ∀ msg ∈ (l.endpoint e).dispatcher.messageInbox channel,
      msg.payloadLen? = some msg.payload.length := by
  intro hall
  have hrun : ((start (fun _ => true) (fun _ => 1) fun _ => 7).run Permits
      [fun _ => .sendMessage .left 0 [1, 2, 3], fun _ => .visitPacketsToSend .left,
        deliverAt 0]).map
        (fun l => ((l.endpoint .right).dispatcher.messageInbox 0).map fun msg =>
          (msg.payload, msg.payloadLen?))
      = some [([1, 2, 3], some 7)] := by decide +kernel
  obtain ⟨l, hl, hinbox⟩ := Option.map_eq_some_iff.mp hrun
  obtain ⟨msg, hmsg, hlen⟩ := List.map_eq_singleton_iff.mp hinbox
  have hreach : Reachable Permits l := reachable_of_run (.start _ _ _) hl
  have hclaim := hall l hreach .right 0 msg (by rw [hmsg]; exact List.mem_singleton_self msg)
  rw [Prod.mk.injEq] at hlen
  rw [hlen.1, hlen.2] at hclaim
  cases hclaim

end Pickleback
