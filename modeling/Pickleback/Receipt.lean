import Pickleback.AckInbox
import Pickleback.AckLedger
import Pickleback.PayloadIntegrity

/-!
# What an ack of a packet says of its messages

A side acks a packet as soon as it has accepted it. What becomes of the messages in it is decided
afterwards, by the windows of the channels and by the reassembler. The ack is taken for an ack of
the messages all the same, so it is right if every message in the packet was taken, or had been
taken before.

An id is given to a call again after 65536 messages. What is said of an id here is said of the last
call that got it.

## Main definitions

* `newestCall` — the last call that has an id
* `MessageDispatcher.HasNewest` — the receiver has a message of the last call with its id
* `MessageDispatcher.Arrives`, `TakesAll` — the messages of a packet are those of last calls, and
  all are taken
* `MessageDispatcher.Tracks` — fragments that are acked are there
* `MessageDispatcher.Delivered` — the last call with an id is in the inbox

## Main results

* `MessageDispatcher.Arrives.processReceivedMessage`, `Endpoint.hasNewest_processIncomingPacket` —
  taking a message, taking those of a packet
* `MessageDispatcher.Tracks.ackHandles`, `Endpoint.delivered_processIncomingPacket` — the ids that
  acks push
* `Endpoint.Accounts.mem_ackInbox` — the id of a whole message is pushed when its packet is acked
-/

namespace Pickleback

/-! ### Calls and their ids -/

namespace MessageContent

/-- The id by which the application knows the message. -/
def key (c : MessageContent) : MessageId :=
  match c.fragment with
  | some f => f.parentId
  | none => c.id

/-- What the sender remembers of the message. -/
def handle (c : MessageContent) : MessageHandle := ⟨c.id, c.fragment.map Fragment.index, c.channel⟩

end MessageContent

/-- The last of some calls that has the id. -/
def newestCall (calls : List SendCall) (id : MessageId) : Option SendCall :=
  calls.reverse.find? fun s => s.firstId == id

section NewestCall

variable {calls : List SendCall} {id : MessageId} {s : SendCall}

theorem newestCall_concat (calls : List SendCall) (s : SendCall) (id : MessageId) :
    newestCall (calls ++ [s]) id = if s.firstId = id then some s else newestCall calls id := by
  rw [newestCall, List.reverse_append, List.reverse_singleton, List.singleton_append]
  by_cases h : s.firstId = id
  · rw [List.find?_cons_of_pos (by simpa using h), if_pos h]
  · rw [List.find?_cons_of_neg (by simpa using h), if_neg h, newestCall]

theorem mem_of_newestCall (h : newestCall calls id = some s) : s ∈ calls :=
  List.mem_reverse.mp (List.mem_of_find?_eq_some h)

theorem firstId_of_newestCall (h : newestCall calls id = some s) : s.firstId = id := by
  simpa using List.find?_some h

end NewestCall

namespace SendCall

variable {s : SendCall} {c c' : MessageContent}

/-- All messages of a call go by its id. -/
theorem key_of_mem (hc : c ∈ s.contents) : c.key = s.firstId := by
  rw [contents] at hc
  split at hc
  · rw [List.mem_singleton.mp hc]
    rfl
  · obtain ⟨i, -, rfl⟩ := List.mem_map.mp hc
    rfl

/-- The handle of a fragment leads back to the id of its call. -/
theorem parentId_handle (hc : c ∈ s.contents) {f : Fragment} (hf : c.fragment = some f) :
    c.handle.parentId = some s.firstId := by
  rw [contents] at hc
  split at hc
  · rw [List.mem_singleton.mp hc] at hf
    cases hf
  · obtain ⟨i, -, rfl⟩ := List.mem_map.mp hc
    simp [MessageContent.handle, MessageHandle.parentId]

/-- The messages of a call are told apart by their ids. -/
theorem eq_of_id (hs : s.Regular) (hc : c ∈ s.contents) (hc' : c' ∈ s.contents)
    (hid : c.id = c'.id) : c = c' := by
  have hmax := numFragments_le hs.payload
  rw [contents] at hc hc'
  split at hc
  · next hsmall =>
    rw [if_pos hsmall] at hc'
    exact (List.mem_singleton.mp hc).trans (List.mem_singleton.mp hc').symm
  · next hlarge =>
    rw [if_neg hlarge] at hc'
    obtain ⟨i, hi, rfl⟩ := List.mem_map.mp hc
    obtain ⟨j, hj, rfl⟩ := List.mem_map.mp hc'
    rw [List.mem_range] at hi hj
    have := congrArg UInt16.toNat ((UInt16.add_right_inj _).mp hid)
    rw [UInt16.toNat_ofNat', UInt16.toNat_ofNat', Nat.mod_eq_of_lt (by omega),
      Nat.mod_eq_of_lt (by omega)] at this
    rw [this]

/-- Each has been queued under its id. -/
theorem id_mem_of_sendBlock {ms : List Message} (h : SendBlock s.firstId s.channel s.payload ms)
    (hc : c ∈ s.contents) : c.id ∈ ms.map Message.id := by
  rw [SendBlock] at h
  rw [contents] at hc
  split at h
  · next hsmall =>
    rw [if_pos hsmall] at hc
    obtain ⟨m, rfl, hid, -⟩ := h
    rw [List.mem_singleton.mp hc]
    exact List.mem_singleton.mpr hid.symm
  · next hlarge =>
    rw [if_neg hlarge] at hc
    obtain ⟨i, hi, rfl⟩ := List.mem_map.mp hc
    have hlt : i < ms.length := h.1 ▸ List.mem_range.mp hi
    obtain ⟨hid, -⟩ := h.2 i ms[i] (List.getElem?_eq_getElem hlt)
    exact List.mem_map.mpr ⟨ms[i], List.getElem_mem hlt, hid⟩

instance (s : SendCall) (msg : ReceivedMessage) : Decidable (s.Is msg) :=
  decidable_of_iff (msg.channel? = some s.channel ∧ msg.id? = some s.firstId ∧
    msg.payload = s.payload)
    ⟨fun h => ⟨h.1, h.2.1, h.2.2⟩, fun h => ⟨h.channel, h.id, h.payload⟩⟩

end SendCall

/-! ### What the receiver has -/

namespace MessageDispatcher

/-- The whole call is in the inbox, or the message is among the fragments that are held. -/
def Has (d : MessageDispatcher) (s : SendCall) (c : MessageContent) : Prop :=
  (∃ msg ∈ d.messageInbox s.channel, s.Is msg) ∨ ∃ m ∈ d.messageReassembler.held s.firstId,
    m.content = c

/-- The message is one of the last call with its id, and the receiver has it. -/
def HasNewest (d : MessageDispatcher) (calls : List SendCall) (c : MessageContent) : Prop :=
  ∃ s ∈ newestCall calls c.key, c ∈ s.contents ∧ d.Has s c

/-- Messages of the last calls with their ids, of which all that is held under the same id is a part
too. -/
def Arrives (d : MessageDispatcher) (calls : List SendCall) (cs : List MessageContent) : Prop :=
  ∀ c ∈ cs, ∃ s ∈ newestCall calls c.key, c ∈ s.contents ∧
    (c.fragment.isSome = true → ∀ m ∈ d.messageReassembler.held c.key, m.content ∈ s.contents)

instance (d : MessageDispatcher) (s : SendCall) (c : MessageContent) : Decidable (d.Has s c) :=
  inferInstanceAs (Decidable (_ ∨ _))

instance (d : MessageDispatcher) (calls : List SendCall) :
    DecidablePred (d.HasNewest calls) := fun c =>
  inferInstanceAs (Decidable (∃ s ∈ newestCall calls c.key, _ ∧ _))

instance (d : MessageDispatcher) (calls : List SendCall) (cs : List MessageContent) :
    Decidable (d.Arrives calls cs) :=
  inferInstanceAs (Decidable (∀ c ∈ cs, ∃ s ∈ newestCall calls c.key, _ ∧ _))

variable {d d' : MessageDispatcher} {calls : List SendCall} {c : MessageContent}
  {cs : List MessageContent}

/-- Neither the inbox nor what is held has changed. -/
theorem HasNewest.of_intake (h : d.HasNewest calls c) (hinbox : d'.messageInbox = d.messageInbox)
    (hreassembler : d'.messageReassembler = d.messageReassembler) : d'.HasNewest calls c := by
  obtain ⟨s, hs, hc, hhas⟩ := h
  refine ⟨s, hs, hc, ?_⟩
  rw [Has, hinbox, hreassembler]
  exact hhas

/-- A call with another id is no news of the message. -/
theorem HasNewest.concat (h : d.HasNewest calls c) {s : SendCall} (hne : c.key ≠ s.firstId) :
    d.HasNewest (calls ++ [s]) c := by
  obtain ⟨s', hs', hc⟩ := h
  refine ⟨s', ?_, hc⟩
  rw [newestCall_concat, if_neg hne.symm]
  exact hs'

theorem Arrives.unmixed (h : d.Arrives calls cs) : d.messageReassembler.Unmixed calls cs := by
  intro c hc f hf
  have hkey : c.key = f.parentId := by rw [MessageContent.key, hf]
  obtain ⟨s, hs, -, hheld⟩ := h c hc
  refine ⟨s, mem_of_newestCall hs, ?_, fun c' hc' hparent => ?_⟩
  · rw [← hkey]
    exact hheld (by rw [hf]; rfl)
  · obtain ⟨s', hs', hmem, -⟩ := h c' hc'
    obtain ⟨f', hf', hparent⟩ := Option.map_eq_some_iff.mp hparent
    have hkey' : c'.key = c.key := by rw [hkey, ← hparent, MessageContent.key, hf']
    rw [hkey'] at hs'
    obtain rfl := Option.some.inj (hs.symm.trans hs')
    exact hmem

/-- What is added comes from the packet. -/
theorem Arrives.add (h : d.Arrives calls cs) {c₀ : MessageContent} (hc₀ : c₀ ∈ cs)
    (hadds : ∀ parent, ∀ x ∈ d'.messageReassembler.held parent,
      x ∈ d.messageReassembler.held parent ∨
      (c₀.fragment.map Fragment.parentId = some parent ∧ x.content = c₀)) :
      d'.Arrives calls cs := by
  intro c hc
  obtain ⟨s, hs, hmem, hheld⟩ := h c hc
  refine ⟨s, hs, hmem, fun hsome x hx => ?_⟩
  obtain hx | ⟨hparent, rfl⟩ := hadds _ x hx
  · exact hheld hsome x hx
  · obtain ⟨s', hs', hmem', -⟩ := h x.content hc₀
    obtain ⟨f, hf, hparent⟩ := Option.map_eq_some_iff.mp hparent
    have hkey : x.content.key = c.key := by rw [← hparent, MessageContent.key, hf]
    rw [hkey] at hs'
    obtain rfl := Option.some.inj (hs.symm.trans hs')
    exact hmem'

/-- **Taking a message** of a packet whose messages arrive: the receiver has it then, and all that
it had. -/
theorem Arrives.processReceivedMessage (h : d.Arrives calls cs) (hreg : ∀ s ∈ calls, s.Regular)
    (hplaced : d.messageReassembler.Placed) {m : Message} (hm : m.content ∈ cs)
    (hwf : m.content.WellFormed)
    (hcall : d.processReceivedMessage m = .ok d') :
    d'.messageReassembler.Placed ∧ d'.Arrives calls cs ∧ d'.HasNewest calls m.content ∧
      ∀ c, d.HasNewest calls c → d'.HasNewest calls c := by
  obtain ⟨s, hs, hms, hheld⟩ := h m.content hm
  have hkey := SendCall.key_of_mem hms
  rw [hkey] at hheld
  obtain ⟨hplaced', hadds, hputs⟩ :=
    processReceivedMessage_of_call hplaced (hreg s (mem_of_newestCall hs)) hms hwf hheld hcall
  refine ⟨hplaced', h.add hm fun parent x hx => ?_, ?_⟩
  · refine (hadds parent x hx).imp_right ?_
    rintro ⟨hparent, rfl⟩
    exact ⟨hparent, rfl⟩
  · obtain ⟨⟨msg, his, hinbox⟩, hothers⟩ | ⟨hinbox, hkeeps, x, hx, hxc⟩ := hputs
    · have hmsg : msg ∈ d'.messageInbox s.channel := by
        rw [hinbox, Function.update_self]
        exact List.mem_append_right _ (List.mem_singleton_self msg)
      refine ⟨⟨s, hs, hms, Or.inl ⟨msg, hmsg, his⟩⟩, fun c hc => ?_⟩
      obtain ⟨s', hs', hcs', hhas⟩ := hc
      refine ⟨s', hs', hcs', ?_⟩
      -- what was held of this call is in the inbox now
      by_cases hid : s'.firstId = s.firstId
      · have hsame : s' = s := by
          rw [SendCall.key_of_mem hcs', hid, ← hkey] at hs'
          exact Option.some.inj (hs'.symm.trans hs)
        rw [hsame]
        exact Or.inl ⟨msg, hmsg, his⟩
      · rcases hhas with ⟨msg', hmsg', his'⟩ | ⟨x, hx, hxc⟩
        · refine Or.inl ⟨msg', ?_, his'⟩
          rw [hinbox]
          by_cases hchannel : s'.channel = s.channel
          · rw [hchannel, Function.update_self]
            exact List.mem_append_left _ (hchannel ▸ hmsg')
          · rw [Function.update_of_ne hchannel]
            exact hmsg'
        · exact Or.inr ⟨x, (hothers _ hid).symm ▸ hx, hxc⟩
    · refine ⟨⟨s, hs, hms, Or.inr ⟨x, hx, hxc⟩⟩, fun c hc => ?_⟩
      obtain ⟨s', hs', hcs', hhas⟩ := hc
      refine ⟨s', hs', hcs', hhas.imp ?_ ?_⟩
      · rw [hinbox]
        exact id
      · rintro ⟨x, hx, hxc⟩
        exact ⟨x, hkeeps _ x hx, hxc⟩

end MessageDispatcher

/-! ### What the windows take -/

/-- The window of ids that a channel has seen. -/
def ChannelList.window (cs : ChannelList) (channel : UInt8) : Option (SequenceBuffer Bool) :=
  (cs.get? channel).map Channel.seenBuf

/-- Every message is taken by the window of its channel as the ones before have left it, or was had
before: from an earlier packet, or from this one. -/
def TakesAll (had : MessageContent → Prop) (window : UInt8 → Option (SequenceBuffer Bool)) :
    List MessageContent → Prop
  | [] => True
  | c :: cs =>
    match window c.channel with
    | none => had c ∧ TakesAll had window cs
    | some seenBuf => ((acceptUnseen seenBuf c.id).1 = true ∨ had c) ∧
        TakesAll (fun x => had x ∨ x = c)
          (Function.update window c.channel (some (acceptUnseen seenBuf c.id).2)) cs

instance decidableTakesAll (had : MessageContent → Prop) [DecidablePred had] :
    (window : UInt8 → Option (SequenceBuffer Bool)) → (cs : List MessageContent) →
      Decidable (TakesAll had window cs)
  | _, [] => isTrue trivial
  | window, c :: cs =>
    match hwindow : window c.channel with
    | none =>
      have := decidableTakesAll had window cs
      decidable_of_iff (had c ∧ TakesAll had window cs) (by rw [TakesAll, hwindow])
    | some seenBuf =>
      have := decidableTakesAll (fun x => had x ∨ x = c)
        (Function.update window c.channel (some (acceptUnseen seenBuf c.id).2)) cs
      decidable_of_iff (((acceptUnseen seenBuf c.id).1 = true ∨ had c) ∧
        TakesAll (fun x => had x ∨ x = c)
        (Function.update window c.channel (some (acceptUnseen seenBuf c.id).2)) cs)
          (by rw [TakesAll, hwindow])

theorem TakesAll.mono {had had' : MessageContent → Prop} (hmono : ∀ c, had c → had' c)
    {window : UInt8 → Option (SequenceBuffer Bool)} {cs : List MessageContent}
    (h : TakesAll had window cs) :
    TakesAll had' window cs := by
  induction cs generalizing had had' window with
  | nil => trivial
  | cons c cs ih =>
    rw [TakesAll] at h ⊢
    split at h
    · exact ⟨hmono c h.1, ih hmono h.2⟩
    · exact ⟨h.1.imp_right (hmono c), ih (fun x hx => hx.imp_left (hmono x)) h.2⟩

namespace ChannelList

variable {cs cs' : ChannelList}

theorem window_of_shrinks (h : List.Forall₂ Channel.Shrinks cs cs') : cs'.window = cs.window := by
  funext channel
  induction h with
  | nil => rfl
  | @cons c c' cs cs' hc _ ih =>
    rw [window, window, get?, get?] at ih ⊢
    rw [List.find?_cons, List.find?_cons, hc.id]
    split
    · exact congrArg some hc.seenBuf
    · exact ih

theorem window_set {channel : UInt8} {ch : Channel} (hch : cs.get? channel = some ch)
    (id : MessageId) :
    (cs.set channel (ch.acceptsMessage id).2).window
      = Function.update cs.window channel (some (acceptUnseen ch.seenBuf id).2) := by
  have hid : (ch.acceptsMessage id).2.id = channel :=
    (ch.id_acceptsMessage id).trans (id_of_get? hch)
  funext channel'
  rw [window]
  by_cases hchannel : channel' = channel
  · rw [hchannel, get?_set_self hch hid, Function.update_self,
      Option.map_some, Channel.seenBuf_acceptsMessage]
  · rw [get?_set_of_ne hchannel hid, Function.update_of_ne hchannel, window]

/-- A channel that is changed otherwise keeps its window. -/
theorem window_set_of_seenBuf {channel : UInt8} {ch ch' : Channel} (hch : cs.get? channel = some ch)
    (hid : ch'.id = ch.id) (hseen : ch'.seenBuf = ch.seenBuf) :
    (cs.set channel ch').window = cs.window := by
  have hid' : ch'.id = channel := hid.trans (id_of_get? hch)
  funext channel'
  rw [window, window]
  by_cases hchannel : channel' = channel
  · rw [hchannel, get?_set_self hch hid', hch, Option.map_some, Option.map_some, hseen]
  · rw [get?_set_of_ne hchannel hid']

theorem window_update (cs : ChannelList) (dt : Time) :
    ChannelList.window (cs.map (Channel.update dt)) = cs.window := by
  refine window_of_shrinks (List.forall₂_map_right_iff.mpr (List.forall₂_same.mpr fun ch _ => ?_))
  cases ch <;> exact ⟨rfl, rfl, fun _ hx => hx⟩

end ChannelList

/-! ### Receiving a packet -/

namespace Endpoint

open MessageDispatcher

variable {p p' : Endpoint} {calls : List SendCall} {cs : List MessageContent}

/-- How far a packet is received whose messages arrive and are taken: those in `rest` are left. -/
structure Absorbs (p : Endpoint) (calls : List SendCall) (had : MessageContent → Prop)
    (cs rest : List MessageContent) : Prop where
  placed : p.dispatcher.messageReassembler.Placed
  arrives : p.dispatcher.Arrives calls cs
  keeps : ∀ c, had c → p.dispatcher.HasNewest calls c
  taken : ∀ c ∈ cs, c ∈ rest ∨ p.dispatcher.HasNewest calls c
  left : ∀ c ∈ rest, c ∈ cs
  takes : TakesAll (p.dispatcher.HasNewest calls) p.channels.window rest

/-- **One message** of the packet is received. -/
theorem Absorbs.receiveMessage {had : MessageContent → Prop} {m : Message}
    {rest : List MessageContent}
    (h : p.Absorbs calls had cs (m.content :: rest)) (hreg : ∀ s ∈ calls, s.Regular)
    (hwf : m.content.WellFormed)
    (hcall : p.receiveMessage m = .ok p') : p'.Absorbs calls had cs rest := by
  have hrest := List.forall_mem_cons.mp h.left
  have htakes := h.takes
  rw [TakesAll] at htakes
  -- a message that is refused was had before
  have hskip : p.dispatcher.HasNewest calls m.content →
    TakesAll (p.dispatcher.HasNewest calls) p'.channels.window rest →
      p' = { p with channels := p'.channels } → p'.Absorbs calls had cs rest := by
    intro hhas htakes hp'
    have hdispatcher : p'.dispatcher = p.dispatcher := by rw [hp']
    refine ⟨by rw [hdispatcher]; exact h.placed, by rw [hdispatcher]; exact h.arrives,
      by rw [hdispatcher]; exact h.keeps, fun c hc => ?_, hrest.2, by
        rw [hdispatcher]; exact htakes⟩
    rw [hdispatcher]
    obtain hc | hc := h.taken c hc
    · rcases List.mem_cons.mp hc with rfl | hc
      · exact Or.inr hhas
      · exact Or.inl hc
    · exact Or.inr hc
  have hwindow : ∀ {ch : Channel}, p.channels.get? m.channel = some ch →
      p'.channels = p.channels.set m.channel (ch.acceptsMessage m.id).2 →
      ((ch.acceptsMessage m.id).1 = true ∨ p.dispatcher.HasNewest calls m.content) ∧
        TakesAll (fun x => p.dispatcher.HasNewest calls x ∨ x = m.content)
          p'.channels.window rest := by
    intro ch hch hchannels
    have hmatch : p.channels.window m.content.channel = some ch.seenBuf :=
      congrArg (Option.map _) hch
    rw [hmatch] at htakes
    rw [hchannels, ChannelList.window_set hch, Channel.acceptsMessage_fst]
    exact htakes
  obtain ⟨hp', ⟨hnone, hchannels⟩ | ⟨ch, hch, hrefused, hchannels⟩⟩ | ⟨ch, hch, -, hchannels, hd⟩ :=
    receiveMessage_cases hcall
  · have hmatch : p.channels.window m.content.channel = none := congrArg (Option.map _) hnone
    rw [hmatch] at htakes
    exact hskip htakes.1 (hchannels ▸ htakes.2) hp'
  · obtain ⟨haccepted | hhas, htakes'⟩ := hwindow hch hchannels
    · rw [hrefused] at haccepted
      cases haccepted
    · refine hskip hhas (htakes'.mono fun x hx => ?_) hp'
      rcases hx with hx | rfl
      · exact hx
      · exact hhas
  · obtain ⟨hplaced, harrives, hhas, hkeeps⟩ :=
      h.arrives.processReceivedMessage hreg h.placed hrest.1 hwf hd
    refine ⟨hplaced, harrives, fun c hc => hkeeps c (h.keeps c hc), fun c hc => ?_, hrest.2,
      (hwindow hch hchannels).2.mono fun x hx => ?_⟩
    · obtain hc | hc := h.taken c hc
      · rcases List.mem_cons.mp hc with rfl | hc
        · exact Or.inr hhas
        · exact Or.inl hc
      · exact Or.inr (hkeeps c hc)
    · rcases hx with hx | rfl
      · exact hkeeps x hx
      · exact hhas

/-- Inboxes, reassembler and windows are as they were. -/
theorem Absorbs.transfer {had : MessageContent → Prop} {rest : List MessageContent}
    (h : p.Absorbs calls had cs rest)
    (hinbox : p'.dispatcher.messageInbox = p.dispatcher.messageInbox)
    (hreassembler : p'.dispatcher.messageReassembler = p.dispatcher.messageReassembler)
    (hwindow : p'.channels.window = p.channels.window) : p'.Absorbs calls had cs rest where
  placed := hreassembler ▸ h.placed
  arrives := by
    rw [Arrives, hreassembler]
    exact h.arrives
  keeps := fun c hc => (h.keeps c hc).of_intake hinbox hreassembler
  taken := fun c hc => (h.taken c hc).imp_right fun hc => hc.of_intake hinbox hreassembler
  left := h.left
  takes := by
    rw [hwindow]
    exact h.takes.mono fun c hc => hc.of_intake hinbox hreassembler

/-- **A packet whose messages arrive and are taken**: the receiver has them all then, and what it
had before. -/
theorem hasNewest_processIncomingPacket (hintact : p.Intact) (hreg : ∀ s ∈ calls, s.Regular)
    (hplaced : p.dispatcher.messageReassembler.Placed) {header : ProtocolPacketHeader}
    {payload : List UInt8}
    (haccepts : p.accepts header = true) (harrives : p.dispatcher.Arrives calls cs)
    (htakes : TakesAll (p.dispatcher.HasNewest calls) p.channels.window cs)
    (hmessages : header.packetType = .messages → ∃ ms : List Message,
      List.Forall₂ (fun (m : Message) c => m.Writes c ∧ c.WellFormed ∧ ¬ c.Truncated) ms cs ∧
        payload = ms.flatMap fun m => m.buffer.data) {r : Except PicklebackError Unit}
    (hcall : p.processIncomingPacket header payload = .ok (p', r)) :
    (header.packetType = .messages → ∀ c ∈ cs, p'.dispatcher.HasNewest calls c) ∧
      ∀ c, p.dispatcher.HasNewest calls c → p'.dispatcher.HasNewest calls c := by
  have h₀ : p.Absorbs calls (p.dispatcher.HasNewest calls) cs cs :=
    ⟨hplaced, harrives, fun _ hc => hc, fun _ hc => Or.inl hc, fun _ hc => hc, htakes⟩
  rw [accepts, Bool.and_eq_true, Bool.not_eq_true'] at haccepts
  obtain ⟨q, ⟨-, hq⟩, ⟨htype, hprocess⟩ | ⟨hother, rfl⟩⟩ := processIncomingPacket_of_accepted
    (I := fun q => q.Intact ∧ q.Absorbs calls (p.dispatcher.HasNewest calls) cs cs)
    (fun hq hsame =>
      ⟨hq.1.sameCore hsame, hq.2.transfer (by rw [hsame]) (by rw [hsame]) (by rw [hsame])⟩)
    (fun hq hb => ⟨hq.1.receivedBuffer hb, hq.2.transfer rfl rfl rfl⟩)
    (fun {q q' packetType ack} hq _ hack => by
      refine ⟨hq.1.processAck hack, ?_⟩
      obtain rfl | ⟨_, _, d, channels, -, -, hd, hq'⟩ := processAck_cases hack
      · exact hq.2
      · obtain ⟨hsame, -, hshrinks⟩ := MessageDispatcher.ackedPacket_eq_ok hq.1.channels hd
        refine hq.2.transfer ?_ ?_ ?_
        · rw [hq']
          exact hsame.messageInbox
        · rw [hq']
          exact hsame.messageReassembler
        · rw [hq']
          exact ChannelList.window_of_shrinks hshrinks)
    ⟨hintact, h₀⟩ haccepts.1 haccepts.2 hcall
  · obtain ⟨ms, hms, rfl⟩ := hmessages htype
    have hdone : p'.Absorbs calls (p.dispatcher.HasNewest calls) cs [] :=
      processMessages_induct_contents (I := fun q rest =>
        q.Absorbs calls (p.dispatcher.HasNewest calls) cs rest)
        (fun hq hsame => hq.transfer (by rw [hsame]) (by rw [hsame]) (by rw [hsame]))
        (fun hq hwf hreceive => hq.receiveMessage hreg hwf hreceive) hms hq hprocess
    exact ⟨fun _ c hc => (hdone.taken c hc).resolve_left List.not_mem_nil, hdone.keeps⟩
  · exact ⟨fun htype => absurd htype hother, hq.keeps⟩

end Endpoint

/-! ### What acks push -/

namespace MessageDispatcher

/-- The last call with the id, which it has returned, is in the inbox of its channel. -/
def Delivered (o : MessageDispatcher) (calls : List SendCall) (channel : UInt8)
    (id : MessageId) : Prop :=
  ∃ s, newestCall calls id = some s ∧ s.result = .ok id ∧ s.channel = channel ∧
    ∃ msg ∈ o.messageInbox channel, s.Is msg

/-- Nothing is pushed onto the ack inboxes but ids of calls that `o` has in its inboxes. -/
def PushesDelivered (o : MessageDispatcher) (calls : List SendCall)
    (d d' : MessageDispatcher) : Prop :=
  ∀ channel, ∃ pushed, d'.ackInbox channel = d.ackInbox channel ++ pushed ∧
    ∀ id ∈ pushed, o.Delivered calls channel id

/-- If the last call with an id is fragmented and acked in part, it has returned the id, and `o` has
the fragments that are acked. -/
def Tracks (o : MessageDispatcher) (calls : List SendCall) (m : SentFragMap) : Prop :=
  ∀ id remaining, m.get id = some (.partially remaining) →
    ∀ s ∈ newestCall calls id, 1024 < s.payload.length →
    s.result = .ok id ∧ ∀ c ∈ s.contents, c.id ∉ remaining → o.HasNewest calls c

/-- What a handle stands for. -/
def HasHandle (o : MessageDispatcher) (calls : List SendCall) (handle : MessageHandle) : Prop :=
  ∃ c, o.HasNewest calls c ∧ c.handle = handle

/-- The calls are on record as they were made, and what `o` holds is in its place. -/
structure Attests (o : MessageDispatcher) (calls : List SendCall) : Prop where
  placed : o.messageReassembler.Placed
  regular : ∀ s ∈ calls, s.Regular
  whole : ∀ s ∈ calls, s.payload.length ≤ 1024 → s.result = .ok s.firstId

variable {o d d' d'' : MessageDispatcher} {calls : List SendCall}

theorem PushesDelivered.of_ackInbox (h : d'.ackInbox = d.ackInbox) :
    PushesDelivered o calls d d' := by
  intro channel
  exact ⟨[], by rw [h, List.append_nil], fun _ hid => by cases hid⟩

theorem PushesDelivered.trans (h : PushesDelivered o calls d d')
    (h' : PushesDelivered o calls d' d'') :
    PushesDelivered o calls d d'' := by
  intro channel
  obtain ⟨pushed, hpushed, hall⟩ := h channel
  obtain ⟨pushed', hpushed', hall'⟩ := h' channel
  refine ⟨pushed ++ pushed', by rw [hpushed', hpushed, List.append_assoc], fun id hid => ?_⟩
  rcases List.mem_append.mp hid with hid | hid
  · exact hall id hid
  · exact hall' id hid

theorem pushesDelivered_pushAck {channel : UInt8} {id : MessageId}
    (h : o.Delivered calls channel id) :
    PushesDelivered o calls d (d.pushAck channel id) := by
  intro channel'
  rw [pushAck]
  dsimp only
  by_cases hchannel : channel' = channel
  · subst hchannel
    refine ⟨[id], Function.update_self .., fun id' hid' => ?_⟩
    rw [List.mem_singleton.mp hid']
    exact h
  · exact ⟨[], by rw [Function.update_of_ne hchannel, List.append_nil], fun _ hid => by cases hid⟩

/-- A whole message that the receiver has is in the inbox. -/
theorem Attests.delivered_of_whole (h : o.Attests calls) {handle : MessageHandle}
    (hindex : handle.fragIndex = none) (hhas : o.HasHandle calls handle) :
    o.Delivered calls handle.channel handle.id := by
  obtain ⟨c, ⟨s, hs, hc, hhas⟩, rfl⟩ := hhas
  have hnone : c.fragment = none := Option.map_eq_none_iff.mp hindex
  have hkey : c.key = c.id := by rw [MessageContent.key, hnone]
  have hid : c.id = s.firstId := hkey.symm.trans (SendCall.key_of_mem hc)
  have hsmall : s.payload.length ≤ 1024 ∧ c.channel = s.channel := by
    rw [SendCall.contents] at hc
    split at hc
    · next hsmall =>
      rw [List.mem_singleton.mp hc]
      exact ⟨hsmall, rfl⟩
    · obtain ⟨i, -, rfl⟩ := List.mem_map.mp hc
      cases hnone
  rw [hkey] at hs
  refine ⟨s, hs, ?_, hsmall.2.symm, ?_⟩
  · rw [show c.handle.id = s.firstId from hid]
    exact h.whole s (mem_of_newestCall hs) hsmall.1
  · rw [show c.handle.channel = s.channel from hsmall.2]
    rcases hhas with hinbox | ⟨m, hm, rfl⟩
    · exact hinbox
    · -- what is held is a fragment
      obtain ⟨inc, hget, hmem⟩ := MessageReassembler.mem_held_iff.mp hm
      obtain ⟨i, hi⟩ := List.mem_iff_getElem?.mp hmem
      have hfrag := h.placed.place _ _ hget i m hi
      rw [show m.fragment = none from hnone] at hfrag
      cases hfrag

/-- If the receiver has all fragments of a call, the call is in the inbox: not all of them can be
held. -/
theorem exists_is_of_has (hplaced : o.messageReassembler.Placed)
    {s : SendCall} (hs : s.payload.length ≤ 1024 * 1024)
    (hlarge : 1024 < s.payload.length) (hall : ∀ c ∈ s.contents, o.Has s c) :
    ∃ msg ∈ o.messageInbox s.channel, s.Is msg := by
  by_contra hnot
  have hmax := numFragments_le hs
  have hpos : 0 < numFragments s.payload := lt_numFragments_iff.mpr (by omega)
  have hheld : ∀ i < numFragments s.payload, ∃ m ∈ o.messageReassembler.held s.firstId,
      m.fragment = some ⟨UInt16.ofNat i, UInt16.ofNat (numFragments s.payload), s.firstId⟩ := by
    intro i hi
    have hmem : (⟨s.firstId + UInt16.ofNat i, s.channel, chunk s.payload i,
        some ⟨UInt16.ofNat i, UInt16.ofNat (numFragments s.payload), s.firstId⟩⟩ : MessageContent) ∈
          s.contents := by
      rw [SendCall.contents, if_neg (by omega)]
      exact List.mem_map_of_mem (f := fun i =>
        (⟨s.firstId + UInt16.ofNat i, s.channel, chunk s.payload i,
        some ⟨UInt16.ofNat i, UInt16.ofNat (numFragments s.payload), s.firstId⟩⟩ : MessageContent))
        (List.mem_range.mpr hi)
    obtain ⟨m, hm, heq⟩ := (hall _ hmem).resolve_left hnot
    exact ⟨m, hm, congrArg MessageContent.fragment heq⟩
  obtain ⟨m₀, hm₀, hf₀⟩ := hheld 0 hpos
  obtain ⟨inc, hget, hmem₀⟩ := MessageReassembler.mem_held_iff.mp hm₀
  have hplace := hplaced.place _ _ hget
  have hcons := hplaced.consistent _ _ hget
  have hnum : inc.numFragments = UInt16.ofNat (numFragments s.payload) := by
    obtain ⟨j, hj⟩ := List.mem_iff_getElem?.mp hmem₀
    have := (hplace j m₀ hj).symm.trans hf₀
    rw [Option.some.injEq, Fragment.mk.injEq] at this
    exact this.2.1
  have hlen : inc.fragments.length = numFragments s.payload := by
    rw [hcons.length, hnum, UInt16.toNat_ofNat', Nat.mod_eq_of_lt (by omega)]
  have hfull : ∀ x ∈ inc.fragments, x.isSome = true := by
    intro x hx
    obtain ⟨i, hi⟩ := List.mem_iff_getElem?.mp hx
    have hlt := (List.getElem?_eq_some_iff.mp hi).1
    obtain ⟨m, hm, hf⟩ := hheld i (by omega)
    obtain ⟨inc', hget', hmem⟩ := MessageReassembler.mem_held_iff.mp hm
    obtain rfl : inc = inc' := Option.some.inj (hget.symm.trans hget')
    obtain ⟨j, hj⟩ := List.mem_iff_getElem?.mp hmem
    have hjlt := (List.getElem?_eq_some_iff.mp hj).1
    have hindex := (hplace j m hj).symm.trans hf
    rw [Option.some.injEq, Fragment.mk.injEq] at hindex
    have := congrArg UInt16.toNat hindex.1
    rw [UInt16.toNat_ofNat', UInt16.toNat_ofNat', Nat.mod_eq_of_lt (by omega),
      Nat.mod_eq_of_lt (by omega)] at this
    rw [this, hi] at hj
    cases hj
    rfl
  have hcount := hcons.missing
  rw [List.countP_eq_length.mpr hfull] at hcount
  exact lt_irrefl _ hcount

/-- **The ack of a fragment** that the receiver has. If it is the last one, the call is in the
inbox. -/
theorem Tracks.ackFragmentMessage (hattests : o.Attests calls)
    {m m' : SentFragMap} (h : o.Tracks calls m)
    {s : SendCall} {c : MessageContent} (hs : newestCall calls s.firstId = some s)
    (hc : c ∈ s.contents)
    {f : Fragment} (hf : c.fragment = some f) (hhas : o.HasNewest calls c) {whole : Bool}
    (hack : SentFragMap.ackFragmentMessage m s.firstId c.id = .ok (whole, m')) :
    o.Tracks calls m' ∧ (whole = true → o.Delivered calls s.channel s.firstId) := by
  have hreg := hattests.regular s (mem_of_newestCall hs)
  obtain ⟨hlarge, -⟩ := SendCall.of_fragment hc hf
  rw [SentFragMap.ackFragmentMessage] at hack
  split at hack
  · next remaining hget =>
    dsimp only at hack
    set left := remaining.filter fun id => id != c.id with hleft
    have hset : o.Tracks calls (m.setEntry s.firstId (.partially left)) := by
      intro id remaining' hget' s' hs' hlarge'
      rw [SequenceBuffer.get_setEntry hget] at hget'
      split at hget'
      · next hid =>
        subst hid
        cases hget'
        obtain rfl : s' = s := Option.some.inj (hs'.symm.trans hs)
        obtain ⟨hresult, hothers⟩ := h _ remaining hget s' hs' hlarge'
        refine ⟨hresult, fun c' hc' hnot => ?_⟩
        by_cases hid : c'.id = c.id
        · rw [SendCall.eq_of_id hreg hc' hc hid]
          exact hhas
        · refine hothers c' hc' fun hmem => hnot ?_
          exact List.mem_filter.mpr ⟨hmem, by simpa using hid⟩
      · exact h id remaining' hget' s' hs' hlarge'
    split at hack
    · next hempty =>
      split at hack
      · next m₁ hm₁ =>
        cases hack
        refine ⟨fun id remaining' hget' => ?_, fun _ => ?_⟩
        · obtain ⟨-, heq⟩ | hget' := SequenceBuffer.get_of_get_insert hm₁ hget'
          · cases heq
          · exact hset id remaining' hget'
        · have hget' : (m.setEntry s.firstId (.partially left)).get s.firstId =
            some (.partially left) := by
            rw [SequenceBuffer.get_setEntry hget, if_pos rfl]
          obtain ⟨hresult, hall⟩ := hset _ left hget' s hs hlarge
          rw [List.isEmpty_iff.mp hempty] at hall
          refine ⟨s, hs, hresult, rfl,
            exists_is_of_has hattests.placed hreg.payload hlarge fun c' hc' => ?_⟩
          obtain ⟨s', hs', -, hhas'⟩ := hall c' hc' List.not_mem_nil
          rw [SendCall.key_of_mem hc'] at hs'
          rwa [Option.some.inj (hs'.symm.trans hs)] at hhas'
      · cases hack
    · cases hack
      exact ⟨hset, fun hwhole => by cases hwhole⟩
  · cases hack
    exact ⟨h, fun hwhole => by cases hwhole⟩

/-- **The ack of a message** that the receiver has. -/
theorem Tracks.ackHandle (hattests : o.Attests calls) (h : o.Tracks calls d.sentFragMap)
    {handle : MessageHandle}
    (hhas : o.HasHandle calls handle) (hcall : d.ackHandle handle = .ok d') :
    o.Tracks calls d'.sentFragMap ∧ PushesDelivered o calls d d' := by
  rw [MessageDispatcher.ackHandle] at hcall
  cases hindex : handle.fragIndex with
  | none =>
    rw [MessageHandle.parentId, hindex, Option.map_none] at hcall
    cases hcall
    exact ⟨h, pushesDelivered_pushAck (hattests.delivered_of_whole hindex hhas)⟩
  | some i =>
    obtain ⟨c, ⟨s, hkey, hc, hheld⟩, rfl⟩ := hhas
    obtain ⟨f, hf, -⟩ := Option.map_eq_some_iff.mp hindex
    have hs : newestCall calls s.firstId = some s := SendCall.key_of_mem hc ▸ hkey
    rw [SendCall.parentId_handle hc hf] at hcall
    dsimp only at hcall
    split at hcall
    · cases hcall
    · next whole m hack =>
      cases hcall
      obtain ⟨htracks, hdelivered⟩ :=
        h.ackFragmentMessage hattests hs hc hf ⟨s, hkey, hc, hheld⟩ hack
      have hchannel : c.handle.channel = s.channel := by
        obtain ⟨-, _, -, -, hchannel, -⟩ := SendCall.of_fragment hc hf
        exact hchannel
      cases whole with
      | false => exact ⟨htracks, .of_ackInbox rfl⟩
      | true =>
        rw [← hchannel] at hdelivered
        exact ⟨htracks, pushesDelivered_pushAck (d := { d with sentFragMap := m }) (hdelivered rfl)⟩

/-- Ids that were pushed stay, and the id of a whole message is pushed. -/
theorem mem_ackInbox_of_ackHandle {handle : MessageHandle} (hcall : d.ackHandle handle = .ok d') :
    (∀ channel, ∀ id ∈ d.ackInbox channel, id ∈ d'.ackInbox channel) ∧
      (handle.fragIndex = none → handle.id ∈ d'.ackInbox handle.channel) := by
  have hpush : ∀ (d : MessageDispatcher) (channel : UInt8) (id : MessageId),
      (∀ channel', ∀ id' ∈ d.ackInbox channel', id' ∈ (d.pushAck channel id).ackInbox channel') ∧
        id ∈ (d.pushAck channel id).ackInbox channel := by
    intro d channel id
    refine ⟨fun channel' id' hid' => ?_, ?_⟩
    · simp only [pushAck]
      by_cases hchannel : channel' = channel
      · rw [hchannel, Function.update_self]
        exact List.mem_append_left _ (hchannel ▸ hid')
      · rwa [Function.update_of_ne hchannel]
    · simp only [pushAck, Function.update_self]
      exact List.mem_append_right _ (List.mem_singleton_self id)
  rw [ackHandle] at hcall
  split at hcall
  · next parentId hparent =>
    have hsome : handle.fragIndex ≠ none := by
      intro hnone
      rw [MessageHandle.parentId, hnone] at hparent
      cases hparent
    split at hcall
    · cases hcall
    · next whole m _ =>
      cases hcall
      refine ⟨?_, fun hnone => absurd hnone hsome⟩
      cases whole with
      | false => exact fun _ _ hid => hid
      | true => exact (hpush { d with sentFragMap := m } handle.channel parentId).1
  · cases hcall
    exact ⟨(hpush d handle.channel handle.id).1, fun _ => (hpush d handle.channel handle.id).2⟩

theorem mem_ackInbox_of_ackHandles {handles : List MessageHandle} {channels channels' : ChannelList}
    {buffers : List PooledBuffer}
    (hcall : d.ackHandles channels handles = .ok (buffers, d', channels')) :
    (∀ channel, ∀ id ∈ d.ackInbox channel, id ∈ d'.ackInbox channel) ∧
      ∀ handle ∈ handles, handle.fragIndex = none → handle.id ∈ d'.ackInbox handle.channel := by
  induction handles generalizing d channels buffers with
  | nil =>
    cases hcall
    exact ⟨fun _ _ hid => hid, fun _ hmem => by cases hmem⟩
  | cons handle rest ih =>
    rw [MessageDispatcher.ackHandles] at hcall
    split at hcall
    · cases hcall
    · split at hcall
      · cases hcall
      · split at hcall
        · cases hcall
        · next d₁ hd₁ =>
          obtain ⟨⟨buffers', d₂, channels₂⟩, hrest, heq⟩ := exists_of_map_eq_ok hcall
          cases heq
          obtain ⟨hstays, hpushed⟩ := mem_ackInbox_of_ackHandle hd₁
          obtain ⟨hstays', hpushed'⟩ := ih hrest
          refine ⟨fun channel id hid => hstays' channel id (hstays channel id hid),
            fun handle' hmem hwhole => ?_⟩
          rcases List.mem_cons.mp hmem with rfl | hmem
          · exact hstays' _ _ (hpushed hwhole)
          · exact hpushed' handle' hmem hwhole

/-- **The acks of some messages** that the receiver has. -/
theorem Tracks.ackHandles (hattests : o.Attests calls) (h : o.Tracks calls d.sentFragMap)
    {handles : List MessageHandle} (hhas : ∀ handle ∈ handles, o.HasHandle calls handle)
    {channels channels' : ChannelList} {buffers : List PooledBuffer}
    (hcall : d.ackHandles channels handles = .ok (buffers, d', channels')) :
    o.Tracks calls d'.sentFragMap ∧ PushesDelivered o calls d d' := by
  induction handles generalizing d channels buffers with
  | nil =>
    cases hcall
    exact ⟨h, .of_ackInbox rfl⟩
  | cons handle rest ih =>
    rw [List.forall_mem_cons] at hhas
    rw [MessageDispatcher.ackHandles] at hcall
    split at hcall
    · cases hcall
    · split at hcall
      · cases hcall
      · split at hcall
        · cases hcall
        · next d₁ hd₁ =>
          obtain ⟨⟨buffers', d₂, channels₂⟩, hrest, heq⟩ := exists_of_map_eq_ok hcall
          cases heq
          obtain ⟨h₁, hpushes⟩ := h.ackHandle hattests hhas.1 hd₁
          obtain ⟨h₂, hpushes'⟩ := ih h₁ hhas.2 hrest
          exact ⟨h₂, hpushes.trans hpushes'⟩

end MessageDispatcher

namespace Endpoint

open MessageDispatcher

/-- The packet is in the window of sent packets, and not acked. -/
def Unacked (p : Endpoint) (id : PacketId) : Prop :=
  ∃ sentMeta, p.sentBuffer.get id = some sentMeta ∧ sentMeta.acked = false

/-- `o` has the messages of the packets that the acks would ack for the first time. -/
def AcksReceived (p : Endpoint) (o : MessageDispatcher) (calls : List SendCall)
    (acks : List (UInt16 × Bool)) : Prop :=
  ∀ id, (id, true) ∈ acks → p.Unacked id → ∀ handle ∈ p.dispatcher.handlesOf id,
    o.HasHandle calls handle

variable {o : MessageDispatcher} {calls : List SendCall} {p p' : Endpoint}
  {acks : List (UInt16 × Bool)}

/-- A packet that is not acked after an ack was not acked before, and has its handles still. -/
theorem unacked_of_processAck {packetType : PacketType} {ack : UInt16 × Bool}
    (hcall : p.processAck packetType ack = .ok p') {id : PacketId} (h : p'.Unacked id) :
    p.Unacked id ∧ ∀ handle ∈ p'.dispatcher.handlesOf id, handle ∈ p.dispatcher.handlesOf id := by
  obtain rfl | ⟨sentMeta, _, d, _, hget, -, hd, hp'⟩ := processAck_cases hcall
  · exact ⟨h, fun _ hmem => hmem⟩
  · obtain ⟨sentMeta', hget', hnew⟩ := h
    rw [hp'] at hget' ⊢
    have hhandles := (sameIntake_ackedPacket hd).messagesInPackets
    dsimp only at hget' hhandles ⊢
    rw [SequenceBuffer.get_setEntry hget] at hget'
    split at hget'
    · cases hget'
      cases hnew
    · refine ⟨⟨sentMeta', hget', hnew⟩, fun handle hmem => ?_⟩
      rw [handlesOf, hhandles] at hmem
      rw [handlesOf]
      cases hremoved : (p.dispatcher.messagesInPackets.remove ack.1).2.get id with
      | none =>
        rw [hremoved] at hmem
        cases hmem
      | some handles =>
        rw [SequenceBuffer.get_of_get_remove hremoved]
        rwa [hremoved] at hmem

/-- **An ack** of messages that were received. -/
theorem AcksReceived.processAck (hattests : o.Attests calls) (h : p.AcksReceived o calls acks)
    (htracks : o.Tracks calls p.dispatcher.sentFragMap) {packetType : PacketType}
    {ack : UInt16 × Bool}
    (hack : ack ∈ acks) (hcall : p.processAck packetType ack = .ok p') :
    p'.AcksReceived o calls acks ∧ o.Tracks calls p'.dispatcher.sentFragMap ∧
      PushesDelivered o calls p.dispatcher p'.dispatcher := by
  refine ⟨fun id hid hnew handle hmem => ?_, ?_⟩
  · obtain ⟨hnew', hhandles⟩ := unacked_of_processAck hcall hnew
    exact h id hid hnew' handle (hhandles handle hmem)
  · by_cases hbit : ack.2 = true
    · obtain rfl | ⟨sentMeta, _, d, _, hget, hnew, hd, hp'⟩ := processAck_cases hcall
      · exact ⟨htracks, .of_ackInbox rfl⟩
      · have hhas := h ack.1 (by rw [← hbit]; exact hack) ⟨sentMeta, hget, hnew⟩
        rw [ackedPacket_eq] at hd
        have hacked := Tracks.ackHandles hattests (d := { p.dispatcher with
          messagesInPackets := (p.dispatcher.messagesInPackets.remove ack.1).2 }) htracks hhas hd
        rw [hp']
        exact hacked
    · rw [Endpoint.processAck, if_pos (by simpa using hbit)] at hcall
      cases hcall
      exact ⟨htracks, .of_ackInbox rfl⟩

/-- **A packet that comes in**, and acks only what was received. -/
theorem delivered_processIncomingPacket (hattests : o.Attests calls)
    (htracks : o.Tracks calls p.dispatcher.sentFragMap) {header : ProtocolPacketHeader}
    {payload : List UInt8}
    (hacks : p.accepts header = true → p.AcksReceived o calls (header.acks.getD []))
    {r : Except PicklebackError Unit}
    (hcall : p.processIncomingPacket header payload = .ok (p', r)) :
    o.Tracks calls p'.dispatcher.sentFragMap ∧
      PushesDelivered o calls p.dispatcher p'.dispatcher := by
  by_cases haccepts : p.accepts header = true
  · have hreceived := hacks haccepts
    rw [accepts, Bool.and_eq_true, Bool.not_eq_true'] at haccepts
    obtain ⟨q, ⟨-, htracks', hpushes⟩, ⟨-, hmessages⟩ | ⟨-, rfl⟩⟩ :=
      processIncomingPacket_of_accepted
      (I := fun q => q.AcksReceived o calls (header.acks.getD []) ∧
        o.Tracks calls q.dispatcher.sentFragMap ∧
        PushesDelivered o calls p.dispatcher q.dispatcher)
      (fun hq hsame => by
        rw [hsame]
        exact hq)
      (fun hq _ => hq)
      (fun hq hack hcall => by
        obtain ⟨h, htracks, hpushes⟩ := hq.1.processAck hattests hq.2.1 hack hcall
        exact ⟨h, htracks, hq.2.2.trans hpushes⟩)
      ⟨hreceived, htracks, .of_ackInbox rfl⟩ haccepts.1 haccepts.2 hcall
    · obtain ⟨hmap, hinbox⟩ := processMessages_induct
        (I := fun q' => q'.dispatcher.sentFragMap = q.dispatcher.sentFragMap ∧
          q'.dispatcher.ackInbox = q.dispatcher.ackInbox)
        (fun hq' hsame => by
          rw [hsame]
          exact hq')
        (fun hq' hreceive => by
          obtain ⟨hmap, hinbox⟩ := sameAcks_receiveMessage hreceive
          exact ⟨hmap.trans hq'.1, hinbox.trans hq'.2⟩) ⟨rfl, rfl⟩ hmessages
      rw [hmap]
      exact ⟨htracks', hpushes.trans (.of_ackInbox hinbox)⟩
    · exact ⟨htracks', hpushes⟩
  · have hsame := sameCore_of_refused (by simpa [accepts] using haccepts) hcall
    rw [hsame]
    exact ⟨htracks, .of_ackInbox rfl⟩

/-- **A whole message** whose packet is acked for the first time: its id is pushed, whatever the
peer has of it. -/
theorem Accounts.mem_ackInbox {w : Ledger} (h : Accounts w p) {id : PacketId}
    {handle : MessageHandle}
    (hhandle : handle ∈ w id) (hwhole : handle.fragIndex = none) (hnew : p.Unacked id)
    {header : ProtocolPacketHeader} {payload : List UInt8} {r : Except PicklebackError Unit}
    (hcall : p.processIncomingPacket header payload = .ok (p', r)) :
    p'.Unacked id ∨ handle.id ∈ p'.dispatcher.ackInbox handle.channel := by
  refine (processIncomingPacket_induct (I := fun q => Accounts w q ∧
    (q.Unacked id ∨ handle.id ∈ q.dispatcher.ackInbox handle.channel)) ?_ ?_ ?_ ?_
      ⟨h, Or.inl hnew⟩ hcall).2
  · intro q q' hq hsame
    refine ⟨hq.1.transfer (hq.1.intact.sameCore hsame) (by rw [hsame]) (by rw [hsame]), ?_⟩
    rw [Unacked, hsame]
    exact hq.2
  · intro q b id m hq hb
    exact ⟨hq.1.transfer (hq.1.intact.receivedBuffer hb) rfl rfl, hq.2⟩
  · intro q q' packetType ack hq hack
    refine ⟨hq.1.processAck hack, ?_⟩
    obtain rfl | ⟨sentMeta, _, d, _, hget, hunacked, hd, hq'⟩ := processAck_cases hack
    · exact hq.2
    · rw [ackedPacket_eq] at hd
      obtain ⟨hstays, hpushed⟩ := mem_ackInbox_of_ackHandles hd
      rw [Unacked, hq']
      dsimp only
      rcases hq.2 with ⟨sentMeta', hget', hunacked'⟩ | hmem
      · by_cases hid : id = ack.1
        · subst hid
          refine Or.inr (hpushed handle ?_ hwhole)
          rw [hq.1.handles hget hunacked]
          exact hhandle
        · refine Or.inl ⟨sentMeta', ?_, hunacked'⟩
          rw [SequenceBuffer.get_setEntry hget, if_neg hid]
          exact hget'
      · exact Or.inr (hstays _ _ hmem)
  · intro q q' m hq hm
    have hsending := sameSending_receiveMessage hq.1.intact hm
    refine ⟨hq.1.transfer (hq.1.intact.receiveMessage hm) hsending.sentBuffer
      hsending.messagesInPackets, ?_⟩
    rw [Unacked, hsending.sentBuffer, (sameAcks_receiveMessage hm).2]
    exact hq.2

end Endpoint

end Pickleback
