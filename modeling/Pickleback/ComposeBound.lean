import Pickleback.Compose

/-!
# Composing packets on any endpoint

`composePackets_spec` is about endpoints with sound queues and the default configuration. Here the
queues hold anything, and a packet may be too small for every message, or for its own header. A
message that does not fit stays where it is and stays due, so the number of messages that are due
bounds nothing. What bounds the outer loop is that each of its rounds either gives up or sends a
packet, be it an empty one, and that the packets in flight are counted. The inner loops are bounded
by the messages that are due: taking one makes one fewer due, and a round that takes none is the
last.

## Main definitions

* `Endpoint.Composable` — the next packet id follows the last packet sent, and resends have to wait
* `Endpoint.Launches`, `Endpoint.LaunchesAll` — one packet, and a series of packets

## Main results

* `writeChannelMessagesToPacket_ends`, `fillPacket_ends` — the inner loops
* `openPacket_ends`, `outbox_closePacket` — the two ends of a round
* `composeLoop_round_ends`, `composeLoop_ends` — a round, and the outer loop
* `composePackets_ends` — the whole call
* `visitPacketsToSend_launchesAll` — what a visit that returns has done
-/

namespace Pickleback

open ByteCodec

/-- One channel for each id, and none that sends a message again at once. -/
structure ChannelList.Resends (cs : ChannelList) : Prop where
  ids : (cs.map Channel.id).Nodup
  resends : ∀ ch ∈ cs, ch.Resends

theorem ChannelList.Resends.set {cs : ChannelList} (h : cs.Resends) {id : UInt8} {ch : Channel}
    (hch : ch.Resends) (hid : ch.id = id) : (cs.set id ch).Resends where
  ids := by
    rw [map_id_set hid]
    exact h.ids
  resends := by
    intro c hc
    rcases mem_set hc with rfl | ⟨hc, -⟩
    · exact hch
    · exact h.resends c hc

namespace Endpoint

/-- What the channels and the counter of packet ids of an endpoint have to satisfy for its packets
to be composed: there is a salt, no header was refused since the last packet, and a message just
sent is not due. -/
structure Composable (p : Endpoint) : Prop where
  salt : p.xorSalt.isSome
  sequence : p.sequenceId = p.sentBuffer.sequence
  channels : p.channels.Resends

/-! ### The inner loops -/

/-- **The inner loop** ends: each message that is taken is due no more. -/
theorem writeChannelMessagesToPacket_ends {fuel : ℕ} {ch : Channel} (writer : WriteLimiter)
    (handles : List MessageHandle) (pool : BufPool) (n : ℕ) (hresend : ch.Resends)
    (hfuel : ch.numReady < fuel) :
    ∃ ms ch' writer' handles' pool' bytes res,
      writeChannelMessagesToPacket fuel ch writer handles pool n = .ok
      (ch', writer', handles', pool', res) ∧
      ch.Wrote ms ch' ∧ writer.Extends bytes writer' ∧ ∀ k, res = .ok k → k = n + ms.length := by
  induction fuel generalizing ch writer handles pool n with
  | zero => omega
  | succ fuel ih =>
    rw [writeChannelMessagesToPacket]
    cases hget : ch.getMessageToWriteToAPacket writer.remaining with
    | none =>
      refine ⟨[], ch, writer, handles, pool, [], .ok n, rfl, .refl ch, .refl writer, fun k hk => ?_⟩
      cases hk
      rfl
    | some r =>
      obtain ⟨msg, ch₁⟩ := r
      obtain ⟨-, hwrote⟩ := Channel.getMessageToWriteToAPacket_eq_some hget
      have hready := hwrote.numReady_add hresend
      rw [List.length_singleton] at hready
      dsimp only
      cases hwrite : writer.writeAll msg.buffer.data with
      | error e =>
        exact ⟨[msg], ch₁, writer, handles, pool, [], .error e,
          rfl, hwrote, .refl writer, fun k hk => by cases hk⟩
      | ok writer₁ =>
        have hext := WriteLimiter.Extends.of_writeAll hwrite
        dsimp only
        split
        · refine ⟨[msg], ch₁, writer₁, _, _, _, _, rfl, hwrote, hext, fun k hk => ?_⟩
          cases hk
          rfl
        · obtain ⟨ms, ch', writer', handles', pool', bytes, res, heq, hwrote', hext', hres⟩ :=
            ih writer₁ (handles ++ [⟨msg.id, msg.fragment.map Fragment.index, ch₁.id⟩])
              (pool.returnBuffer msg.buffer) (n + 1) (hwrote.resends hresend) (by omega)
          refine ⟨msg :: ms, ch', writer', handles', pool', _,
            res, heq, hwrote.trans hresend hwrote', hext.trans hext', fun k hk => ?_⟩
          rw [hres k hk, List.length_cons]
          omega

/-- **Filling a packet** ends: a round that takes nothing is the last. -/
theorem fillPacket_ends {fuel : ℕ} {p : Endpoint} (writer : WriteLimiter)
    (handles : List MessageHandle)
    (hresend : p.channels.Resends) (hfuel : p.channels.numReady < fuel) :
    ∃ cs pool stats writer' handles' bytes res,
      fillPacket fuel p writer handles
        = .ok ({ p with channels := cs, pool := pool, stats := stats }, writer', handles', res) ∧
      cs.Resends ∧ writer.Extends bytes writer' := by
  induction fuel generalizing p writer handles with
  | zero => omega
  | succ fuel ih =>
    rw [fillPacket]
    cases hfirst : p.channels.firstNonEmpty? with
    | none =>
      exact ⟨p.channels, p.pool, p.stats, writer, handles, [], .ok (), rfl, hresend, .refl writer⟩
    | some ch =>
      obtain ⟨hmem, -⟩ := firstNonEmpty_of_sound hfirst
      have hch := hresend.resends ch hmem
      obtain ⟨ms, ch', writer', handles', pool', bytes, res, hwrite, hwrote, hext, hres⟩ :=
        writeChannelMessagesToPacket_ends writer handles p.pool 0 hch
          (Nat.lt_succ_of_le ch.numReady_le)
      have hcs := hresend.set (hwrote.resends hch) hwrote.shrinks.id
      have hcount := ChannelList.numReady_set hresend.ids hmem (hwrote.numReady_add hch)
      dsimp only
      rw [hwrite]
      dsimp only
      split
      · exact ⟨_, _, _, _, _, bytes, _, rfl, hcs, hext⟩
      · exact ⟨_, _, _, _, _, bytes, _, rfl, hcs, hext⟩
      · next numWritten hnonzero =>
        have hlen := hres numWritten rfl
        have hpos : numWritten ≠ 0 := fun hzero => hnonzero (by rw [hzero])
        split
        · exact ⟨_, _, _, _, _, bytes, _, rfl, hcs, hext⟩
        · obtain ⟨cs₂, pool₂, stats₂, writer₂, handles₂, bytes₂, res₂, hfill, hcs₂, hext₂⟩ :=
            ih (p := { p with
              channels := p.channels.set ch.id ch'
              pool := pool'
              stats := { p.stats with messagesSent := p.stats.messagesSent + numWritten } })
              writer' handles' hcs (by dsimp only; omega)
          exact ⟨cs₂, pool₂, stats₂, writer₂, handles₂, _, res₂, hfill, hcs₂, hext.trans hext₂⟩

/-! ### A round -/

/-- Opening a packet uses up an id. A packet that is open has something in it. -/
theorem openPacket_ends {p : Endpoint} (hsalt : p.xorSalt.isSome)
    (hunacked : ¬ p.sentUnackedPackets ≥ maxUnackedPackets) :
    ∃ pool, (∃ e, p.openPacket none = .ok ({ p with sequenceId := p.sequenceId + 1, pool := pool },
      .error e)) ∨
      ∃ writer, p.openPacket none = .ok ({ p with sequenceId := p.sequenceId + 1, pool := pool },
        .ok writer) ∧
        writer.limit = p.config.maxPacketSize ∧ 0 < writer.written ∧
          writer.written ≤ writer.limit := by
  obtain ⟨salt, hsalt⟩ := Option.isSome_iff_exists.mp hsalt
  set pool := (p.pool.getBuffer p.config.maxPacketSize).2 with hpool
  refine ⟨pool, ?_⟩
  obtain ⟨r, hnext⟩ := exists_nextPacketHeader { p with pool := pool } .messages
  rw [openPacket]
  dsimp only
  rw [if_neg hunacked, writePacketHeader, ← hpool, hnext]
  cases r with
  | error e => exact Or.inl ⟨e, rfl⟩
  | ok header =>
    dsimp only
    cases hwrite : (WriteLimiter.new (p.pool.getBuffer p.config.maxPacketSize).1
        p.config.maxPacketSize).writeAll header.write with
    | error e => exact Or.inl ⟨e, rfl⟩
    | ok writer =>
      dsimp only
      rw [hsalt]
      dsimp only
      cases hsaltWrite : writer.writeAll (writeU64 salt) with
      | error e => exact Or.inl ⟨e, rfl⟩
      | ok writer' =>
        have hext := (WriteLimiter.Extends.of_writeAll hwrite).trans (.of_writeAll hsaltWrite)
        refine Or.inr ⟨writer', rfl, hext.limit, ?_, hext.fits (Nat.zero_le _)⟩
        rw [hext.written, List.length_append, length_writeU64]
        omega

/-- Closing a packet puts it into the outbox, or nothing. -/
theorem outbox_closePacket (p : Endpoint) (writer : WriteLimiter) (handles : List MessageHandle) :
    ∃ packets, packets.length ≤ 1 ∧ (p.closePacket writer handles).1.outbox = p.outbox ++
      packets := by
  rw [closePacket, sendRawPacket]
  cases p.sentBuffer.insert p.sequenceId (SentMeta.new p.time
      (writer.buffer.data.length + p.config.packetHeaderSize) p.receivedBuffer.sequence) with
  | error e => exact ⟨[], by simp, by simp⟩
  | ok sb =>
    refine ⟨[writer.buffer], le_refl _, ?_⟩
    dsimp only
    split <;> rfl

/-- **One round** that opens a packet gives up, or it sends the packet, and one more is in
flight. -/
theorem composeLoop_round_ends {p : Endpoint} (h : p.Composable) (hready : 0 < p.channels.numReady)
    (hunacked : ¬ p.sentUnackedPackets ≥ maxUnackedPackets) :
    (∃ p' e packets, packets.length ≤ 1 ∧ p'.outbox = p.outbox ++ packets ∧
        ∀ fuel, composeLoop (fuel + 1) p none [] = .ok (p', .error e)) ∨
      ∃ p₁ packet, p₁.Composable ∧ p₁.outbox = p.outbox ++ [packet] ∧
        p₁.sentUnackedPackets = p.sentUnackedPackets + 1 ∧
        ∀ fuel, composeLoop (fuel + 1) p none [] = composeLoop fuel p₁ none [] := by
  have hany := p.channels.anyWithMessagesToSend_iff.mpr hready
  obtain ⟨pool, ⟨e, hopen⟩ | ⟨writer, hopen, hlimit, hpos, hfits⟩⟩ :=
    openPacket_ends h.salt hunacked
  · refine Or.inl ⟨{ p with sequenceId := p.sequenceId + 1, pool := pool }, e, [], by simp, by simp,
      fun fuel => ?_⟩
    rw [composeLoop, if_pos hany, hopen]
  obtain ⟨cs, pool', stats, writer', handles', bytes, res, hfill, hcs, hext⟩ :=
    fillPacket_ends (p := { p with sequenceId := p.sequenceId + 1, pool := pool }) writer []
      h.channels
      (Nat.lt_succ_of_le p.channels.numReady_le)
  cases res with
  | error e =>
    refine Or.inl ⟨{ p with sequenceId := p.sequenceId + 1, channels := cs, pool := pool', stats :=
      stats }, e, [], by simp, by simp, fun fuel => ?_⟩
    rw [composeLoop, if_pos hany, hopen]
    dsimp only
    rw [hfill]
  | ok u =>
    -- the header at least was written, so the packet is sent, whatever is in it
    have hnotEmpty : writer'.remaining ≠ p.config.maxPacketSize := by
      rw [WriteLimiter.remaining, hext.limit, hext.written]
      omega
    set q : Endpoint := { p with
      sequenceId := p.sequenceId + 1, channels := cs, pool := pool', stats := stats } with hq
    obtain ⟨p', hclose, -⟩ | ⟨sb, mp, hsb, -, hclose⟩ := closePacket_cases q writer' handles'
    · obtain ⟨packets, hlen, houtbox⟩ := outbox_closePacket q writer' handles'
      rw [hclose] at houtbox
      exact Or.inl ⟨p', _, packets, hlen, houtbox, fun fuel =>
        (composeLoop_of_fillPacket fuel hready hopen hfill hnotEmpty).1 _ hclose⟩
    · have hsequence : sb.sequence = p.sequenceId + 1 :=
        SequenceBuffer.sequence_insert_succ (by rw [hq, h.sequence]) hsb
      refine Or.inr ⟨(q.closePacket writer' handles').1, writer'.buffer, ?_, ?_, ?_,
        fun fuel => (composeLoop_of_fillPacket fuel hready hopen hfill hnotEmpty).2
          (by rw [hclose])⟩
      · rw [hclose]
        exact ⟨h.salt, hsequence.symm, hcs⟩
      · rw [hclose]
      · rw [hclose, sentUnackedPackets, sentUnackedPackets]
        dsimp only
        rw [hsequence, h.sequence]
        simp only [UInt16.sub_eq_add_neg]
        ac_rfl

/-! ### The outer loop -/

/-- **The outer loop** ends, with at most as many packets as may still be in flight. -/
theorem composeLoop_ends {fuel k : ℕ} {p : Endpoint} (h : p.Composable)
    (hroom : 350 ≤ p.sentUnackedPackets.toNat + k) (hfuel : k < fuel) :
    ∃ p' r packets, composeLoop fuel p none [] = .ok (p', r) ∧ p'.outbox = p.outbox ++ packets ∧
      packets.length ≤ k := by
  induction fuel generalizing k p with
  | zero => omega
  | succ fuel ih =>
    by_cases hready : 0 < p.channels.numReady
    · have hany := p.channels.anyWithMessagesToSend_iff.mpr hready
      by_cases hunacked : p.sentUnackedPackets ≥ maxUnackedPackets
      · refine ⟨p, .error (.backpressure .tooManyPending), [], ?_, by simp, by simp⟩
        rw [composeLoop, if_pos hany, openPacket, if_pos hunacked]
      have hlt : p.sentUnackedPackets.toNat < 350 := by
        rw [ge_iff_le, UInt16.le_iff_toNat_le] at hunacked
        exact not_le.mp hunacked
      obtain ⟨p', e, packets, hlen, houtbox, hloop⟩ | ⟨p₁, packet, h₁, houtbox, hcount, hloop⟩ :=
        composeLoop_round_ends h hready hunacked
      · exact ⟨p', .error e, packets, hloop fuel, houtbox, by omega⟩
      · have hcount' : p₁.sentUnackedPackets.toNat = p.sentUnackedPackets.toNat + 1 := by
          rw [hcount, UInt16.toNat_add]
          simp only [UInt16.reduceToNat]
          omega
        obtain ⟨p', r, packets, hrest, houtbox', hlen⟩ := ih (k := k - 1) h₁ (by omega) (by omega)
        refine ⟨p', r, packet :: packets, (hloop fuel).trans hrest, ?_, ?_⟩
        · rw [houtbox', houtbox, List.append_assoc]
          rfl
        · rw [List.length_cons]
          omega
    · have hany : p.channels.anyWithMessagesToSend = false := by
        rw [← Bool.not_eq_true, ChannelList.anyWithMessagesToSend_iff]
        exact hready
      refine ⟨p, .ok (), [], ?_, by simp, by simp⟩
      rw [composeLoop, hany]
      simp

/-- **Composing packets** comes to an end, with or without an error, and with at most
`MAX_UNACKED_PACKETS` more packets in the outbox. Neither the configuration nor the sizes of the
buffers matter. -/
theorem composePackets_ends {p : Endpoint} (h : p.Composable) :
    ∃ p' r packets, p.composePackets = .ok (p', r) ∧ p'.outbox = p.outbox ++ packets ∧
      packets.length ≤ maxUnackedPackets.toNat := by
  rw [composePackets]
  split
  · exact ⟨p, _, [], rfl, by simp, by simp⟩
  · exact composeLoop_ends h (by show 350 ≤ _ + 350; omega) (by show 350 < _; omega)

/-- Packets of eleven bytes have room for a header without acks and the salt, and for no message. -/
theorem composePackets_ends_eleven : ∃ p' r packets,
    composePackets
    { (Endpoint.new true { PicklebackConfig.default with maxPacketSize := 11 } 0) with
      xorSalt := some 7
      channels := [.unreliable { UnreliableChannel.new 0 0 with q :=
        [⟨0, .small, 0, ⟨[0, 0, 0, 1, 65], 5⟩, none⟩] },
        .reliable (ReliableChannel.new 1 0)] } = .ok (p', r) ∧
      p'.outbox = [] ++ packets ∧ packets.length ≤ maxUnackedPackets.toNat := by
  refine composePackets_ends (p :=
    { (Endpoint.new true { PicklebackConfig.default with maxPacketSize := 11 } 0) with
    xorSalt := some 7
    channels := [.unreliable { UnreliableChannel.new 0 0 with q :=
      [⟨0, .small, 0, ⟨[0, 0, 0, 1, 65], 5⟩, none⟩] },
      .reliable (ReliableChannel.new 1 0)] }) ⟨rfl, rfl, by decide, ?_⟩
  intro ch hch c hc
  subst hc
  simp only [List.mem_cons, reduceCtorEq, List.not_mem_nil, or_false,
    false_or, Channel.reliable.injEq] at hch
  rw [hch, ReliableChannel.new]
  norm_num

/-! ### Calls that return

Where `visit_packets_to_send` does not panic, `compose_packets` has returned `Ok` or `Backpressure`.
All it has done then is a series of packets, on any endpoint.
-/

/-- **One packet** of messages, on any endpoint: the next id, and a header behind which anything may
stand. -/
structure Launches (p : Endpoint) (header : ProtocolPacketHeader) (p' : Endpoint) : Prop where
  id : header.id = p.sequenceId + 1
  sent : ∃ size, p.sentBuffer.insert (p.sequenceId + 1)
    (SentMeta.new p.time size p.receivedBuffer.sequence) = .ok p'.sentBuffer
  outbox : ∃ buf rest, p'.outbox = p.outbox ++ [buf] ∧ buf.data = header.write ++ rest
  ids : p'.channels.map Channel.id = p.channels.map Channel.id
  rest : p' = { p with
    sequenceId := p.sequenceId + 1
    channels := p'.channels
    pool := p'.pool
    stats := p'.stats
    sentBuffer := p'.sentBuffer
    outbox := p'.outbox
    dispatcher := { p.dispatcher with messagesInPackets := p'.dispatcher.messagesInPackets } }

/-- A series of packets. -/
inductive LaunchesAll : Endpoint → List ProtocolPacketHeader → Endpoint → Prop
  | nil (p : Endpoint) : LaunchesAll p [] p
  | cons {p p₁ p' : Endpoint} {header : ProtocolPacketHeader} {headers : List ProtocolPacketHeader}
    (h : p.Launches header p₁) (hrest : LaunchesAll p₁ headers p') :
      LaunchesAll p (header :: headers) p'

section Returns

variable {p p' : Endpoint}

/-- No error of a writer says that there are too many packets. -/
theorem io_of_writeAll {writer : WriteLimiter} {bytes : List UInt8} {e : PicklebackError}
    (h : writer.writeAll bytes = .error e) : ∃ err, e = .io err := by
  rw [WriteLimiter.writeAll] at h
  split at h
  · cases h
  · cases h
    exact ⟨_, rfl⟩

theorem writeChannelMessagesToPacket_eq_ok {fuel : ℕ} {ch ch' : Channel}
    {writer writer' : WriteLimiter}
    {handles handles' : List MessageHandle} {pool pool' : BufPool}
    {n : ℕ} {res : Except PicklebackError ℕ}
    (h : writeChannelMessagesToPacket fuel ch writer handles pool n
      = .ok (ch', writer', handles', pool', res)) :
    ch'.id = ch.id ∧ (∃ bytes, writer.Extends bytes writer') ∧
      ∀ e, res = .error e → ∃ err, e = .io err := by
  induction fuel generalizing ch writer handles pool n with
  | zero => cases h
  | succ fuel ih =>
    rw [writeChannelMessagesToPacket] at h
    split at h
    · cases h
      exact ⟨rfl, ⟨[], .refl _⟩, fun e he => by cases he⟩
    · next msg ch₁ hget =>
      have hid := (Channel.getMessageToWriteToAPacket_eq_some hget).2.shrinks.id
      split at h
      · next e hwrite =>
        cases h
        refine ⟨hid, ⟨[], .refl _⟩, fun e he => ?_⟩
        cases he
        exact io_of_writeAll hwrite
      · next writer₁ hwrite =>
        have hext := WriteLimiter.Extends.of_writeAll hwrite
        dsimp only at h
        split at h
        · cases h
          exact ⟨hid, ⟨_, hext⟩, fun e he => by cases he⟩
        · obtain ⟨hid', ⟨bytes, hext'⟩, hres⟩ := ih h
          exact ⟨hid'.trans hid, ⟨_, hext.trans hext'⟩, hres⟩

/-- What filling a packet changes. -/
theorem fillPacket_eq_ok {fuel : ℕ} {writer writer' : WriteLimiter}
    {handles handles' : List MessageHandle}
    {res : Except PicklebackError Unit}
    (h : fillPacket fuel p writer handles = .ok (p', writer', handles', res)) :
    (∃ cs pool stats, p' = { p with channels := cs, pool := pool, stats := stats } ∧
        cs.map Channel.id = p.channels.map Channel.id) ∧
      (∃ bytes, writer.Extends bytes writer') ∧ ∀ e, res = .error e → ∃ err, e = .io err := by
  induction fuel generalizing p writer handles with
  | zero => cases h
  | succ fuel ih =>
    rw [fillPacket] at h
    split at h
    · cases h
      exact ⟨⟨_, _, _, rfl, rfl⟩, ⟨[], .refl _⟩, fun e he => by cases he⟩
    · next ch hfirst =>
      split at h
      · cases h
      · next ch' writer₁ handles₁ pool₁ res₁ hwrite =>
        obtain ⟨hid, ⟨bytes, hext⟩, hres⟩ := writeChannelMessagesToPacket_eq_ok hwrite
        have hids : (p.channels.set ch.id ch').map Channel.id = p.channels.map Channel.id :=
          ChannelList.map_id_set hid
        dsimp only at h
        split at h
        · next e =>
          cases h
          exact ⟨⟨_, _, _, rfl, hids⟩, ⟨_, hext⟩, fun e' he => by cases he; exact hres e rfl⟩
        · cases h
          exact ⟨⟨_, _, _, rfl, hids⟩, ⟨_, hext⟩, fun e he => by cases he⟩
        · split at h
          · cases h
            exact ⟨⟨_, _, _, rfl, hids⟩, ⟨_, hext⟩, fun e he => by cases he⟩
          · obtain ⟨⟨cs, pool', stats, heq, hids'⟩, ⟨bytes', hext'⟩, hres'⟩ := ih h
            exact ⟨⟨cs, pool', stats, heq, hids'.trans hids⟩, ⟨_, hext.trans hext'⟩, hres'⟩

/-- How opening a packet ends, unless it is too long for its header or the call panics. -/
theorem openPacket_eq_ok {r : Except PicklebackError WriteLimiter}
    (h : p.openPacket none = .ok (p', r)) :
    (∃ err, r = .error (.io err)) ∨
      (∃ r', p.Stops p' r' ∧ r' = .error (.backpressure .tooManyPending) ∧
        r = .error (.backpressure .tooManyPending)) ∨
      ∃ (header : ProtocolPacketHeader) (writer : WriteLimiter) (rest : List UInt8),
        r = .ok writer ∧
        ¬ p.receivedUnackedPackets > maxUnackedPackets ∧
        header.id = p.sequenceId + 1 ∧ writer.buffer.data = header.write ++ rest ∧
        writer.limit = p.config.maxPacketSize ∧ 0 < writer.written ∧ writer.written ≤ writer.limit ∧
        ∃ pool, p' = { p with sequenceId := p.sequenceId + 1, pool := pool } := by
  by_cases hunacked : p.sentUnackedPackets ≥ maxUnackedPackets
  · rw [openPacket, if_pos hunacked] at h
    cases h
    exact Or.inr (Or.inl ⟨_, .unacked hunacked, rfl, rfl⟩)
  · by_cases hacks : p.receivedUnackedPackets > maxUnackedPackets
    · rw [openPacket_of_gt hunacked hacks] at h
      cases h
      exact Or.inr (Or.inl ⟨_, .acks _ hacks, rfl, rfl⟩)
    · set pool := (p.pool.getBuffer p.config.maxPacketSize).2 with hpool
      have hn : p.receivedUnackedPackets.toNat ≤ 350 := by
        rw [gt_iff_lt, UInt16.lt_iff_toNat_lt] at hacks
        simpa [maxUnackedPackets] using hacks
      obtain ⟨header, hheader⟩ :=
        ProtocolPacketHeader.exists_new (p.sequenceId + 1) p.receivedBuffer hn .messages
      have hnext : nextPacketHeader { p with pool := pool } .messages
          = .ok ({ p with sequenceId := p.sequenceId + 1, pool := pool }, .ok header) :=
        nextPacketHeader_of_le hacks hheader
      rw [openPacket] at h
      dsimp only at h
      rw [if_neg hunacked, writePacketHeader, ← hpool, hnext] at h
      dsimp only at h
      split at h
      · next e hwrite =>
        cases h
        obtain ⟨err, rfl⟩ := io_of_writeAll hwrite
        exact Or.inl ⟨err, rfl⟩
      · next writer hwrite =>
        split at h
        · cases h
        · next salt hsalt =>
          cases hsaltWrite : writer.writeAll (writeU64 salt) with
          | error e =>
            rw [hsaltWrite] at h
            cases h
            obtain ⟨err, rfl⟩ := io_of_writeAll hsaltWrite
            exact Or.inl ⟨err, rfl⟩
          | ok writer' =>
            rw [hsaltWrite] at h
            cases h
            have hext := (WriteLimiter.Extends.of_writeAll hwrite).trans (.of_writeAll hsaltWrite)
            refine Or.inr (Or.inr ⟨header, writer', writeU64 salt, rfl, hacks,
              (packetType_of_new hheader).2, ?_, hext.limit, ?_, hext.fits (Nat.zero_le _),
              pool, rfl⟩)
            · rw [hext.data]
              simp [WriteLimiter.new]
            · rw [hext.written, List.length_append, length_writeU64]
              omega

/-- **The outer loop**, when it returns `Ok` or `Backpressure`. -/
theorem composeLoop_launchesAll {fuel : ℕ} {r : Except PicklebackError Unit}
    (h : composeLoop fuel p none [] = .ok (p', r))
    (hr : ∀ e, r = .error e → ∃ b, e = .backpressure b) :
    ∃ headers p₁, p.LaunchesAll headers p₁ ∧ p₁.Stops p' r := by
  induction fuel generalizing p with
  | zero => cases h
  | succ fuel ih =>
    rw [composeLoop] at h
    split at h
    · next hany =>
      split at h
      · cases h
      · next p₁ e hopen =>
        cases h
        obtain ⟨err, he⟩ | ⟨r', hstops, rfl, hr'⟩ | ⟨_, _, _, hok, -⟩ := openPacket_eq_ok hopen
        · cases he
          obtain ⟨b, hb⟩ := hr _ rfl
          cases hb
        · cases hr'
          exact ⟨[], _, .nil _, hstops⟩
        · cases hok
      · next p₁ writer hopen =>
        obtain ⟨err, he⟩ | ⟨r', -, -, hr'⟩
          | ⟨header, w, rest, hw, -, hid, hdata, hlimit, hpos, hfits, pool, rfl⟩ :=
          openPacket_eq_ok hopen
        · cases he
        · cases hr'
        cases hw
        split at h
        · cases h
        · next p₂ writer' handles' e hfill =>
          cases h
          obtain ⟨err, rfl⟩ := (fillPacket_eq_ok hfill).2.2 _ rfl
          obtain ⟨b, hb⟩ := hr _ rfl
          cases hb
        · next p₂ writer' handles' hfill =>
          obtain ⟨⟨cs, pool', stats, rfl, hids⟩, ⟨bytes, hext⟩, -⟩ := fillPacket_eq_ok hfill
          have hnotEmpty : writer'.remaining ≠ p.config.maxPacketSize := by
            rw [WriteLimiter.remaining, hext.limit, hext.written]
            omega
          rw [if_pos hnotEmpty] at h
          obtain ⟨p₃, hclose, -⟩ | ⟨sb, mp, hsb, -, hclose⟩ := closePacket_cases _ writer' handles'
          · rw [hclose] at h
            cases h
            obtain ⟨b, hb⟩ := hr _ rfl
            cases hb
          · rw [hclose] at h
            obtain ⟨headers, p₄, hall, hstops⟩ := ih h
            refine ⟨header :: headers, p₄, .cons ⟨hid, ⟨_, hsb⟩, ?_, hids, rfl⟩ hall, hstops⟩
            exact ⟨writer'.buffer, rest ++ bytes, rfl, by rw [hext.data, hdata, List.append_assoc]⟩
    · next hany =>
      cases h
      refine ⟨[], _, .nil _, .done ?_⟩
      rw [ChannelList.anyWithMessagesToSend_iff] at hany
      omega

/-- **A visit**, whatever the configuration: a series of packets, one of the expected ends, and an
empty outbox. -/
theorem visitPacketsToSend_launchesAll {packets : List (List UInt8)}
    (h : p.visitPacketsToSend = .ok (p', packets)) :
    ∃ headers p₁ p₂ r, p.composePackets = .ok (p₂, r) ∧ p.LaunchesAll headers p₁ ∧ p₁.Stops p₂ r ∧
      p' = { p₂ with outbox := [], pool := p₂.pool.returnBuffers p₂.outbox } ∧
      packets = p₂.outbox.map PooledBuffer.data := by
  have hcompose : ∀ {p₂ r}, p.composePackets = .ok (p₂, r) →
    (∀ e, r = .error e → ∃ b, e = .backpressure b) →
      ∃ headers p₁, p.LaunchesAll headers p₁ ∧ p₁.Stops p₂ r := by
    intro p₂ r hcall hr
    rw [composePackets] at hcall
    split at hcall
    · next hunacked =>
      cases hcall
      exact ⟨[], _, .nil _, .unacked hunacked⟩
    · exact composeLoop_launchesAll hcall hr
  rw [visitPacketsToSend] at h
  split at h
  · cases h
  · next p₂ hcall =>
    cases h
    obtain ⟨headers, p₁, hall, hstops⟩ := hcompose hcall fun e he => by cases he
    exact ⟨headers, p₁, p₂, _, hcall, hall, hstops, rfl, rfl⟩
  · next p₂ b hcall =>
    cases h
    obtain ⟨headers, p₁, hall, hstops⟩ := hcompose hcall fun e he => by cases he; exact ⟨b, rfl⟩
    exact ⟨headers, p₁, p₂, _, hcall, hall, hstops, rfl, rfl⟩
  · cases h

end Returns

end Endpoint

end Pickleback
