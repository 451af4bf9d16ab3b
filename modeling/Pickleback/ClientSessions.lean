import Pickleback.Posting

/-!
# What a call does to the session of a client

A packet that the endpoint refuses should leave the session as it was, and a client should wait five
seconds for its server. Neither is always so: the salts of a challenge are taken over before the
endpoint is asked, and the time to wait is counted from a `last_receive_time` that `connect` does
not set.

## Main definitions

* `Client.KeepsHandshake`, `Client.TakesSalts` — what an error should leave alone, and the packets
  that change it
* `Client.Patient` — the client does not time out early

## Main results

* `Client.receive_keepsHandshake_iff` — exactly when an error leaves the session alone
* `Client.connect_patient_iff` — exactly when a client waits long enough
-/

namespace Pickleback

open ByteCodec

namespace Client

/-! ### Errors -/

/-- State, salts, server address and the list of transitions are the same. -/
structure KeepsHandshake (c c' : Client) : Prop where
  state : c'.state = c.state
  clientSalt : c'.clientSalt = c.clientSalt
  serverSalt : c'.serverSalt = c.serverSalt
  xorSalt : c'.xorSalt = c.xorSalt
  serverAddr : c'.serverAddr = c.serverAddr
  stateTransitions : c'.stateTransitions = c.stateTransitions

/-- The packet is a challenge that the client waits for, from its server, with salts it does not
have. -/
def TakesSalts (c : Client) (source : SocketAddr) : ProtocolPacket → Prop
  | .connectionChallenge _ clientSalt serverSalt => c.serverAddr = some source ∧
    c.state = .sendingConnectionRequest ∧ c.clientSalt = some clientSalt ∧
    ¬ (c.serverSalt = some serverSalt ∧ c.xorSalt = some (serverSalt ^^^ clientSalt))
  | _ => False

section Errors

variable {c c' : Client} {source : SocketAddr} {packet : ProtocolPacket}
  {rest : List UInt8} {e : PicklebackError}

theorem keepsHandshake_of_endpoint (p : Endpoint) (lastReceiveTime : Time) :
    c.KeepsHandshake { c with lastReceiveTime := lastReceiveTime, pickleback := p } :=
  ⟨rfl, rfl, rfl, rfl, rfl, rfl⟩

/-- A packet that fails, other than a challenge, was refused by the endpoint. -/
theorem handlePacket_error (hcall : c.handlePacket packet rest = .ok (c', .error e)) :
    c' = { c with lastReceiveTime := c'.lastReceiveTime, pickleback := c'.pickleback } ∨
      ∃ header clientSalt serverSalt, packet = .connectionChallenge header clientSalt serverSalt ∧
        c.state = .sendingConnectionRequest ∧ c.clientSalt = some clientSalt ∧
        c' = { c with
          serverSalt := some serverSalt
          xorSalt := some (serverSalt ^^^ clientSalt)
          pickleback := c'.pickleback } := by
  cases packet with
  | connectionChallenge header clientSalt serverSalt =>
    simp only [handlePacket] at hcall
    split at hcall
    · next hstate =>
      split at hcall
      · cases hcall
      · next hclient =>
        split at hcall
        · cases hcall
          exact Or.inl rfl
        · next hsalt =>
          rw [ne_eq, not_not] at hsalt
          subst hsalt
          obtain ⟨p, r', -, rfl, -⟩ := processThen_cases hcall
          exact Or.inr ⟨header, _, serverSalt, rfl, hstate, hclient, rfl⟩
    · cases hcall
  | connectionDenied header reason =>
    simp only [handlePacket] at hcall
    split at hcall
    · cases hcall
    · cases hcall
  | keepAlive header xorSalt clientIndex =>
    simp only [handlePacket] at hcall
    split at hcall
    · split at hcall
      · obtain ⟨p, r', -, rfl, -⟩ := processThen_cases hcall
        exact Or.inl rfl
      · cases hcall
    · cases hcall
  | messages header xorSalt =>
    simp only [handlePacket] at hcall
    split at hcall
    · obtain ⟨p, r', -, rfl, -⟩ := processThen_cases hcall
      exact Or.inl rfl
    · cases hcall
  | connectionRequest header clientSalt version => cases hcall
  | connectionChallengeResponse header xorSalt => cases hcall
  | disconnect header xorSalt => cases hcall

/-- A challenge that fails leaves its salts behind. -/
theorem challenge_error (hstate : c.state = .sendingConnectionRequest)
    {clientSalt serverSalt : UInt64}
    (hclient : c.clientSalt = some clientSalt) {header : ProtocolPacketHeader}
    (hcall : c.handlePacket (.connectionChallenge header clientSalt serverSalt) rest =
      .ok (c', .error e)) :
    c'.serverSalt = some serverSalt ∧ c'.xorSalt = some (serverSalt ^^^ clientSalt) := by
  simp only [handlePacket, hstate, hclient, if_true, ne_eq, not_true_eq_false, if_false] at hcall
  obtain ⟨p, r', -, rfl, -⟩ := processThen_cases hcall
  exact ⟨rfl, rfl⟩

/-- A packet that fails was read, and was handled, unless nothing has happened. -/
theorem receive_error {bytes : List UInt8} (hcall : c.receive bytes source = .ok (c', .error e)) :
    c' = c ∨ c.serverAddr = some source ∧ ∃ packet rest, readPacket bytes = .ok (packet, rest) ∧
      handlePacket { c with lastReceiveTime := c.time } packet rest = .ok (c', .error e) := by
  simp only [receive] at hcall
  split at hcall
  · cases hcall
  · next serverAddr haddr =>
    split at hcall
    · cases hcall
      exact Or.inl rfl
    · next hsource =>
      rw [ne_eq, not_not] at hsource
      split at hcall
      · cases hcall
        exact Or.inl rfl
      · next packet rest hread =>
        refine Or.inr ⟨hsource ▸ haddr, packet, rest, hread, ?_⟩
        split at hcall
        · cases hcall
        · next hpacket =>
          cases hcall
          exact hpacket
        · cases hcall
        · cases hcall

/-- **An error leaves the session alone** if and only if the packet is not a challenge with new
salts: such a challenge, when it fails, always leaves its salts behind. -/
theorem receive_keepsHandshake_iff {bytes : List UInt8}
    (hcall : c.receive bytes source = .ok (c', .error e)) :
    c.KeepsHandshake c' ↔
      ∀ packet rest, readPacket bytes = .ok (packet, rest) → ¬ c.TakesSalts source packet := by
  constructor
  · intro hkeeps packet rest hread htakes
    cases packet with
    | connectionChallenge header clientSalt serverSalt =>
      obtain ⟨haddr, hstate, hclient, hnew⟩ := htakes
      simp only [receive, haddr, ne_eq, not_true_eq_false, if_false, hread] at hcall
      split at hcall
      · cases hcall
      · next hpacket =>
        cases hcall
        obtain ⟨hserver, hxor⟩ := challenge_error (by exact hstate) (by exact hclient) hpacket
        exact hnew ⟨hkeeps.serverSalt ▸ hserver, hkeeps.xorSalt ▸ hxor⟩
      · cases hcall
      · cases hcall
    | _ => exact htakes
  · intro hnot
    obtain rfl | ⟨haddr, packet, rest, hread, hpacket⟩ := receive_error hcall
    · exact ⟨rfl, rfl, rfl, rfl, rfl, rfl⟩
    · obtain hsame | ⟨header, clientSalt, serverSalt, rfl, hstate, hclient, hsame⟩ :=
        handlePacket_error hpacket
      · rw [hsame]
        exact keepsHandshake_of_endpoint _ _
      · -- the salts were there before, or the packet would be one that is excluded
        obtain ⟨hserver, hxor⟩ : c.serverSalt = some serverSalt ∧
          c.xorSalt = some (serverSalt ^^^ clientSalt) :=
          by_contra fun hnew => hnot _ rest hread ⟨haddr, hstate, hclient, hnew⟩
        rw [hsame]
        exact ⟨rfl, rfl, hserver.symm, hxor.symm, rfl, rfl⟩

end Errors

/-- A `ConnectionChallenge` without acks. -/
def challengeBytes (id : PacketId) (clientSalt serverSalt : UInt64) : List UInt8 :=
  (ProtocolPacketHeader.newNoAcks id .connectionChallenge).write ++
    writeU64 clientSalt ++ writeU64 serverSalt ++
    writeZeroBytes 500

/-- A challenge for another salt leaves the session alone. -/
theorem receive_keepsHandshake_iff_otherSalt : ∃ c c', (new true 0 .default).run
    [.connect (.v4 1 2) 7] = .ok c ∧
    c.receive (challengeBytes 1 8 9) (.v4 1 2) = .ok (c', .error .invalidPacket) ∧
      c.KeepsHandshake c' := by
  obtain ⟨c, hrun, htest⟩ := exists_of_any_toOption (show ((new true 0 .default).run
      [.connect (.v4 1 2) 7]).toOption.any
        (fun c => (c.receive (challengeBytes 1 8 9) (.v4 1 2)).toOption.any
        fun r => decide (c.clientSalt = some 7 ∧ r.2 = .error .invalidPacket)) = true by
          decide +kernel)
  obtain ⟨⟨c', r⟩, hcall, htest⟩ := exists_of_any_toOption htest
  obtain ⟨hclient, rfl⟩ := of_decide_eq_true htest
  refine ⟨c, c', hrun, hcall, (receive_keepsHandshake_iff hcall).mpr ?_⟩
  intro packet rest hread htakes
  rw [show readPacket (challengeBytes 1 8 9) =
    .ok (.connectionChallenge (.newNoAcks 1 .connectionChallenge) 8 9,
    writeZeroBytes 500) by decide +kernel] at hread
  cases hread
  rw [TakesSalts, hclient] at htakes
  exact absurd htakes.2.2.1 (by decide)

/-- A client that connects once more during a handshake: the new challenge has the number of the
first one, is refused as a duplicate, and leaves its salts behind. -/
theorem not_keepsHandshake : ∃ c c', (new true 0 .default).run [.connect (.v4 1 2) 7,
      .receive (challengeBytes 1 7 9) (.v4 1 2), .connect (.v4 1 2) 8] = .ok c ∧
    c.receive (challengeBytes 1 8 10) (.v4 1 2) = .ok (c', .error .duplicatePacket) ∧
      ¬ c.KeepsHandshake c' := by
  obtain ⟨c, hrun, htest⟩ :=
    exists_of_any_toOption (show ((new true 0 .default).run [.connect (.v4 1 2) 7,
      .receive (challengeBytes 1 7 9) (.v4 1 2), .connect (.v4 1 2) 8]).toOption.any (fun c =>
        (c.receive (challengeBytes 1 8 10) (.v4 1 2)).toOption.any fun r => decide
          (c.serverSalt = none ∧ r.1.serverSalt = some 10 ∧ r.2 = .error .duplicatePacket)) = true
      by decide +kernel)
  obtain ⟨⟨c', r⟩, hcall, htest⟩ := exists_of_any_toOption htest
  obtain ⟨hold, hnew, rfl⟩ := of_decide_eq_true htest
  refine ⟨c, c', hrun, hcall, fun hkeeps => ?_⟩
  dsimp only at hnew
  rw [hkeeps.serverSalt, hold] at hnew
  cases hnew

/-! ### Waiting for the server -/

/-- The clients agree on the clock, on when the last packet came in, and on the state. -/
structure SameClock (c c' : Client) : Prop where
  time : c'.time = c.time
  lastReceiveTime : c'.lastReceiveTime = c.lastReceiveTime
  state : c'.state = c.state
  serverAddr : c'.serverAddr = c.serverAddr

section Clock

variable {c c' c'' : Client}

theorem SameClock.trans (h : c.SameClock c') (h' : c'.SameClock c'') : c.SameClock c'' :=
  ⟨h'.time.trans h.time, h'.lastReceiveTime.trans h.lastReceiveTime, h'.state.trans h.state,
    h'.serverAddr.trans h.serverAddr⟩

theorem sameClock_sendWithSalt {packetType : PacketType} {salt : Option UInt64}
    {build : ProtocolPacketHeader → UInt64 → ProtocolPacket} {sent : Bool}
    (hcall : c.sendWithSalt packetType salt build = .ok (c', sent)) : c.SameClock c' := by
  simp only [sendWithSalt] at hcall
  split at hcall
  · cases hcall
  · cases hcall
    exact ⟨rfl, rfl, rfl, rfl⟩
  · next p header hnext =>
    split at hcall
    · cases hcall
    · next x =>
      simp only [send] at hcall
      cases hsend : p.sendPacket (build header x) with
      | error q =>
        rw [hsend] at hcall
        cases hcall
      | ok r =>
        obtain ⟨p', r⟩ := r
        rw [hsend] at hcall
        cases r <;>
        · cases hcall
          exact ⟨rfl, rfl, rfl, rfl⟩

theorem sameClock_sendDisconnects {n : ℕ} (hcall : sendDisconnects n c = .ok c') :
    c.SameClock c' := by
  induction n generalizing c with
  | zero =>
    cases hcall
    exact ⟨rfl, rfl, rfl, rfl⟩
  | succ n ih =>
    simp only [sendDisconnects] at hcall
    split at hcall
    · cases hcall
    · next hsend => exact (sameClock_sendWithSalt hsend).trans (ih hcall)

theorem sameClock_sendHandshake {packetType : PacketType} {salt : Option UInt64}
    {build : ProtocolPacketHeader → UInt64 → ProtocolPacket}
    (hcall : c.sendHandshake packetType salt build = .ok c') : c.SameClock c' := by
  simp only [sendHandshake] at hcall
  split at hcall
  · cases hcall
  · next hsend =>
    cases hcall
    exact (sameClock_sendWithSalt hsend).trans ⟨rfl, rfl, rfl, rfl⟩
  · next hsend =>
    cases hcall
    exact sameClock_sendWithSalt hsend

theorem sameClock_visitPickleback {packets : List (List UInt8)}
    (hcall : c.visitPickleback = .ok (c', packets)) :
    c.SameClock c' := by
  obtain ⟨r, -, heq⟩ := exists_of_map_eq_ok hcall
  cases heq
  exact ⟨rfl, rfl, rfl, rfl⟩

/-- Sending leaves clock and state alone, except that a disconnecting client is disconnected. -/
theorem sendForState_clock {keepaliveNeeded : Bool}
    (hcall : c.sendForState = .ok (c', keepaliveNeeded)) :
    c.SameClock c' ∨
      c'.time = c.time ∧ c'.state = .disconnected .normal ∧ c'.serverAddr = none := by
  simp only [sendForState] at hcall
  split at hcall
  · split at hcall
    · obtain ⟨c₁, hsend, heq⟩ := exists_of_map_eq_ok hcall
      cases heq
      exact Or.inr ⟨(sameClock_sendDisconnects hsend).time, rfl, rfl⟩
    · cases hcall
      exact Or.inl ⟨rfl, rfl, rfl, rfl⟩
  · split at hcall
    · obtain ⟨c₁, hsend, heq⟩ := exists_of_map_eq_ok hcall
      cases heq
      exact Or.inl (sameClock_sendHandshake hsend)
    · cases hcall
      exact Or.inl ⟨rfl, rfl, rfl, rfl⟩
  · split at hcall
    · obtain ⟨c₁, hsend, heq⟩ := exists_of_map_eq_ok hcall
      cases heq
      exact Or.inl (sameClock_sendHandshake hsend)
    · cases hcall
      exact Or.inl ⟨rfl, rfl, rfl, rfl⟩
  · cases hcall
    exact Or.inl ⟨rfl, rfl, rfl, rfl⟩
  · cases hcall
    exact Or.inl ⟨rfl, rfl, rfl, rfl⟩

theorem visitPacketsToSend_clock {sent : List (SocketAddr × List UInt8)}
    (hcall : c.visitPacketsToSend = .ok (c', sent)) :
    c.SameClock c' ∨
      c'.time = c.time ∧ c'.state = .disconnected .normal ∧ c'.serverAddr = none := by
  simp only [visitPacketsToSend] at hcall
  split at hcall
  · cases hcall
    exact Or.inl ⟨rfl, rfl, rfl, rfl⟩
  · split at hcall
    · cases hcall
    · next c₁ keepaliveNeeded hstate =>
      -- whatever follows keeps what the state asked for
      have hthen : ∀ {c₂ : Client}, c₁.SameClock c₂ →
          c.SameClock c₂ ∨
            c₂.time = c.time ∧ c₂.state = .disconnected .normal ∧ c₂.serverAddr = none := by
        intro c₂ hsame
        exact (sendForState_clock hstate).imp (fun h => h.trans hsame)
          fun h => ⟨hsame.time.trans h.1, hsame.state.trans h.2.1, hsame.serverAddr.trans h.2.2⟩
      split at hcall
      · cases hcall
      · next hvisit =>
        have hsame := sameClock_visitPickleback hvisit
        split at hcall
        · split at hcall
          · cases hcall
          · next hsend =>
            split at hcall
            · cases hcall
            · next hvisit' =>
              cases hcall
              exact hthen ((hsame.trans (sameClock_sendWithSalt hsend)).trans
                (sameClock_visitPickleback hvisit'))
        · cases hcall
          exact hthen hsame

end Clock

/-- The application waits: it lets time pass, sends, and receives packets. Of those from the server
only the `incoming` ones come in. -/
def Call.Waits (serverAddr : SocketAddr) (incoming : Set (List UInt8)) : Call → Prop
  | .update dt => 0 ≤ dt
  | .visitPacketsToSend => True
  | .receive bytes source => source = serverAddr → bytes ∈ incoming
  | _ => False

/-- After `connect` the client has `CONNECTION_TIMEOUT` to wait, if no more than `incoming` comes
from the server. -/
def Patient (c : Client) (serverAddr : SocketAddr) (salt : UInt64)
    (incoming : Set (List UInt8)) : Prop :=
  ∀ calls c', (∀ call ∈ calls, call.Waits serverAddr incoming) →
    (c.connect serverAddr salt).run calls = .ok c' →
    c'.time ≤ c.time + connectionTimeout → c'.state ≠ .disconnected .timedOut

/-- The bytes are not a denial that says that the client has timed out. -/
def NoTimeout (bytes : List UInt8) : Prop :=
  Reads (fun packet => ∀ header, packet ≠ .connectionDenied header .timedOut) bytes

/-- Five seconds from `t` are over, or the client still waits for packets of `serverAddr`, or has
been told that there will be none. -/
structure Waiting (t : Time) (serverAddr : SocketAddr) (c : Client) : Prop where
  clock : t ≤ c.time
  serverAddr : ∀ addr, c.serverAddr = some addr → addr = serverAddr
  waits : c.time ≤ t + connectionTimeout →
    (c.state.isDisconnected = false ∧ t ≤ c.lastReceiveTime) ∨
    ∃ reason, c.state = .disconnected reason ∧ reason ≠ .timedOut

section Waiting

variable {c c' : Client} {t : Time} {serverAddr : SocketAddr}

theorem Waiting.update (h : c.Waiting t serverAddr) {dt : Time} (hdt : 0 ≤ dt) :
    (c.update dt).Waiting t serverAddr := by
  have htime : (c.update dt).time = c.time + dt := by
    rw [Client.update]
    split <;> rfl
  have hopen : c.time + dt ≤ t + connectionTimeout → _ := fun hsoon => h.waits (by linarith)
  have hclock := h.clock
  refine ⟨by rw [htime]; linarith, fun addr haddr => ?_, fun hsoon => ?_⟩
  · simp only [Client.update] at haddr
    split at haddr
    · cases haddr
    · exact h.serverAddr addr haddr
  · rw [htime] at hsoon
    have hnot : ¬ ((!c.state.isDisconnected) = true ∧
        c.time + dt - c.lastReceiveTime > connectionTimeout) := by
      rintro ⟨hconnected, hlate⟩
      obtain ⟨-, hreceived⟩ | ⟨reason, hstate, -⟩ := hopen hsoon
      · linarith
      · rw [hstate] at hconnected
        cases hconnected
    simp only [Client.update, if_neg hnot]
    exact hopen hsoon

/-- What a packet asks for is no end of the session, unless it is a denial. -/
theorem handlePacket_clock (hlast : c.lastReceiveTime = c.time)
    {packet : ProtocolPacket} {rest : List UInt8}
    {r : Except PicklebackError (Option ClientState)}
    (hcall : c.handlePacket packet rest = .ok (c', r)) :
    c.SameClock c' ∧ ∀ s, r = .ok (some s) → s.isDisconnected = false ∨
      ∃ header reason, packet = .connectionDenied header reason ∧ s = .disconnected reason := by
  have hquiet : ∀ {newState : Option ClientState}, newState = none →
      ∀ s, (Except.ok newState : Except PicklebackError _) = .ok (some s) →
        s.isDisconnected = false ∨
        ∃ header reason, packet = .connectionDenied header reason ∧ s = .disconnected reason := by
    rintro newState rfl s heq
    cases heq
  cases packet with
  | connectionChallenge header clientSalt serverSalt =>
    simp only [handlePacket] at hcall
    split at hcall
    · split at hcall
      · cases hcall
        exact ⟨⟨rfl, rfl, rfl, rfl⟩, hquiet rfl⟩
      · split at hcall
        · cases hcall
          exact ⟨⟨rfl, rfl, rfl, rfl⟩, fun s heq => (by cases heq)⟩
        · obtain ⟨p, r', -, rfl, hr⟩ := processThen_cases hcall
          refine ⟨⟨rfl, rfl, rfl, rfl⟩, fun s heq => Or.inl ?_⟩
          obtain rfl | ⟨e, rfl⟩ := hr <;> cases heq
          rfl
    · cases hcall
      exact ⟨⟨rfl, rfl, rfl, rfl⟩, hquiet rfl⟩
  | connectionDenied header reason =>
    simp only [handlePacket] at hcall
    split at hcall
    · cases hcall
      refine ⟨⟨rfl, rfl, rfl, rfl⟩, fun s heq => Or.inr ⟨header, reason, rfl, ?_⟩⟩
      cases heq
      rfl
    · cases hcall
      exact ⟨⟨rfl, rfl, rfl, rfl⟩, hquiet rfl⟩
  | keepAlive header xorSalt clientIndex =>
    simp only [handlePacket] at hcall
    split at hcall
    · split at hcall
      · obtain ⟨p, r', -, rfl, hr⟩ := processThen_cases hcall
        refine ⟨⟨rfl, hlast.symm, rfl, rfl⟩, fun s heq => Or.inl ?_⟩
        obtain rfl | ⟨e, rfl⟩ := hr
        · split at heq <;> cases heq
          rfl
        · cases heq
      · cases hcall
        exact ⟨⟨rfl, rfl, rfl, rfl⟩, hquiet rfl⟩
    · cases hcall
      exact ⟨⟨rfl, rfl, rfl, rfl⟩, hquiet rfl⟩
  | messages header xorSalt =>
    simp only [handlePacket] at hcall
    split at hcall
    · obtain ⟨p, r', -, rfl, hr⟩ := processThen_cases hcall
      refine ⟨⟨rfl, rfl, rfl, rfl⟩, fun s heq => ?_⟩
      obtain rfl | ⟨e, rfl⟩ := hr <;> cases heq
    · cases hcall
      exact ⟨⟨rfl, rfl, rfl, rfl⟩, hquiet rfl⟩
  | connectionRequest header clientSalt version =>
    cases hcall
    exact ⟨⟨rfl, rfl, rfl, rfl⟩, hquiet rfl⟩
  | connectionChallengeResponse header xorSalt =>
    cases hcall
    exact ⟨⟨rfl, rfl, rfl, rfl⟩, hquiet rfl⟩
  | disconnect header xorSalt =>
    cases hcall
    exact ⟨⟨rfl, rfl, rfl, rfl⟩, hquiet rfl⟩

/-- A packet came in. -/
theorem Waiting.received (h : c.Waiting t serverAddr) :
    Waiting t serverAddr { c with lastReceiveTime := c.time } :=
  ⟨h.clock, h.serverAddr, fun hsoon => (h.waits hsoon).imp (fun hopen => ⟨hopen.1, h.clock⟩) id⟩

theorem Waiting.sameClock (h : c.Waiting t serverAddr) (hsame : c.SameClock c') :
    c'.Waiting t serverAddr := by
  refine ⟨hsame.time ▸ h.clock, hsame.serverAddr ▸ h.serverAddr, ?_⟩
  rw [hsame.time, hsame.state, hsame.lastReceiveTime]
  exact h.waits

/-- The client is told that there will be no more packets. -/
theorem waiting_disconnected (hclock : t ≤ c.time) {reason : DisconnectReason}
    (hstate : c.state = .disconnected reason) (haddr : c.serverAddr = none)
    (hreason : reason ≠ .timedOut) :
    c.Waiting t serverAddr :=
  ⟨hclock, fun _ hsome => absurd (haddr.symm.trans hsome) (Option.some_ne_none _).symm,
    fun _ => Or.inr ⟨reason, hstate, hreason⟩⟩

theorem Waiting.receive (h : c.Waiting t serverAddr) {bytes : List UInt8} {source : SocketAddr}
    (hbytes : source = serverAddr → NoTimeout bytes) {r : Except PicklebackError Unit}
    (hcall : c.receive bytes source = .ok (c', r)) : c'.Waiting t serverAddr := by
  simp only [Client.receive] at hcall
  split at hcall
  · cases hcall
    exact h
  · next addr haddr =>
    split at hcall
    · cases hcall
      exact h
    · next hsource =>
      split at hcall
      · cases hcall
        exact h
      · next packet rest hread =>
        split at hcall
        · cases hcall
        · next hpacket =>
          cases hcall
          exact h.received.sameClock (handlePacket_clock rfl hpacket).1
        · next hpacket =>
          cases hcall
          exact h.received.sameClock (handlePacket_clock rfl hpacket).1
        · next c₁ newState hpacket =>
          cases hcall
          obtain ⟨hsame, hnew⟩ := handlePacket_clock rfl hpacket
          have hwaiting := h.received.sameClock hsame
          obtain hstate | ⟨header, reason, rfl, rfl⟩ := hnew newState rfl
          · rw [stateTransition_eq hstate]
            refine ⟨hwaiting.clock, hwaiting.serverAddr, fun _ => Or.inl ⟨hstate, ?_⟩⟩
            exact hsame.lastReceiveTime.symm ▸ h.clock
          · have hstate : (c₁.stateTransition (.disconnected reason)).state =
              .disconnected reason := rfl
            refine waiting_disconnected hwaiting.clock hstate rfl ?_
            rintro rfl
            have heq : source = serverAddr :=
              (not_not.mp hsource).symm.trans (h.serverAddr addr haddr)
            exact hbytes heq _ rest hread header rfl

theorem Waiting.visitPacketsToSend (h : c.Waiting t serverAddr)
    {sent : List (SocketAddr × List UInt8)}
    (hcall : c.visitPacketsToSend = .ok (c', sent)) : c'.Waiting t serverAddr := by
  obtain hsame | ⟨htime, hstate, haddr⟩ := visitPacketsToSend_clock hcall
  · exact h.sameClock hsame
  · exact waiting_disconnected (htime ▸ h.clock) hstate haddr (by decide)

/-- **One call** of an application that waits. -/
theorem Waiting.step (h : c.Waiting t serverAddr) {incoming : Set (List UInt8)}
    (hincoming : ∀ bytes ∈ incoming, NoTimeout bytes) {call : Call}
    (hwaits : call.Waits serverAddr incoming)
    (hstep : c.step call = .ok c') : c'.Waiting t serverAddr := by
  cases call with
  | update dt =>
    cases hstep
    exact h.update hwaits
  | receive bytes source =>
    obtain ⟨⟨c₁, r⟩, hcall, rfl⟩ := exists_of_map_eq_ok hstep
    exact h.receive (fun heq => hincoming bytes (hwaits heq)) hcall
  | visitPacketsToSend =>
    obtain ⟨⟨c₁, sent⟩, hcall, rfl⟩ := exists_of_map_eq_ok hstep
    exact h.visitPacketsToSend hcall
  | connect serverAddr salt => exact absurd hwaits id
  | disconnect => exact absurd hwaits id

theorem Waiting.run (h : c.Waiting t serverAddr) {incoming : Set (List UInt8)}
    (hincoming : ∀ bytes ∈ incoming, NoTimeout bytes) {calls : List Call}
    (hwaits : ∀ call ∈ calls, call.Waits serverAddr incoming) (hrun : c.run calls = .ok c') :
    c'.Waiting t serverAddr := by
  induction calls generalizing c with
  | nil =>
    cases hrun
    exact h
  | cons call calls ih =>
    rw [List.forall_mem_cons] at hwaits
    obtain ⟨c₁, hfirst, hrest⟩ := exists_of_foldlM_cons hrun
    exact ih (h.step hincoming hwaits.1 hfirst) hwaits.2 hrest

theorem waiting_connect (hreceived : c.time ≤ c.lastReceiveTime) (salt : UInt64) :
    (c.connect serverAddr salt).Waiting c.time serverAddr := by
  rw [connect, stateTransition_eq rfl]
  refine ⟨le_rfl, fun addr haddr => ?_, fun _ => Or.inl ⟨rfl, hreceived⟩⟩
  cases haddr
  rfl

/-- An `update` over the whole of `CONNECTION_TIMEOUT` finds a client whose clock was ahead. -/
theorem connect_update_of_late (hlate : c.lastReceiveTime < c.time)
    (serverAddr : SocketAddr) (salt : UInt64) :
    ((c.connect serverAddr salt).update connectionTimeout).state = .disconnected .timedOut := by
  rw [update, if_pos]
  · rfl
  · refine ⟨rfl, ?_⟩
    show c.time + connectionTimeout - c.lastReceiveTime > connectionTimeout
    linarith

/-- A client that has just called `connect` takes any reason from its server. -/
theorem connect_receive_denied {bytes rest : List UInt8} {header : ProtocolPacketHeader}
    {reason : DisconnectReason}
    (hread : readPacket bytes = .ok (.connectionDenied header reason, rest))
    (c : Client) (serverAddr : SocketAddr) (salt : UInt64) :
    ∃ c', (c.connect serverAddr salt).receive bytes serverAddr = .ok (c', .ok ()) ∧
      c'.time = c.time ∧ c'.state = .disconnected reason := by
  rw [connect, stateTransition_eq rfl]
  simp only [Client.receive, ne_eq, not_true_eq_false, if_false,
    hread, handlePacket, true_or, if_true]
  exact ⟨_, rfl, rfl, rfl⟩

/-- **How long a client waits.** It has the whole of `CONNECTION_TIMEOUT` after `connect` if and
only if its clock is then not ahead of the time of the last packet, and no denial that says that it
has timed out comes from the server. -/
theorem connect_patient_iff (c : Client) (serverAddr : SocketAddr) (salt : UInt64)
    (incoming : Set (List UInt8)) :
    c.Patient serverAddr salt incoming ↔
      c.time ≤ c.lastReceiveTime ∧ ∀ bytes ∈ incoming, NoTimeout bytes := by
  constructor
  · intro hpatient
    constructor
    · by_contra hlate
      rw [not_le] at hlate
      -- five seconds later the client has waited for longer than that
      refine hpatient [.update connectionTimeout] _ ?_ rfl ?_
        (connect_update_of_late hlate serverAddr salt)
      · rw [List.forall_mem_singleton, Call.Waits]
        decide
      · simp only [update]
        split <;> exact le_rfl
    · rintro bytes hmem packet rest hread header rfl
      obtain ⟨c', hcall, htime, hstate⟩ := connect_receive_denied hread c serverAddr salt
      refine hpatient [.receive bytes serverAddr] c' ?_ ?_ ?_ hstate
      · rw [List.forall_mem_singleton]
        exact fun _ => hmem
      · rw [run, List.foldlM_cons, step, hcall]
        rfl
      · rw [htime]
        exact le_add_of_nonneg_right (by decide)
  · intro h calls c' hwaits hrun hsoon htimedOut
    obtain ⟨hreceived, hincoming⟩ := h
    have hwaiting := (waiting_connect hreceived salt).run hincoming hwaits hrun
    obtain ⟨hstate, -⟩ | ⟨reason, hstate, hreason⟩ := hwaiting.waits hsoon
    · rw [htimedOut] at hstate
      cases hstate
    · rw [htimedOut, ClientState.disconnected.injEq] at hstate
      exact hreason hstate.symm

end Waiting

/-- A client that is ten seconds old times out at the first frame after `connect`, whatever may come
in. -/
theorem not_patient : ∃ c, (new true 0 .default).run [.update 10] = .ok c ∧
    ∀ incoming, ¬ c.Patient (.v4 1 2) 7 incoming := by
  refine ⟨_, rfl, fun incoming hpatient => ?_⟩
  obtain ⟨c, hrun, htest⟩ := exists_of_any_toOption (show
    ((((new true 0 .default).update 10).connect (.v4 1 2) 7).run [.update (1 / 60)]).toOption.any
      (fun c => decide (c.state = .disconnected .timedOut ∧ c.time ≤ 10 + connectionTimeout)) = true
    by decide +kernel)
  obtain ⟨hstate, hsoon⟩ := of_decide_eq_true htest
  have hclock : ((new true 0 .default).update 10).time = 10 := by decide +kernel
  refine hpatient [.update (1 / 60)] c ?_ hrun (hclock.symm ▸ hsoon) hstate
  rw [List.forall_mem_singleton, Call.Waits]
  decide +kernel

end Client

end Pickleback
