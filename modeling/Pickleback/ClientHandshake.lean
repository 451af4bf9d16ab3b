import Pickleback.Lib.Handshake
import Pickleback.Posting

/-!
# How far a client has come

The phases of `Lib.Handshake` in the states of a client, and what a packet can do to them: a
challenge for the salt the client has drawn, and a keep-alive with the right xor, lead on to the
next phase. A challenge that the endpoint refuses leaves salts behind, but not in a phase that uses
them.

## Main definitions

* `Client.phase` — how far the handshake of a client has come
* `Client.Heard` — what a packet can do

## Main results

* `Ready.receive_heard` — it does nothing else
-/

namespace Pickleback

namespace Client

/-- How far the handshake of a client has come. -/
def phase (c : Client) : Handshake.Phase UInt64 :=
  match c.state, c.clientSalt, c.serverSalt with
  | .sendingConnectionRequest, some clientSalt, _ => .requesting clientSalt
  | .sendingChallengeResponse, some clientSalt, some serverSalt => .answered clientSalt serverSalt
  | .connected, some clientSalt, some serverSalt => .connected clientSalt serverSalt
  | _, _, _ => .idle

variable {overflowChecks : Bool} {config : PicklebackConfig} {c c' : Client} {x y : UInt64}

theorem phase_congr (hstate : c'.state = c.state) (hclient : c'.clientSalt = c.clientSalt)
    (hserver : c'.serverSalt = c.serverSalt) : c'.phase = c.phase := by
  rw [phase, phase, hstate, hclient, hserver]

theorem phase_requesting (hstate : c.state = .sendingConnectionRequest)
    (hclient : c.clientSalt = some x) :
    c.phase = .requesting x := by
  rw [phase, hstate, hclient]

theorem phase_answered (hstate : c.state = .sendingChallengeResponse)
    (hclient : c.clientSalt = some x)
    (hserver : c.serverSalt = some y) : c.phase = .answered x y := by
  rw [phase, hstate, hclient, hserver]

theorem phase_connected (hstate : c.state = .connected) (hclient : c.clientSalt = some x)
    (hserver : c.serverSalt = some y) : c.phase = .connected x y := by
  rw [phase, hstate, hclient, hserver]

theorem phase_disconnected {reason : DisconnectReason} (hstate : c.state = .disconnected reason) :
    c.phase = .idle := by
  rw [phase, hstate]

theorem phase_selfInitiatedDisconnect (hstate : c.state = .selfInitiatedDisconnect) :
    c.phase = .idle := by
  rw [phase, hstate]

/-- What a packet can do to a client: nothing to its phase, or an end, or the next phase if the
packet has the right salts. Its outbox stays empty. -/
def Heard (c : Client) (packet : ProtocolPacket) (c' : Client) : Prop :=
  c'.pickleback.outbox = [] ∧ (c'.phase = c.phase ∨ c'.phase = .idle ∨
    (∃ header clientSalt serverSalt, packet = .connectionChallenge header clientSalt serverSalt ∧
      c.phase = .requesting clientSalt ∧ c'.phase = .answered clientSalt serverSalt) ∨
    ∃ header clientSalt serverSalt index, packet = .keepAlive header
      (clientSalt ^^^ serverSalt) index ∧
      c.phase = .answered clientSalt serverSalt ∧ c'.phase = .connected clientSalt serverSalt)

/-- Another endpoint with an empty outbox. -/
theorem heard_endpoint {packet : ProtocolPacket} {p : Endpoint} (hempty : c.pickleback.outbox = [])
    (hsame : c.pickleback.SameSetup p) : c.Heard packet { c with pickleback := p } :=
  ⟨hsame.outbox.trans hempty, Or.inl rfl⟩

theorem Ready.handlePacket_heard (h : Ready overflowChecks config c)
    (hempty : c.pickleback.outbox = [])
    {packet : ProtocolPacket} {rest : List UInt8} {r : Except PicklebackError (Option ClientState)}
    (hcall : c.handlePacket packet rest = .ok (c', r)) : AfterTransition (c.Heard packet) c' r := by
  have hsame : ∀ {c'' : Client} {r'' : Except PicklebackError (Option ClientState)},
      (Except.ok (c, Except.ok none) : Except Panic _) = .ok (c'', r'') →
      AfterTransition (c.Heard packet) c'' r'' := by
    rintro c'' r'' heq
    cases heq
    exact ⟨hempty, Or.inl rfl⟩
  cases packet with
  | connectionChallenge header clientSalt serverSalt =>
    simp only [Client.handlePacket] at hcall
    split at hcall
    · next hstate =>
      split at hcall
      · exact hsame hcall
      · next hclient =>
        split at hcall
        · cases hcall
          exact ⟨hempty, Or.inl rfl⟩
        · next hsalt =>
          rw [ne_eq, not_not] at hsalt
          subst hsalt
          obtain ⟨p, r', hp, rfl, hr⟩ := processThen_cases hcall
          have hsetup := Endpoint.sameSetup_processIncomingPacket hp
          have hout : p.outbox = [] := hsetup.outbox.trans hempty
          have hold := phase_requesting hstate hclient
          refine afterTransition_of_result hr ⟨hout, Or.inl ?_⟩ ?_
          · rw [hold]
            exact phase_requesting hstate hclient
          · rintro s hs
            cases hs
            rw [stateTransition_eq rfl]
            refine ⟨hout, Or.inr (Or.inr (Or.inl ⟨header, _, serverSalt, rfl, hold, ?_⟩))⟩
            exact phase_answered rfl hclient rfl
    · exact hsame hcall
  | connectionDenied header reason =>
    simp only [Client.handlePacket] at hcall
    split at hcall
    · cases hcall
      exact ⟨rfl, Or.inr (Or.inl (phase_disconnected rfl))⟩
    · exact hsame hcall
  | keepAlive header xorSalt clientIndex =>
    simp only [Client.handlePacket] at hcall
    split at hcall
    · split at hcall
      · next hsalt =>
        obtain ⟨p, r', hp, rfl, hr⟩ := processThen_cases hcall
        have hsetup := Endpoint.sameSetup_processIncomingPacket hp
        have hout : p.outbox = [] := hsetup.outbox.trans hempty
        refine afterTransition_of_result hr ⟨hout, Or.inl rfl⟩ fun s hs => ?_
        split at hs
        · next hresponding =>
          cases hs
          obtain ⟨clientSalt, serverSalt, hclient, hserver, hxor, -⟩ :=
            h.consistent.talking (Or.inl hresponding)
          rw [hsalt, Option.some.injEq] at hxor
          subst hxor
          rw [stateTransition_eq rfl]
          refine ⟨hout,
            Or.inr (Or.inr (Or.inr ⟨header, clientSalt, serverSalt, clientIndex, rfl, ?_, ?_⟩))⟩
          · exact phase_answered hresponding hclient hserver
          · exact phase_connected rfl hclient hserver
        · cases hs
      · exact hsame hcall
    · exact hsame hcall
  | messages header xorSalt =>
    simp only [Client.handlePacket] at hcall
    split at hcall
    · obtain ⟨p, r', hp, rfl, hr⟩ := processThen_cases hcall
      refine afterTransition_of_result hr ?_ fun s hs => by cases hs
      exact heard_endpoint hempty (Endpoint.sameSetup_processIncomingPacket hp)
    · exact hsame hcall
  | connectionRequest header clientSalt version => exact hsame hcall
  | connectionChallengeResponse header xorSalt => exact hsame hcall
  | disconnect header xorSalt => exact hsame hcall

/-- **What a client hears.** -/
theorem Ready.receive_heard (h : Ready overflowChecks config c) (hempty : c.pickleback.outbox = [])
    {bytes : List UInt8} {source : SocketAddr} {r : Except PicklebackError Unit}
    (hcall : c.receive bytes source = .ok (c', r)) :
    c' = c ∨ ∃ packet rest, readPacket bytes = .ok (packet, rest) ∧ c.Heard packet c' := by
  simp only [Client.receive] at hcall
  split at hcall
  · cases hcall
    exact Or.inl rfl
  · split at hcall
    · cases hcall
      exact Or.inl rfl
    · split at hcall
      · cases hcall
        exact Or.inl rfl
      · next packet rest hread =>
        refine Or.inr ⟨packet, rest, hread, ?_⟩
        split at hcall
        · cases hcall
        · next hpacket =>
          cases hcall
          exact h.received.handlePacket_heard hempty hpacket
        · next hpacket =>
          cases hcall
          exact h.received.handlePacket_heard hempty hpacket
        · next hpacket =>
          cases hcall
          exact h.received.handlePacket_heard hempty hpacket

end Client

end Pickleback
