import Pickleback.Link
import Pickleback.SoundCalls

/-!
# Sending next to keep-alives

`compose_packets` records each packet in two windows, and answers `SequenceTooOld`, on which
`visit_packets_to_send` panics, when the packet's id is behind one of them. Ids are used up without
touching a window: by a header that could not be made, and, for the window of message handles, by
every keep-alive. So an endpoint can get into a state in which the next message makes it panic;
which state is `Endpoint.Blocked`.

## Main results

* `sound_sendKeepAlive`, `sound_visitPacketsToSend` — the remaining calls keep an endpoint sound
* `composePackets_ok_iff` — in every reachable state, sending works if and only if it is not blocked
* `not_composePackets_ok` — a run into a blocked state
-/

namespace Pickleback

open Serial AckProtocol

namespace Endpoint

theorem sound_sendRawPacket {p : Endpoint} (h : p.Sound) (packet : PooledBuffer) :
    (p.sendRawPacket packet).1.Sound := by
  simp only [sendRawPacket]
  split
  · exact h
  · next sb hsb =>
    exact ⟨h.config, h.salt, h.channels, (SequenceBuffer.len_insert hsb).trans h.sentLen,
      h.receivedLen, h.handlesLen⟩

/-- A keep-alive, sent or not. -/
theorem sound_sendKeepAlive {p p' : Endpoint} (h : p.Sound) {clientIndex : UInt32}
    (hcall : p.sendKeepAlive clientIndex = .ok p') : p'.Sound := by
  have hnext : ∀ {p₁ r}, p.nextPacketHeader .keepAlive = .ok (p₁, r) → p₁.Sound := fun hr => by
    rw [nextPacketHeader_eq hr]
    exact ⟨h.config, h.salt, h.channels, h.sentLen, h.receivedLen, h.handlesLen⟩
  simp only [sendKeepAlive] at hcall
  split at hcall
  · cases hcall
  · next hr =>
    cases hcall
    exact hnext hr
  · next p₁ header hr =>
    have h₁ := hnext hr
    have h₁' : ∀ pool, Endpoint.Sound { p₁ with pool := pool } := fun pool =>
      ⟨h₁.config, h₁.salt, h₁.channels, h₁.sentLen, h₁.receivedLen, h₁.handlesLen⟩
    split at hcall
    · cases hcall
    · next p₂ r hsend =>
      cases hcall
      simp only [sendPacket] at hsend
      split at hsend
      · cases hsend
      · cases hsend
        exact h₁' _
      · next pool buf _ =>
        rw [Except.ok.injEq] at hsend
        have hraw := sound_sendRawPacket (h₁' pool) buf
        rw [hsend] at hraw
        exact hraw

/-- `visit_packets_to_send`. -/
theorem sound_visitPacketsToSend {p p' : Endpoint} (h : p.Sound) {packets : List (List UInt8)}
    (hcall : p.visitPacketsToSend = .ok (p', packets)) : p'.Sound := by
  have hdrained : ∀ {p₁ : Endpoint}, p₁.Sound →
      Endpoint.Sound { p₁ with outbox := [], pool := p₁.pool.returnBuffers p₁.outbox } := fun h₁ =>
    ⟨h₁.config, h₁.salt, h₁.channels, h₁.sentLen, h₁.receivedLen, h₁.handlesLen⟩
  obtain ⟨-, es, p₁, p₂, r, hcompose, -, h₁, hstop⟩ | ⟨-, p₂, hcompose⟩ := composePackets_spec h
  · have h₂ : p₂.Sound := by
      cases hstop with
      | done _ => exact h₁
      | unacked _ => exact h₁
      | acks pool _ =>
        exact ⟨h₁.config, h₁.salt, h₁.channels, h₁.sentLen, h₁.receivedLen, h₁.handlesLen⟩
    simp only [visitPacketsToSend, hcompose] at hcall
    cases hstop <;> cases hcall <;> exact hdrained h₂
  · simp only [visitPacketsToSend, hcompose] at hcall
    cases hcall

end Endpoint

namespace Link

/-- Any calls over a network that neither alters nor forges packets, keep-alives among them. -/
def PermitsAny (l : Link) : Call → Prop
  | .deliver f => f ∈ l.net
  | _ => True

instance (l : Link) (c : Call) : Decidable (l.PermitsAny c) :=
  match c with
  | .deliver f => inferInstanceAs (Decidable (f ∈ l.net))
  | .sendKeepAlive .. | .sendMessage .. | .update .. | .visitPacketsToSend _ => isTrue trivial

variable {l l' : Link}

theorem sound_setEndpoint (h : ∀ e, (l.endpoint e).Sound) {e : Side} {p : Endpoint} (hp : p.Sound)
    (e' : Side) : ((l.setEndpoint e p).endpoint e').Sound := by
  simp only [setEndpoint]
  by_cases he : e' = e
  · subst he
    rw [Function.update_self]
    exact hp
  · rw [Function.update_of_ne he]
    exact h e'

/-- **One step** keeps both endpoints sound, whatever the call. -/
theorem sound_step {c : Call} (h : ∀ e, (l.endpoint e).Sound) (hstep : l.step c = .ok l') :
    ∀ e, (l'.endpoint e).Sound := by
  cases c with
  | sendMessage e channel payload =>
    simp only [Link.step] at hstep
    split at hstep
    · cases hstep
    · next hcall =>
      cases hstep
      exact sound_setEndpoint h (Endpoint.sound_sendMessage (h e) hcall).1
  | update e dt =>
    cases hstep
    exact sound_setEndpoint h (Endpoint.sound_update (h e) dt).1
  | visitPacketsToSend e =>
    simp only [Link.step] at hstep
    split at hstep
    · cases hstep
    · next hcall =>
      cases hstep
      exact sound_setEndpoint h (Endpoint.sound_visitPacketsToSend (h e) hcall)
  | deliver f =>
    simp only [Link.step] at hstep
    split at hstep
    · cases hstep
      exact h
    · split at hstep
      · cases hstep
      · next hcall =>
        cases hstep
        have hp := (Endpoint.sound_processIncomingPacket (h f.source.other) hcall).1
        split
        · exact sound_setEndpoint h hp
        · exact sound_setEndpoint h hp
  | sendKeepAlive e clientIndex =>
    simp only [Link.step] at hstep
    split at hstep
    · cases hstep
    · next hcall =>
      cases hstep
      exact sound_setEndpoint h (Endpoint.sound_sendKeepAlive (h e) hcall)

/-- **Whole runs.** -/
theorem sound_of_reachable {permits : Link → Call → Prop} (h : Reachable permits l) (e : Side) :
    (l.endpoint e).Sound := by
  refine Reachable.invariant (I := fun l => ∀ e, (l.endpoint e).Sound) ?_ ?_ h e
  · exact fun overflowChecks time salt e => Endpoint.sound_new _ _ _
  · exact fun _ hs _ hstep => sound_step hs hstep

end Link

/-- `compose_packets` ends as its caller expects: with `Ok` or `Backpressure`. -/
def Endpoint.ComposesOk (p : Endpoint) : Prop :=
  ∃ p' r, p.composePackets = .ok (p', r) ∧ (r = .ok () ∨ ∃ b, r = .error (.backpressure b))

namespace Link

variable {l l' : Link}

/-- **When sending works.** In every reachable state, `compose_packets` returns `Ok` or
`Backpressure` if and only if it is not the case that a message is due, neither limit on acks is
reached, and the next packet id is behind the window of sent packets or of message handles. Where it
does, visiting the packets does not panic. -/
theorem composePackets_ok_iff (h : Reachable PermitsAny l) (e : Side) :
    ((l.endpoint e).ComposesOk ↔ ¬ (l.endpoint e).Blocked) ∧
      ((l.endpoint e).ComposesOk ↔ ∃ r, (l.endpoint e).visitPacketsToSend = .ok r) := by
  obtain ⟨hfree, es, p₁, p', r, hcompose, -, -, hstop⟩ | ⟨hblocked, p', hcompose⟩ :=
    Endpoint.composePackets_spec (sound_of_reachable h e)
  · have hok : (l.endpoint e).ComposesOk := by
      refine ⟨p', r, hcompose, ?_⟩
      cases hstop with
      | done _ => exact Or.inl rfl
      | unacked _ => exact Or.inr ⟨_, rfl⟩
      | acks _ _ => exact Or.inr ⟨_, rfl⟩
    refine ⟨iff_of_true hok hfree, iff_of_true hok ?_⟩
    simp only [Endpoint.visitPacketsToSend, hcompose]
    cases hstop <;> exact ⟨_, rfl⟩
  · have hno : ¬ (l.endpoint e).ComposesOk := by
      rintro ⟨q, r, hq, hr⟩
      rw [hcompose, Except.ok.injEq, Prod.mk.injEq] at hq
      rw [← hq.2] at hr
      rcases hr with hr | ⟨b, hr⟩ <;> cases hr
    refine ⟨iff_of_false hno (not_not.mpr hblocked), iff_of_false hno ?_⟩
    rintro ⟨r, hr⟩
    simp only [Endpoint.visitPacketsToSend, hcompose] at hr
    cases hr

/-- Messages of both sides, a keep-alive, a packet that is lost, and an ack. -/
def mixedTraffic : List (Link → Call) := [
  fun _ => .sendMessage .left 1 [1], fun _ => .sendKeepAlive .left 0,
    fun _ => .visitPacketsToSend .left,
  deliverAt 0, fun _ => .sendMessage .right 0 (List.replicate 1500 2),
    fun _ => .visitPacketsToSend .right,
  deliverAt 3, fun _ => .update .left 1]

/-- The left side has a message to send again, and an ack to send with it. -/
theorem composePackets_ok_iff_mixedTraffic : ∃ l, Reachable PermitsAny l ∧
    (l.endpoint .left).channels.anyWithMessagesToSend = true ∧
      (l.endpoint .left).receivedUnackedPackets = 2 ∧ (l.endpoint .left).sequenceId = 2 ∧
        ((l.endpoint .left).ComposesOk ↔ ¬ (l.endpoint .left).Blocked) ∧
          ((l.endpoint .left).ComposesOk ↔ ∃ r, (l.endpoint .left).visitPacketsToSend = .ok r) := by
  have hrun :
    (((start (fun _ => true) (fun _ => 1) fun _ => 7).run PermitsAny mixedTraffic).any fun l =>
      decide ((l.endpoint .left).channels.anyWithMessagesToSend = true ∧
        (l.endpoint .left).receivedUnackedPackets = 2 ∧ (l.endpoint .left).sequenceId = 2)) =
          true := by
    decide +kernel
  obtain ⟨l, hl, htest⟩ := (Option.any_eq_true _ _).mp hrun
  obtain ⟨hready, hacks, hid⟩ := of_decide_eq_true htest
  have hreach : Reachable PermitsAny l := reachable_of_run (.start _ _ _) hl
  exact ⟨l, hreach, hready, hacks, hid, composePackets_ok_iff hreach .left⟩

/-! ### A run into a blocked state -/

/-- Side `e` after `n` keep-alives for which no header could be made. -/
def burnIds (e : Side) (n : ℕ) (l : Link) : Link :=
  l.setEndpoint e { l.endpoint e with sequenceId := (l.endpoint e).sequenceId + UInt16.ofNat n }

/-- With too much to ack, a keep-alive does nothing but use up an id, any number of times. -/
theorem reachable_burnIds {e : Side} (h : Reachable PermitsAny l)
    (hacks : (l.endpoint e).receivedUnackedPackets > maxUnackedPackets) (n : ℕ) :
    Reachable PermitsAny (l.burnIds e n) := by
  induction n with
  | zero =>
    have hsame : l.burnIds e 0 = l := by simp [burnIds, setEndpoint]
    rw [hsame]
    exact h
  | succ n ih =>
    refine ih.step (c := .sendKeepAlive e 0) trivial ?_
    have hend : (l.burnIds e n).endpoint e
        = { l.endpoint e with sequenceId := (l.endpoint e).sequenceId + UInt16.ofNat n } := by
      simp [burnIds, setEndpoint]
    have hnext := Endpoint.nextPacketHeader_of_gt
      (p := (l.burnIds e n).endpoint e) (by rw [hend]; exact hacks) .keepAlive
    simp only [Link.step, Endpoint.sendKeepAlive, hnext]
    simp [burnIds, setEndpoint, UInt16.add_assoc, UInt16.ofNat_add]

/-- The right side sends 360 keep-alives. The left side receives the 20th, sends a keep-alive of its
own, and receives the 360th: now it has more than 350 packets to ack. -/
def manyToAck : List (Link → Call) :=
  List.replicate 360 (fun _ => .sendKeepAlive .right 0) ++ [
    fun _ => .visitPacketsToSend .right, deliverAt 19,
    fun _ => .sendKeepAlive .left 0, fun _ => .visitPacketsToSend .left, deliverAt 359]

/-- The keep-alive of the left side arrives, the right side acks it, and the left side has a message
to send. -/
def ackedAgain : List (Link → Call) := [
  deliverAt 360, fun _ => .sendKeepAlive .right 0, fun _ => .visitPacketsToSend .right,
    deliverAt 361,
  fun _ => .sendMessage .left 0 [1]]

/-- The error with which `compose_packets` returns. -/
def composeError (p : Endpoint) : Option PicklebackError :=
  match p.composePackets with
  | .ok (_, .error err) => some err
  | _ => none

/-- While it had too much to ack, the left side has tried to send 33000 keep-alives; then its
message is given an id that is behind the window of sent packets. -/
theorem not_composePackets_ok :
    ¬ ∀ l, Reachable PermitsAny l → ∀ e, (l.endpoint e).ComposesOk := by
  intro hall
  have hrun : ((start (fun _ => true) (fun _ => 1) fun _ => 7).run PermitsAny manyToAck).map
      (fun l => (decide ((l.endpoint .left).receivedUnackedPackets > maxUnackedPackets),
        ((l.burnIds .left 33000).run PermitsAny ackedAgain).map
          fun l' => composeError (l'.endpoint .left)))
        = some (true, some (some .sequenceTooOld)) := by decide +kernel
  obtain ⟨l, hl, heq⟩ := Option.map_eq_some_iff.mp hrun
  rw [Prod.mk.injEq, decide_eq_true_eq] at heq
  obtain ⟨l', hl', herror⟩ := Option.map_eq_some_iff.mp heq.2
  have hreach : Reachable PermitsAny l := reachable_of_run (.start _ _ _) hl
  have hreach' : Reachable PermitsAny l' :=
    reachable_of_run (reachable_burnIds hreach heq.1 33000) hl'
  obtain ⟨p, r, hcompose, hr⟩ := hall l' hreach' .left
  rw [composeError, hcompose] at herror
  rcases hr with rfl | ⟨b, rfl⟩ <;> cases herror

end Link

end Pickleback
