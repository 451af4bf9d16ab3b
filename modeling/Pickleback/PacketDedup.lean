import Pickleback.AckState
import Pickleback.Window

/-!
# Every packet is processed at most once

The window of received packets has 512 slots, and 512 divides 65536. An id that was accepted is in
its slot as long as it is inside the window, and outside of it the id is stale until the front is
half a turn ahead.

## Main results

* `tracked_insert`, `tracked_receiveAll` — an accepted id stays tracked, step by step and over runs
* `processIncomingPacket_at_most_once` — a second packet of the same id is refused
-/

namespace Pickleback

open Serial

namespace SequenceBuffer

variable {T : Type}

/-- The id `s` was inserted, and the front has moved forward by at most `moved` since. -/
def Tracked (b : SequenceBuffer T) (s : UInt16) (moved : ℕ) : Prop :=
  ∃ P e : ℤ, Lifts b.sequence P ∧ Lifts s e ∧ e ≤ P ∧ P - e < b.len + moved ∧ b.Held P e

section Tracking

variable [Inhabited T] {b b' : SequenceBuffer T} {s t : UInt16} {v : T}

/-- An insertion that passed the window test starts the tracking of its id. -/
theorem tracked_insert_self (hlen : b.len = 512) (hcheck : b.checkSequence t = true)
    (h : b.insert t v = .ok b') : b'.Tracked t 0 := by
  have hP := lifts_toNat b.sequence
  obtain ⟨f, hf, hlo, hhi⟩ := exists_lifts_of_checkSequence hP hcheck
  have hlen' := len_insert h
  refine ⟨max b.sequence.toNat f, f, lifts_sequence_insert hP hf (by omega) (by omega) h, hf,
    le_max_right _ _, by omega, fun _ => ?_⟩
  have hget := get_insert_self h
  rw [get_eq_some_iff, existsSequence_iff, hf.eq_wrap] at hget
  exact hget.1

/-- **One step.** Another insertion keeps an id tracked and adds what the front moved. -/
theorem tracked_insert {moved : ℕ} (hlen : b.len = 512) (hcheck : b.checkSequence t = true)
    (h : b.insert t v = .ok b') (hs : b.Tracked s moved) :
    b'.Tracked s (b.advance b' + moved) := by
  obtain ⟨P, e, hP, he, heP, hage, hheld⟩ := hs
  obtain ⟨f, hf, hlo, hhi⟩ := exists_lifts_of_checkSequence hP hcheck
  have hQ := lifts_sequence_insert hP hf (by omega) (by omega) h
  have hadv := advance_of_lifts hP hQ (le_max_left _ _) (by omega)
  have hlen' := len_insert h
  refine ⟨max P f, e, hQ, he, by omega, ?_, ?_⟩
  · push_cast
    omega
  · exact held_insert (by omega) (by rw [hlen]; norm_num) hP hf hlo (by omega) h heP hheld

omit [Inhabited T] in
/-- What is tracked fails one of the two tests, until the front is half a turn ahead. -/
theorem refused_of_tracked {moved : ℕ} (hmoved : moved < 32768) (hlen : b.len = 512)
    (hs : b.Tracked s moved) : b.checkSequence s = false ∨ b.existsSequence s = true := by
  obtain ⟨P, e, hP, he, heP, hage, hheld⟩ := hs
  by_cases hwin : P < e + b.len
  · right
    rw [existsSequence_iff, he.eq_wrap]
    exact hheld hwin
  · left
    rw [Bool.eq_false_iff, Ne, checkSequence_iff_of_lifts hP he (by omega) (by omega)]
    omega

end Tracking

end SequenceBuffer

namespace Endpoint

/-- Successive calls of `process_incoming_packet`, whatever they return. -/
def receiveAll (p : Endpoint) : List (ProtocolPacketHeader × List UInt8) → Except Panic Endpoint
  | [] => .ok p
  | call :: rest =>
    match p.processIncomingPacket call.1 call.2 with
    | .error q => .error q
    | .ok (p, _) => p.receiveAll rest

/-- By how many ids those calls move the newest received packet forward, in total. -/
def receivedAdvance (p : Endpoint) : List (ProtocolPacketHeader × List UInt8) → ℕ
  | [] => 0
  | call :: rest =>
    match p.processIncomingPacket call.1 call.2 with
    | .error _ => 0
    | .ok (p', _) => p.receivedBuffer.advance p'.receivedBuffer + p'.receivedAdvance rest

/-- A call that got past both checks has inserted its id. -/
theorem insert_of_accepted {p p' : Endpoint} {header : ProtocolPacketHeader} {payload : List UInt8}
    {r : Except PicklebackError Unit} (hcheck : p.receivedBuffer.checkSequence header.id = true)
    (hnew : p.receivedBuffer.existsSequence header.id = false)
    (h : p.processIncomingPacket header payload = .ok (p', r)) :
    r ≠ .error .sequenceTooOld ∧ ∃ m, p.receivedBuffer.insert header.id m =
      .ok p'.receivedBuffer := by
  obtain ⟨hstale, -⟩ | ⟨hdup, -⟩ | ⟨-, -, hr, m, rb, hrb, hack⟩ := processIncomingPacket_cases h
  · simp [hcheck] at hstale
  · simp [hnew] at hdup
  · have hrb' : p'.receivedBuffer = rb := by
      rw [← receivedBuffer_ackState, hack, AckState.receivedBuffer_processAcks]
    exact ⟨hr, m, hrb' ▸ hrb⟩

/-- A call that returns left the window of received packets alone or inserted its id into it. -/
theorem receivedBuffer_processIncomingPacket {p p' : Endpoint} {header : ProtocolPacketHeader}
    {payload : List UInt8} {r : Except PicklebackError Unit}
    (h : p.processIncomingPacket header payload = .ok (p', r)) :
    p'.receivedBuffer = p.receivedBuffer ∨
      (p.receivedBuffer.checkSequence header.id = true ∧
        ∃ m, p.receivedBuffer.insert header.id m = .ok p'.receivedBuffer) := by
  obtain ⟨-, -, hp⟩ | ⟨-, -, hp⟩ | ⟨hcheck, hnew, -⟩ := processIncomingPacket_cases h
  · left
    rw [hp]
  · left
    rw [hp]
  · exact Or.inr ⟨hcheck, (insert_of_accepted hcheck hnew h).2⟩

/-- What fails one of the two checks is refused. -/
theorem processIncomingPacket_of_refused {p : Endpoint} {header : ProtocolPacketHeader}
    (h : p.receivedBuffer.checkSequence header.id = false ∨
      p.receivedBuffer.existsSequence header.id = true) (payload : List UInt8) :
    ∃ e stats, (e = .stalePacket ∨ e = .duplicatePacket) ∧
      p.processIncomingPacket header payload = .ok ({ p with stats := stats }, .error e) := by
  unfold processIncomingPacket
  dsimp only
  cases hcheck : p.receivedBuffer.checkSequence header.id with
  | false => exact ⟨_, _, Or.inl rfl, rfl⟩
  | true =>
    have hdup : p.receivedBuffer.existsSequence header.id = true := by simpa [hcheck] using h
    simp only [Bool.not_true, Bool.false_eq_true, if_false, hdup, if_true]
    exact ⟨_, _, Or.inr rfl, rfl⟩

/-- **Whole runs.** An id tracked before a run of calls is tracked after it. -/
theorem tracked_receiveAll {s : UInt16} {calls : List (ProtocolPacketHeader × List UInt8)}
    {p p' : Endpoint} {moved : ℕ} (hlen : p.receivedBuffer.len = 512)
    (h : p.receiveAll calls = .ok p') (hs : p.receivedBuffer.Tracked s moved) :
    p'.receivedBuffer.len = 512 ∧
      p'.receivedBuffer.Tracked s (p.receivedAdvance calls + moved) := by
  induction calls generalizing p moved with
  | nil =>
    cases h
    exact ⟨hlen, by simpa [receivedAdvance] using hs⟩
  | cons call rest ih =>
    simp only [receiveAll, receivedAdvance] at h ⊢
    split at h
    · cases h
    · next q _ hq =>
      rw [Nat.add_right_comm, Nat.add_comm _ (receivedAdvance _ _)]
      obtain hsame | ⟨hcheck, m, hins⟩ := receivedBuffer_processIncomingPacket hq
      · rw [hsame, SequenceBuffer.advance_self, Nat.zero_add]
        exact ih (hsame ▸ hlen) h (hsame ▸ hs)
      · exact ih ((SequenceBuffer.len_insert hins).trans hlen) h
          (SequenceBuffer.tracked_insert hlen hcheck hins hs)

/-- **Every packet is processed at most once.** A call got past the stale and duplicate checks with
packet id `s`: it does not fail with `SequenceTooOld`, and after any further calls that move the
newest received id forward by fewer than 32768 ids, every call with id `s` is refused as stale or
duplicate and changes nothing but the statistics. -/
theorem processIncomingPacket_at_most_once {p p₁ : Endpoint} {header : ProtocolPacketHeader}
    {payload : List UInt8} {r : Except PicklebackError Unit}
    (hlen : p.receivedBuffer.len = PicklebackConfig.default.receivedPacketsBufferSize)
    (hcheck : p.receivedBuffer.checkSequence header.id = true)
    (hnew : p.receivedBuffer.existsSequence header.id = false)
    (hcall : p.processIncomingPacket header payload = .ok (p₁, r)) :
    r ≠ .error .sequenceTooOld ∧
      ∀ calls p₂, p₁.receiveAll calls = .ok p₂ → p₁.receivedAdvance calls < 32768 →
        ∀ header' payload', header'.id = header.id →
          ∃ e stats, (e = .stalePacket ∨ e = .duplicatePacket) ∧
            p₂.processIncomingPacket header' payload'
              = .ok ({ p₂ with stats := stats }, .error e) := by
  obtain ⟨hold, m, hins⟩ := insert_of_accepted hcheck hnew hcall
  refine ⟨hold, fun calls p₂ hrun hmoved header' payload' hid => ?_⟩
  have hstart := SequenceBuffer.tracked_insert_self hlen hcheck hins
  obtain ⟨hlen₂, htracked⟩ :=
    tracked_receiveAll ((SequenceBuffer.len_insert hins).trans hlen) hrun hstart
  have hrefused := SequenceBuffer.refused_of_tracked (by omega) hlen₂ htracked
  exact processIncomingPacket_of_refused (hid ▸ hrefused) payload'

/-- A keep-alive without acks, delivered to a new endpoint once, and then once more. -/
theorem keepAlive_at_most_once :
    ∃ p₁ r, (Endpoint.new true .default 1).processIncomingPacket (.newNoAcks 1 .keepAlive) []
        = .ok (p₁, r) ∧ r ≠ .error .sequenceTooOld ∧
      ∀ calls p₂, p₁.receiveAll calls = .ok p₂ → p₁.receivedAdvance calls < 32768 →
        ∀ header' payload', header'.id = 1 →
          ∃ e stats, (e = .stalePacket ∨ e = .duplicatePacket) ∧
            p₂.processIncomingPacket header' payload'
              = .ok ({ p₂ with stats := stats }, .error e) := by
  have hlen : (Endpoint.new true .default 1).receivedBuffer.len
      = PicklebackConfig.default.receivedPacketsBufferSize := rfl
  refine ⟨_, _, rfl, ?_⟩
  exact processIncomingPacket_at_most_once hlen
    (show (Endpoint.new true .default 1).receivedBuffer.checkSequence
      (ProtocolPacketHeader.newNoAcks 1 .keepAlive).id = true by decide) (by decide) rfl

end Endpoint

end Pickleback
