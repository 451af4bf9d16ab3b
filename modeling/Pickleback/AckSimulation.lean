import Pickleback.AckState
import Pickleback.Compose
import Pickleback.Lib.AckProtocol
import Pickleback.Window
import Pickleback.Wire

/-!
# The ack state refines the ack protocol

An endpoint's sixteen-bit counters and its two rings of 512 packets show a party of the ack
protocol: `Represents a p`. Sending a packet is a send of the party, with the acks that the header
carries; processing an ack field is the party's fold over the same acks. Both hold as long as the
numbers involved are close enough for the circular comparisons, which the invariant of the protocol
guarantees.

## Main definitions

* `Represents` — the ack state shows the party
* `reportedNumbers`, `Carries` — the numbers of the packets whose bits an ack field sets

## Main results

* `Represents.sentUnackedPackets`, `Represents.receivedUnackedPackets` — the two counters
* `Represents.canSend`, `Represents.send` — one send
* `Represents.processAcks`, `Represents.receive` — one packet received
-/

namespace Pickleback

open Serial AckProtocol

/-- The ack state `a` shows the party `p`, as far as sixteen bits and windows of 512 packets can. -/
structure Represents (a : AckState) (p : Party) : Prop where
  sequenceId : a.sequenceId = wrap p.sent
  sent : a.sentBuffer.Ring p.sent (Set.Icc 1 p.sent)
  sentMeta : ∀ {y}, 1 ≤ y → y ≤ p.sent → p.sent < y + 512 →
    ∃ m, a.sentBuffer.get (wrap y) = some m ∧ m.ackedUpTo = wrap (p.upTo y) ∧
      (m.acked = true ↔ y ∈ p.acked)
  received : a.receivedBuffer.Ring p.top p.received
  newest : (a.newestAck = none ∧ p.acked = []) ∨ a.newestAck = some (wrap p.newest)
  low : (a.ackLowWatermark = none ∧ p.acked = []) ∨ a.ackLowWatermark = some (wrap p.low)

/-- The acks with which a packet goes out, as numbers: those whose bit is set, read as the latest
packets up to `top`. -/
def reportedNumbers (top : ℕ) (acks : Option (List (UInt16 × Bool))) : List ℕ :=
  ((acks.getD []).filter Prod.snd).map fun ack => latest top ack.1

/-- A header's acks carry the numbers `ys`. -/
def Carries (acks : Option (List (UInt16 × Bool))) (ys : List ℕ) : Prop :=
  ((acks.getD []).filter Prod.snd).map Prod.fst = ys.map fun y : ℕ => wrap y

namespace Represents

variable {a : AckState} {p : Party}

/-! ### The two counters -/

theorem newest_eq (h : Represents a p) (ht : p.Tidy) : a.newestAck.getD 0 = wrap p.newest := by
  rcases h.newest with ⟨hnone, hnil⟩ | hsome
  · rw [hnone]
    have := ht.newest_mem
    rw [hnil] at this
    simp only [List.not_mem_nil, or_false] at this
    rw [this]
    rfl
  · rw [hsome]
    rfl

theorem low_eq (h : Represents a p) (ht : p.Tidy) (hzero : p.upTo 0 = 0) :
    a.ackLowWatermark.getD 0 = wrap p.low := by
  rcases h.low with ⟨hnone, hnil⟩ | hsome
  · have hnewest := ht.newest_mem
    rw [hnil] at hnewest
    simp only [List.not_mem_nil, or_false] at hnewest
    rw [hnone, ht.low, hnewest, hzero]
    rfl
  · rw [hsome]
    rfl

theorem sentUnackedPackets {e : Endpoint} (h : Represents e.ackState p) (ht : p.Tidy) :
    e.sentUnackedPackets = wrap (p.sent - p.newest) := by
  rw [Endpoint.sentUnackedPackets, ← wrap_sub]
  congr 1
  · exact h.sent.front.eq_wrap
  · exact h.newest_eq ht

theorem receivedUnackedPackets {e : Endpoint} (h : Represents e.ackState p) (ht : p.Tidy)
    (hzero : p.upTo 0 = 0) : e.receivedUnackedPackets = wrap (p.top - p.low) := by
  have hlow := h.low_eq ht hzero
  have hfront : e.receivedBuffer.sequence = wrap p.top := h.received.front.eq_wrap
  have hopt : e.receivedUnackedPackets = e.receivedBuffer.sequence - e.ackLowWatermark.getD 0 := by
    rw [Endpoint.receivedUnackedPackets]
    cases e.ackLowWatermark <;> simp
  rw [hopt, hfront, ← wrap_sub]
  exact congrArg (wrap p.top - ·) hlow

/-! ### Processing acks -/

theorem newerOf_wrap {m n : ℕ} (h₁ : m < n + 32768) (h₂ : n < m + 32768) :
    Endpoint.newerOf (some (wrap m)) (wrap n) = some (wrap (max m n : ℕ)) := by
  have hiff := SequenceBuffer.sequenceGreaterThan_iff_of_lifts (lifts_wrap n) (lifts_wrap m)
    (by omega) (by omega)
  rw [Endpoint.newerOf]
  rcases Nat.lt_or_ge m n with hlt | hge
  · rw [if_pos (hiff.mpr (by omega)), max_eq_right hlt.le]
  · rw [if_neg (fun hc => by have := hiff.mp hc; omega), max_eq_left hge]

/-- The entry of another packet of the window is not touched by an ack. -/
theorem get_setEntry_of_ne {b : SequenceBuffer SentMeta} {P : ℕ} {A : Set ℕ} (h : b.Ring P A)
    {y z : ℕ} (hne : z ≠ y) (hz : z ≤ P) (hy : y ≤ P) (hz' : P < z + 512) (hy' : P < y + 512)
    (m : SentMeta) : (b.setEntry (wrap y) m).get (wrap z) = b.get (wrap z) := by
  have hslot : b.index (wrap z) ≠ b.index (wrap y) := by
    rw [h.index_wrap, h.index_wrap]
    omega
  rw [SequenceBuffer.get, SequenceBuffer.get, SequenceBuffer.index_setEntry,
    SequenceBuffer.entrySequences_setEntry, SequenceBuffer.entries_setEntry, if_neg hslot]

/-- **One ack**, on a state whose counters are close enough to be compared. -/
theorem processAck (h : Represents a p) (ht : p.Tidy) (hzero : p.upTo 0 = 0) {y : ℕ} (hpos : 1 ≤ y)
    (hy : y ≤ p.sent) (hage : p.sent < y + 64000) (hnewest : p.newest ≤ p.sent)
    (hunacked : p.sent < p.newest + 32000) (hup : p.upTo y < p.low + 32000)
    (hup' : p.low < p.upTo y + 32000) :
    Represents (a.processAck (wrap y, true)) (p.ack 512 y) ∧
      (p.ack 512 y).acked = p.acked ++ (if a.setsAcked (wrap y, true) then [y] else []) := by
  by_cases hold : y + 512 ≤ p.sent
  · have hnone := SequenceBuffer.get_eq_none_iff.mpr (h.sent.not_exists_of_old hage hold)
    have hstate : a.processAck (wrap y, true) = a := by simp [AckState.processAck, hnone]
    rw [hstate, Party.ack, if_pos (Or.inr hold)]
    exact ⟨h, by simp [AckState.setsAcked, hnone]⟩
  obtain ⟨m, hget, hmeta, hacked⟩ := h.sentMeta hpos hy (by omega)
  by_cases hmem : y ∈ p.acked
  · have hset := hacked.mpr hmem
    have hstate : a.processAck (wrap y, true) = a := by simp [AckState.processAck, hget, hset]
    rw [hstate, Party.ack, if_pos (Or.inl hmem)]
    exact ⟨h, by simp [AckState.setsAcked, hget, hset]⟩
  have hunset : m.acked = false := by
    rw [← Bool.not_eq_true, hacked]
    exact hmem
  have hstate : a.processAck (wrap y, true) = { a with
      newestAck := Endpoint.newerOf a.newestAck (wrap y)
      ackLowWatermark := Endpoint.newerOf a.ackLowWatermark (wrap (p.upTo y))
      sentBuffer := a.sentBuffer.setEntry (wrap y) { m with acked := true } } := by
    simp [AckState.processAck, hget, hunset, hmeta]
  rw [hstate, Party.ack, if_neg (by push Not; exact ⟨hmem, by omega⟩)]
  refine ⟨⟨h.sequenceId, ?_, ?_, h.received, Or.inr ?_, Or.inr ?_⟩, ?_⟩
  · exact ⟨h.sent.len, h.sent.front, h.sent.held, h.sent.young⟩
  · intro z hz₁ hz₂ hz₃
    by_cases hzy : z = y
    · subst hzy
      refine ⟨{ m with acked := true }, ?_, hmeta, by simp⟩
      rw [SequenceBuffer.get_eq_some_iff] at hget ⊢
      exact ⟨hget.1, by simp [SequenceBuffer.entries_setEntry]⟩
    · obtain ⟨m', hget', hmeta', hacked'⟩ := h.sentMeta hz₁ hz₂ hz₃
      refine ⟨m', ?_, hmeta', ?_⟩
      · rw [← hget']
        exact get_setEntry_of_ne h.sent hzy hz₂ hy hz₃ (by omega) _
      · rw [hacked']
        simp [hzy]
  · rcases h.newest with ⟨hnone, hnil⟩ | hsome
    · have hn := ht.newest_mem
      rw [hnil] at hn
      simp only [List.not_mem_nil, or_false] at hn
      dsimp only
      rw [hnone, hn, Nat.zero_max]
      rfl
    · dsimp only
      rw [hsome, newerOf_wrap (by omega) (by omega)]
  · rcases h.low with ⟨hnone, hnil⟩ | hsome
    · have hn := ht.newest_mem
      rw [hnil] at hn
      simp only [List.not_mem_nil, or_false] at hn
      dsimp only
      rw [hnone, ht.low, hn, hzero, Nat.zero_max]
      rfl
    · dsimp only
      rw [hsome, newerOf_wrap (by omega) (by omega)]
  · simp [AckState.setsAcked, hget, hunset]

/-- What an ack field may contain so that sixteen bits suffice to process it. -/
structure Acceptable (p : Party) (y : ℕ) : Prop where
  pos : 1 ≤ y
  le_sent : y ≤ p.sent
  age : p.sent < y + 64000
  le_top : p.upTo y ≤ p.top
  recent : p.top < p.upTo y + 32000

/-- **A list of acks**, all of them acceptable. -/
theorem foldl_processAck {ys : List ℕ} (h : Represents a p) (ht : p.Tidy) (hzero : p.upTo 0 = 0)
    (hmono : Monotone fun n => p.upTo (min n p.sent)) (hnewest : p.newest ≤ p.sent)
    (hunacked : p.sent < p.newest + 32000) (hlow : p.low ≤ p.top) (htop : p.top < p.low + 32000)
    (hys : ∀ y ∈ ys, Acceptable p y) :
    Represents ((ys.map fun y : ℕ => (wrap y, true)).foldl AckState.processAck a)
        (ys.foldl (Party.ack 512) p) ∧
      (ys.foldl (Party.ack 512) p).acked
        = p.acked ++ (a.newAcks (ys.map fun y : ℕ => (wrap y, true))).map (latest p.sent) := by
  induction ys generalizing a p with
  | nil => exact ⟨h, by simp [AckState.newAcks]⟩
  | cons y ys ih =>
    have hy := hys y (List.mem_cons_self ..)
    have hypos := hy.pos
    have hysent := hy.le_sent
    have hyage := hy.age
    have hytop := hy.le_top
    have hyrecent := hy.recent
    obtain ⟨hrep, hacked⟩ := processAck h ht hzero hypos hysent hyage hnewest hunacked (by omega)
      (by omega)
    have hsame := Party.sameTraffic_ack 512 p y
    have hnew := Party.newest_ack_le 512 p y
    have hlow' := Party.low_ack_le 512 p y
    have hsent := hsame.sent
    have htop' := hsame.top
    obtain ⟨hrest, hackedRest⟩ := ih hrep (ht.ack hmono hnewest hysent) (by rw [hsame.upTo, hzero])
      (by
        intro m n hmn
        simp only [hsame.upTo, hsame.sent]
        exact hmono hmn)
      (by omega) (by omega) (by omega) (by omega)
      (fun z hz => by
        have hz' := hys z (List.mem_cons_of_mem y hz)
        exact ⟨hz'.pos, hsent ▸ hz'.le_sent, hsent ▸ hz'.age, by
          rw [hsame.upTo, htop']; exact hz'.le_top, by rw [hsame.upTo, htop']; exact hz'.recent⟩)
    refine ⟨hrest, ?_⟩
    rw [List.foldl_cons, hackedRest, hacked, hsent, List.map_cons,
      AckState.newAcks, List.map_append,
      List.append_assoc]
    congr 2
    split
    · simp [latest_wrap hysent (by omega)]
    · rfl

/-- **An ack field** that carries acceptable acks. -/
theorem processAcks {acks : Option (List (UInt16 × Bool))} {ys : List ℕ}
    (hcarries : Carries acks ys)
    (h : Represents a p) (ht : p.Tidy) (hzero : p.upTo 0 = 0)
    (hmono : Monotone fun n => p.upTo (min n p.sent)) (hnewest : p.newest ≤ p.sent)
    (hunacked : p.sent < p.newest + 32000) (hlow : p.low ≤ p.top) (htop : p.top < p.low + 32000)
    (hys : ∀ y ∈ ys, Acceptable p y) :
    Represents (a.processAcks acks) (ys.foldl (Party.ack 512) p) ∧
      (ys.foldl (Party.ack 512) p).acked
        = p.acked ++ (a.newAcks (acks.getD [])).map (latest p.sent) := by
  have hset : (acks.getD []).filter Prod.snd = ys.map fun y : ℕ => (wrap y, true) := by
    have hpair : ∀ ack ∈ (acks.getD []).filter Prod.snd, (ack.1, true) = ack := by
      rintro ⟨id, bit⟩ hack
      have := (List.mem_filter.mp hack).2
      simp_all
    have hpairs := congrArg (List.map fun id => (id, true)) hcarries
    rw [List.map_map, List.map_map] at hpairs
    rw [← List.map_id' ((acks.getD []).filter Prod.snd), ← List.map_congr_left hpair]
    exact hpairs
  obtain ⟨hfold, hnew⟩ := AckState.foldl_processAck_filter (acks.getD []) a
  rw [AckState.processAcks, hfold, hnew, hset]
  exact foldl_processAck h ht hzero hmono hnewest hunacked hlow htop hys

end Represents

/-! ### One packet received -/

/-- A packet is delivered in time: it is among the last 16384 that its sender has sent, and since it
was sent, when the receiver had sent `stamp` packets, the receiver has sent fewer than 16384. -/
structure InTime (p q : Party) (x stamp : ℕ) : Prop where
  pos : 1 ≤ x
  le_sent : x ≤ q.sent
  source : q.sent < x + 16384
  target : p.sent < stamp + 16384
  stamp_le : stamp ≤ q.upTo x + 350

namespace Represents

variable {a : AckState} {p q : Party} {x stamp : ℕ}

/-- What a packet in time acks can be processed with sixteen bits. -/
theorem acceptable (h : Agree 350 7 p q) (h' : Agree 350 7 q p) (hx : InTime p q x stamp) {y : ℕ}
    (hy : y ∈ (q.report x).acks) (received : Set ℕ) :
    Acceptable { p with received := received, top := max p.top x } y := by
  have hle := hx.le_sent
  have hsource := hx.source
  have htarget := hx.target
  have hstamp := hx.stamp_le
  have hmem := h'.acks_received hle hy
  have hrec := h'.received_le y hmem.1
  have hslack := h'.acks_slack hle hy
  have hflow := h.flow ((h'.upTo_le hle).trans h'.top_le)
  have hnumber := h.number_le h' hle hy
  have hup := h.upTo_le hrec.2
  have htop := h.top_le
  refine ⟨hrec.1, hrec.2, ?_, ?_, ?_⟩
  · show p.sent < y + 64000
    omega
  · show p.upTo y ≤ max p.top x
    omega
  · show max p.top x < p.upTo y + 32000
    omega

/-- The two tests on a packet in time answer for its number. -/
theorem accepted_iff (hrep : Represents a p) (h : Agree 350 7 p q) (h' : Agree 350 7 q p)
    (hx : InTime p q x stamp) :
    (a.receivedBuffer.checkSequence (wrap x) = true ∧
        a.receivedBuffer.existsSequence (wrap x) = false) ↔
      p.top < x + 512 ∧ x ∉ p.received := by
  have hsent := h'.sent_le h
  have htop := h.top_le
  have hle := hx.le_sent
  have hsource := hx.source
  rw [hrep.received.checkSequence_iff (by omega) (by omega), ← Bool.not_eq_true]
  refine and_congr_right fun hwin => not_congr ?_
  rcases Nat.lt_or_ge p.top x with hnew | hold
  · constructor
    · intro hfound
      have := (hrep.received.young_of_exists (by omega) (by omega) hfound).2.1
      omega
    · intro hmem
      have := h.le_top x hmem
      omega
  · exact hrep.received.existsSequence_iff hold hwin

/-- **Receiving a packet** in time: the party receives it too, and the acks that are new are the
same. -/
theorem receive (hrep : Represents a p) (h : Agree 350 7 p q) (h' : Agree 350 7 q p)
    (hx : InTime p q x stamp) {acks : Option (List (UInt16 × Bool))}
    (hcarries : Carries acks (q.report x).acks) (hwin : p.top < x + 512)
    {receivedMeta : ReceivedMeta} {rb : SequenceBuffer ReceivedMeta}
    (hrb : a.receivedBuffer.insert (wrap x) receivedMeta = .ok rb) :
    Represents ({ a with receivedBuffer := rb }.processAcks acks)
        (p.receive 512 x (q.report x).acks) ∧
      (p.receive 512 x (q.report x).acks).acked
        = p.acked ++ ({ a with receivedBuffer := rb }.newAcks (acks.getD [])).map
          (latest p.sent) := by
  have hsent := h'.sent_le h
  have hle := hx.le_sent
  have hbefore : Represents { a with receivedBuffer := rb }
      { p with received := insert x p.received, top := max p.top x } :=
    ⟨hrep.sequenceId, hrep.sent, hrep.sentMeta, hrep.received.insert hwin (by omega) hrb,
      hrep.newest, hrep.low⟩
  have hunacked := h.unacked_le
  have hunreported := h.unreported_le h'
  have hlow : p.low ≤ p.top := by
    rw [h.tidy.low]
    exact h.upTo_le (h.newest_le_sent h')
  refine processAcks hcarries hbefore
    ⟨h.tidy.low, h.tidy.le_newest, h.tidy.newest_mem, h.tidy.nodup⟩ h.upTo_zero h.monotone_upTo
    (h.newest_le_sent h') ?_ ?_ ?_ fun y hy => acceptable h h' hx hy _
  · show p.sent < p.newest + 32000
    omega
  · show p.low ≤ max p.top x
    omega
  · show max p.top x < p.low + 32000
    omega

/-! ### One packet sent -/

/-- The items of an ack field whose bit is set are the received packets in its range. -/
theorem mem_ackIter_iff {b : SequenceBuffer ReceivedMeta} {P : ℕ} {A : Set ℕ} (h : b.Ring P A)
    {n : UInt16} (hn : n.toNat ≤ 350) {id : UInt16} :
    (id, true) ∈ ackIter b n ↔ ∃ y ∈ A, id = wrap y ∧ y ≤ P ∧ P < y + ceilDiv7 n.toNat * 7 := by
  have hceil : ceilDiv7 n.toNat * 7 ≤ 350 := by
    rw [ceilDiv7]
    omega
  have hid : ∀ i : ℕ, b.sequence - UInt16.ofNat i = wrap (P - i) := fun i => by
    rw [h.front.eq_wrap, ← wrap_natCast, wrap_sub]
  simp only [ackIter, List.mem_map, List.mem_range, Prod.mk.injEq, hid]
  constructor
  · rintro ⟨i, hi, rfl, hfound⟩
    rw [SequenceBuffer.existsSequence_iff] at hfound
    obtain ⟨e, he, heq, -, hyoung⟩ := h.young _ _ hfound
    obtain ⟨hle, hage⟩ := hyoung
    have := (wrap_inj (by omega) (by omega)).mp heq
    exact ⟨e, he, heq, hle, by omega⟩
  · rintro ⟨y, hy, rfl, hle, hwin⟩
    refine ⟨P - y, by omega, ?_, ?_⟩
    · congr 1
      omega
    · rw [show (P : ℤ) - ((P - y : ℕ) : ℤ) = y by omega]
      exact (h.existsSequence_iff hle (by omega)).mpr hy

/-- **What a header reports** is what the party may report. -/
theorem canSend {e : Endpoint} (hrep : Represents e.ackState p) (h : Agree 350 7 p q)
    (h' : Agree 350 7 q p) (hroom : ¬ e.sentUnackedPackets ≥ maxUnackedPackets) :
    CanSend 350 7 p (reportedNumbers p.top
        (ProtocolPacketHeader.acksFor e.receivedBuffer e.receivedUnackedPackets)) ∧
      Carries (ProtocolPacketHeader.acksFor e.receivedBuffer e.receivedUnackedPackets)
        (reportedNumbers p.top
          (ProtocolPacketHeader.acksFor e.receivedBuffer e.receivedUnackedPackets)) := by
  have hring : e.receivedBuffer.Ring p.top p.received := hrep.received
  have hunacked := h.unacked_le
  have hnewest := h.newest_le_sent h'
  have hunreported := h.unreported_le h'
  have hlow : p.low ≤ p.top := by
    rw [h.tidy.low]
    exact h.upTo_le hnewest
  have hn : e.receivedUnackedPackets.toNat = p.top - p.low := by
    have := toNat_wrap (p.top - p.low)
    rw [hrep.receivedUnackedPackets h.tidy h.upTo_zero]
    omega
  have hn350 : e.receivedUnackedPackets.toNat ≤ 350 := by omega
  have hmem : ∀ id, (id, true) ∈ (ProtocolPacketHeader.acksFor e.receivedBuffer
      e.receivedUnackedPackets).getD [] ↔ ∃ y ∈ p.received, id = wrap y ∧ y ≤ p.top ∧
        p.top < y + ceilDiv7 (p.top - p.low) * 7 := by
    intro id
    rw [ProtocolPacketHeader.acksFor]
    split
    · next hzero =>
      rw [hzero] at hn
      have : p.top - p.low = 0 := hn.symm
      rw [this]
      simp only [Option.getD_none, List.not_mem_nil, false_iff,
        not_exists, not_and, not_lt, ceilDiv7]
      intro y _ _ hy
      omega
    · rw [Option.getD_some, mem_ackIter_iff hring hn350, hn]
  have hnumbers : ∀ y, y ∈ reportedNumbers p.top (ProtocolPacketHeader.acksFor e.receivedBuffer
      e.receivedUnackedPackets) ↔ y ∈ p.received ∧ y ≤ p.top ∧
        p.top < y + ceilDiv7 (p.top - p.low) * 7 := by
    intro y
    have hceil : ceilDiv7 (p.top - p.low) * 7 ≤ 350 := by
      rw [ceilDiv7]
      omega
    simp only [reportedNumbers, List.mem_map, List.mem_filter]
    constructor
    · rintro ⟨⟨id, bit⟩, ⟨hin, rfl⟩, rfl⟩
      obtain ⟨z, hz, rfl, hle, hwin⟩ := (hmem id).mp hin
      rw [latest_wrap hle (by omega)]
      exact ⟨hz, hle, hwin⟩
    · rintro ⟨hy, hle, hwin⟩
      exact ⟨(wrap y, true), ⟨(hmem _).mpr ⟨y, hy, rfl, hle, hwin⟩, rfl⟩,
        latest_wrap hle (by omega)⟩
  refine ⟨⟨?_, ?_, ?_, ?_⟩, ?_⟩
  · rw [hrep.sentUnackedPackets h.tidy, ge_iff_le, UInt16.le_iff_toNat_le] at hroom
    have := toNat_wrap (p.sent - p.newest)
    simp only [maxUnackedPackets, UInt16.reduceToNat] at hroom
    omega
  · exact fun y hy => ((hnumbers y).mp hy).1
  · intro y hy
    have := (hnumbers y).mp hy
    rw [ceilDiv7] at this
    omega
  · intro y hy hlt
    refine (hnumbers y).mpr ⟨hy, h.le_top y hy, ?_⟩
    rw [ceilDiv7]
    omega
  · rw [Carries, reportedNumbers, List.map_map]
    refine List.map_congr_left ?_
    rintro ⟨id, bit⟩ hin
    obtain ⟨hin, rfl⟩ := List.mem_filter.mp hin
    obtain ⟨y, -, rfl, hle, hwin⟩ := (hmem id).mp hin
    have hceil : ceilDiv7 (p.top - p.low) * 7 ≤ 350 := by
      rw [ceilDiv7]
      omega
    show wrap y = wrap (latest p.top (wrap y))
    rw [latest_wrap hle (by omega)]

/-- **Sending a packet.** The party sends the same packet. -/
theorem send {e e' : Endpoint} {m : Emission} (hrep : Represents e.ackState p) (h : Agree 350 7 p q)
    (h' : Agree 350 7 q p) (hemits : e.Emits m e') (acks : List ℕ) :
    Represents e'.ackState (p.send acks) := by
  have hid : e.sequenceId + 1 = wrap ((p.sent + 1 : ℕ) : ℤ) := by
    have : e.sequenceId = wrap p.sent := hrep.sequenceId
    rw [this]
    push_cast
    rw [← wrap_add]
    rfl
  have hstate : e'.ackState = { e.ackState with
      sequenceId := e.sequenceId + 1
      sentBuffer := e'.sentBuffer } := by
    rw [Endpoint.ackState, hemits.rest]
    rfl
  obtain ⟨size, hsb⟩ := hemits.sent
  have hring : e.sentBuffer.Ring p.sent (Set.Icc 1 p.sent) := hrep.sent
  have hnewest := h.newest_le_sent h'
  rw [hid] at hsb
  rw [hstate]
  refine ⟨hid, ?_, ?_, hrep.received, hrep.newest, hrep.low⟩
  · have hins := hring.insert (by omega) (by omega) hsb
    rw [max_eq_right (by omega)] at hins
    have hset : Insert.insert (p.sent + 1) (Set.Icc 1 p.sent) = Set.Icc 1 (p.sent + 1) := by
      ext y
      simp only [Set.mem_insert_iff, Set.mem_Icc]
      omega
    rw [hset] at hins
    exact hins
  · intro y hy₁ hy₂ hy₃
    rw [Party.sent_send] at hy₂ hy₃
    by_cases hnew : y = p.sent + 1
    · subst hnew
      refine ⟨_, SequenceBuffer.get_insert_self hsb, ?_, ?_⟩
      · rw [Party.upTo_send_self]
        exact hrep.received.front.eq_wrap
      · simp only [SentMeta.new, Bool.false_eq_true, false_iff]
        intro hmem
        have := h.tidy.le_newest _ hmem
        omega
    · have hy₂' : y ≤ p.sent := by omega
      rw [Party.upTo_send_of_le hy₂']
      obtain ⟨sentData, hget, hrest⟩ := hrep.sentMeta hy₁ hy₂' (by omega)
      refine ⟨sentData, ?_, hrest⟩
      rw [← hget]
      exact hring.get_insert_of_ne (by omega) (by omega) hsb hy₂' hnew (by omega)

end Represents

end Pickleback
