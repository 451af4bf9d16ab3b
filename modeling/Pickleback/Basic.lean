import Mathlib.Algebra.Order.Ring.Rat
import Mathlib.Tactic

/-!
# Constants, errors and configuration

The crate-wide vocabulary of `lib.rs`, `error.rs` and `config.rs`.

## Conventions

`f64` and `f32` values (times, rtt, packet loss) are exact rationals. Unbounded counters (`u64`
statistics, `usize` lengths) are naturals; sequence numbers, message ids and salts keep their
widths.

A function that may fail returns `Except PicklebackError`. A call that would panic is a value of
`Panic`, one constructor for each place of the source that can. A method that takes `&mut self` and
returns a `Result` keeps its changes when it returns an error, so it is modelled as
`σ → Except Panic (σ × Except PicklebackError α)`: after a panic there is no state to speak of,
after an error there is.
-/

namespace Pickleback

/-- Points in time and durations, in seconds. -/
abbrev Time := ℚ

/-- `PacketId(u16)`. -/
abbrev PacketId := UInt16

/-- `MessageId(u16)`. -/
abbrev MessageId := UInt16

/-! ### Constants -/

/-- Five bits of the message prefix byte encode the channel id. -/
def maxChannels : ℕ := 32

/-- With fragments of 1 kB this gives messages of 1 MB. -/
def maxFragments : ℕ := 1024

/-- Bytes of the ack bitfield; each carries seven acks. -/
def maxAckBytes : ℕ := 50

/-- `MAX_UNACKED_PACKETS = 7 * MAX_ACK_BYTES`. -/
def maxUnackedPackets : UInt16 := 350

/-- Packet loss is recalculated every so many packets. -/
def packetLossRecalculateInterval : UInt16 := 100

def handshakeResendInterval : Time := 1 / 10

def keepaliveInterval : Time := 16 / 1000

def connectionTimeout : Time := 5

def protocolVersion : UInt64 := 1

/-! ### Errors -/

/-- Reasons for not being able to send. -/
inductive Backpressure where
  | tooManyPending
  deriving DecidableEq, Repr

/-- The `io::ErrorKind`s that reading from a cursor and writing to a limited writer produce. -/
inductive IoError where
  | unexpectedEof
  | writeZero
  deriving DecidableEq, Repr

/-- `PicklebackError`. -/
inductive PicklebackError where
  | io (err : IoError)
  | sequenceTooOld
  | invalidPacket
  | stalePacket
  | duplicatePacket
  | invalidMessage
  | backpressure (reason : Backpressure)
  | payloadTooBig
  | noSuchChannel
  | socketAddrMismatch
  | noSuchClient
  deriving DecidableEq, Repr

/-- The places where the source can panic. -/
inductive Panic where
  /-- `num_fragments - 1` in `Fragment::parse_header`, in a build with overflow checks. -/
  | numFragmentsUnderflow
  /-- `full_payload_size as u16 - (num_fragments - 1) * 1024`, in a build with overflow checks. -/
  | fragmentSizeOverflow
  /-- The slice `payload[start..end]` of `add_large_message_to_channel`. -/
  | fragmentSlice
  /-- The assertions of `Message::new_outbound` and the `unwrap` of its header. -/
  | badOutboundMessage
  /-- `num fragments exceeded`. -/
  | numFragmentsExceeded
  /-- `Fragmented messages must have at least 2 fragments!` -/
  | tooFewFragments
  /-- `assert!(frag_index as usize <= MAX_FRAGMENTS)`. -/
  | fragIndexExceedsMax
  /-- `assert!(frag_index < self.num_fragments)`. -/
  | fragIndexOutOfRange
  /-- `don't pass unfragmented messages to the message reassembler!` -/
  | unfragmentedMessage
  /-- `all fragments must exist before creating ReceivedMessage`. -/
  | missingFragment
  /-- `ReceivedMessage::channel` on an empty fragment list. -/
  | emptyFragments
  /-- `assert!(acked_handle.frag_index.is_none())`. -/
  | dismissedByFragmentAck
  /-- `channel_list.get_mut(msg_handle.channel).unwrap()`. -/
  | handleChannel
  /-- The `unwrap` of the re-insertion in `SentFragMap::ack_fragment_message`. -/
  | fragMapTooOld
  /-- `ack iter must be non-empty`. -/
  | emptyAckIter
  /-- `expected xor_salt when writing packet header for messages`. -/
  | noXorSalt
  /-- `Messages` packets are not written by `write_packet`. -/
  | writtenElsewhere
  /-- `Error writing packtes to send`. -/
  | visitPackets (err : PicklebackError)
  /-- `Vec::remove` past the end, in the server's timeout handling. -/
  | removeOutOfRange
  /-- The `unwrap` and `expect` calls on the client's salts. -/
  | clientSalt
  /-- A loop of the source did not end within the bound given to its model. -/
  | nontermination
  deriving DecidableEq, Repr

/-- The outcome of a function without state of its own that can fail in either way. -/
inductive Fault where
  | error (err : PicklebackError)
  | panic (p : Panic)
  deriving DecidableEq, Repr

/-- What a mapped outcome came from. -/
theorem exists_of_map_eq_ok {ε α β : Type} {x : Except ε α} {f : α → β} {b : β}
    (h : x.map f = .ok b) : ∃ a, x = .ok a ∧ f a = b := by
  cases x with
  | error e => cases h
  | ok a =>
    cases h
    exact ⟨a, rfl, rfl⟩

/-- What is done with a result does not decide whether there is one. -/
theorem exists_map_eq_ok_iff {ε α β : Type} {x : Except ε α} {f : α → β} :
    (∃ b, x.map f = .ok b) ↔ ∃ a, x = .ok a := by
  cases x with
  | error e => exact iff_of_false (fun ⟨_, h⟩ => (by cases h)) fun ⟨_, h⟩ => (by cases h)
  | ok a => exact iff_of_true ⟨_, rfl⟩ ⟨a, rfl⟩

theorem eq_error_of_map_eq_error {ε α β : Type} {x : Except ε α} {f : α → β} {e : ε}
    (h : x.map f = .error e) : x = .error e := by
  cases x with
  | error e' =>
    cases h
    rfl
  | ok a => cases h

/-- A series of fallible steps, by its first step. -/
theorem exists_of_foldlM_cons {ε α β : Type} {f : β → α → Except ε β} {a : α} {l : List α} {b r : β}
    (h : (a :: l).foldlM f b = .ok r) : ∃ b', f b a = .ok b' ∧ l.foldlM f b' = .ok r := by
  rw [List.foldlM_cons] at h
  cases hstep : f b a with
  | error e =>
    rw [hstep] at h
    cases h
  | ok b' =>
    rw [hstep] at h
    exact ⟨b', rfl, h⟩

/-- A series of fallible steps, by its last step. -/
theorem exists_of_foldlM_concat {ε α β : Type} {f : β → α → Except ε β}
    {a : α} {l : List α} {b r : β}
    (h : (l ++ [a]).foldlM f b = .ok r) : ∃ b', l.foldlM f b = .ok b' ∧ f b' a = .ok r := by
  rw [List.foldlM_append] at h
  cases hinit : l.foldlM f b with
  | error e =>
    rw [hinit] at h
    cases h
  | ok b' =>
    rw [hinit] at h
    obtain ⟨b'', hlast, hnil⟩ := exists_of_foldlM_cons h
    cases hnil
    exact ⟨b', rfl, hlast⟩

/-- What each step keeps, a series of steps keeps. -/
theorem of_foldlM_eq_ok {ε α β : Type} {f : β → α → Except ε β} {I : β → Prop}
    (hstep : ∀ {b a b'}, I b → f b a = .ok b' → I b') {l : List α} {b r : β} (h : I b)
    (hrun : l.foldlM f b = .ok r) : I r := by
  induction l generalizing b with
  | nil =>
    cases hrun
    exact h
  | cons a l ih =>
    obtain ⟨b', hfirst, hrest⟩ := exists_of_foldlM_cons hrun
    exact ih (hstep h hfirst) hrest

/-- Where a step has a property exactly under a condition, and the condition keeps what that rests
on, a run has the property throughout exactly if every step meets the condition. -/
theorem forall_prefix_iff {α β : Type} {f : β → α → β} {b : β} {I J : β → Prop} {C : β → α → Prop}
    (hI : I b) (hJ : J b) (hstep : ∀ b' a, J b' → (I (f b' a) ↔ C b' a))
    (hkeep : ∀ b' a, J b' → C b' a → J (f b' a)) (l : List α) :
    (∀ l', l' <+: l → I (l'.foldl f b)) ↔ ∀ l' a, l' ++ [a] <+: l → C (l'.foldl f b) a := by
  have hinit : (∀ l', l' <+: l → I (l'.foldl f b)) → ∀ l', l' <+: l → J (l'.foldl f b) := by
    intro hall l' hl
    induction l' using List.reverseRecOn with
    | nil => exact hJ
    | append_singleton l' a ih =>
      have hJ' := ih ((List.prefix_append l' [a]).trans hl)
      have hlast := hall _ hl
      rw [List.foldl_append] at hlast ⊢
      exact hkeep _ a hJ' ((hstep _ a hJ').mp hlast)
  constructor
  · intro hall l' a hl
    have hlast := hall _ hl
    rw [List.foldl_append] at hlast
    exact (hstep _ a (hinit hall l' ((List.prefix_append l' [a]).trans hl))).mp hlast
  · intro hC l' hl
    suffices h : I (l'.foldl f b) ∧ J (l'.foldl f b) from h.1
    induction l' using List.reverseRecOn with
    | nil => exact ⟨hI, hJ⟩
    | append_singleton l' a ih =>
      obtain ⟨-, hJ'⟩ := ih ((List.prefix_append l' [a]).trans hl)
      rw [List.foldl_append]
      exact ⟨(hstep _ a hJ').mpr (hC l' a hl), hkeep _ a hJ' (hC l' a hl)⟩

/-- What holds of the steps of a run holds of the first one and of the others. -/
theorem forall_prefix_cons {α : Type} {P : List α → α → Prop} {a : α} {l : List α} (ha : P [] a)
    (hl : ∀ l' b, l' ++ [b] <+: l → P (a :: l') b) (l' : List α)
    (b : α) (h : l' ++ [b] <+: a :: l) :
    P l' b := by
  cases l' with
  | nil =>
    obtain rfl : b = a := (List.cons_prefix_cons.mp h).1
    exact ha
  | cons c l' =>
    obtain ⟨rfl, hrest⟩ := List.cons_prefix_cons.mp h
    exact hl l' b hrest

/-- Nothing is a step of the empty run. -/
theorem forall_prefix_nil {α : Type} {P : List α → α → Prop} (l' : List α) (b : α)
    (h : l' ++ [b] <+: []) : P l' b := by
  simp at h

/-- Every entry on the right is related to one on the left. -/
theorem exists_of_forall₂_mem {α β : Type} {R : α → β → Prop} {as : List α} {bs : List β}
    (h : List.Forall₂ R as bs) {b : β} (hb : b ∈ bs) : ∃ a ∈ as, R a b := by
  induction h with
  | nil => cases hb
  | cons hR _ ih =>
    rcases List.mem_cons.mp hb with rfl | hb
    · exact ⟨_, List.mem_cons_self .., hR⟩
    · obtain ⟨a, ha, hR'⟩ := ih hb
      exact ⟨a, List.mem_cons_of_mem _ ha, hR'⟩

theorem forall₂_trans {α : Type} {R : α → α → Prop} (htrans : ∀ {a b c}, R a b → R b c → R a c)
    {as bs cs : List α}
    (h : List.Forall₂ R as bs) (h' : List.Forall₂ R bs cs) : List.Forall₂ R as cs := by
  induction h generalizing cs with
  | nil => exact h'
  | cons hR _ ih =>
    cases h' with
    | cons hR' hrest => exact .cons (htrans hR hR') (ih hrest)

/-- A computation whose outcome passes a test has an outcome. -/
theorem exists_of_any_toOption {ε α : Type} {x : Except ε α} {test : α → Bool}
    (h : x.toOption.any test = true) : ∃ a, x = .ok a ∧ test a = true := by
  cases x with
  | error e => cases h
  | ok a => exact ⟨a, rfl, h⟩

theorem all_toOption_iff {ε α : Type} {x : Except ε α} {test : α → Bool} :
    x.toOption.all test = true ↔ ∀ a, x = .ok a → test a = true := by
  cases x with
  | error e => exact ⟨fun _ a h => (by cases h), fun _ => rfl⟩
  | ok a => exact ⟨fun h b hb => (by cases hb; exact h), fun h => h a rfl⟩

/-! ### Configuration -/

/-- `PoolConfig`. -/
structure PoolConfig where
  /-- How many buffers to preallocate. -/
  startingSize : ℕ
  /-- Maximum size of the pool before returned buffers are dropped. -/
  maxSize : ℕ
  /-- Capacity of the buffers this pool allocates. -/
  bufferCapacity : ℕ
  deriving DecidableEq, Repr

/-- `PicklebackConfig`. A pool configuration, when given, lists at least one pool: it is a first
pool and the others. The source also takes an empty list, and panics at the first `get_buffer`. -/
structure PicklebackConfig where
  bufferPoolsConfig : Option (PoolConfig × List PoolConfig)
  maxMessageSize : ℕ
  maxPacketSize : ℕ
  sentPacketsBufferSize : ℕ
  receivedPacketsBufferSize : ℕ
  rttSmoothingFactor : ℚ
  packetLossSmoothingFactor : ℚ
  packetHeaderSize : ℕ
  sentFragMapSize : ℕ
  deriving DecidableEq

/-- `PicklebackConfig::default()`. -/
def PicklebackConfig.default : PicklebackConfig where
  bufferPoolsConfig := none
  maxMessageSize := 1024 * maxFragments
  maxPacketSize := 1150
  sentPacketsBufferSize := 512
  receivedPacketsBufferSize := 512
  rttSmoothingFactor := 25 / 10000
  packetLossSmoothingFactor := 1 / 2
  packetHeaderSize := 28
  sentFragMapSize := 25000

/-- Each packet window has a slot, and its number of entries survives `as u16`: the source takes the
remainder by it, which panics at 0. -/
structure PicklebackConfig.Sized (config : PicklebackConfig) : Prop where
  sent_pos : 0 < config.sentPacketsBufferSize
  sent_lt : config.sentPacketsBufferSize < 65536
  received_pos : 0 < config.receivedPacketsBufferSize
  received_lt : config.receivedPacketsBufferSize < 65536

theorem PicklebackConfig.default_sized : PicklebackConfig.default.Sized :=
  ⟨by decide, by decide, by decide, by decide⟩

/-- `PicklebackStats`. -/
structure PicklebackStats where
  packetsSent : ℕ := 0
  packetsReceived : ℕ := 0
  packetsAcked : ℕ := 0
  packetsStale : ℕ := 0
  packetsDuplicate : ℕ := 0
  messageSends : ℕ := 0
  messagesSent : ℕ := 0
  messagesReceived : ℕ := 0
  deriving DecidableEq, Repr

/-- `SentMeta`: what is remembered of an outbound packet. -/
structure SentMeta where
  time : Time
  acked : Bool
  size : ℕ
  /-- The newest packet of the peer that had been received when this packet was sent. -/
  ackedUpTo : PacketId
  deriving DecidableEq

instance : Inhabited SentMeta := ⟨⟨0, false, 0, 0⟩⟩

/-- `SentMeta::new`. -/
def SentMeta.new (time : Time) (size : ℕ) (ackedUpTo : PacketId) : SentMeta :=
  ⟨time, false, size, ackedUpTo⟩

/-- `ReceivedMeta`: what is remembered of an inbound packet. -/
structure ReceivedMeta where
  time : Time
  size : ℕ
  deriving DecidableEq

instance : Inhabited ReceivedMeta := ⟨⟨0, 0⟩⟩

end Pickleback
