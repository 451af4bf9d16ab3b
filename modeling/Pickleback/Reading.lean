import Pickleback.Lib.Reader
import Pickleback.Session

/-!
# Reading what was received

The rest of `received_message.rs`. The payload of a message is read piece by piece: that of a single
message from a cursor, that of a fragmented message from cursors over its fragments, chained
together. The container that `drain_received_messages` gives to the application lends it the
messages one after the other, and returns the buffers to the pool when it is dropped.

## Main definitions

* `ReceivedMessage.reader`, `ReceivedMessage.payloadToOwned`
* `ReceivedMessagesContainer`

## Main results

* `Endpoint.drainReceivedMessages_eq` — the container that is dropped after any number of messages
* `Session.read_received` — what the application reads is what was sent
-/

namespace Pickleback

namespace ReceivedMessage

/-- `ReceivedMessage::payload`. -/
def reader : ReceivedMessage → Reader UInt8
  | .single message => .cursor message.buffer.data 0
  | .fragmented fragments => .cursors (fragments.map fun m => m.buffer.data)

/-- `ReceivedMessage::payload_to_owned`. -/
def payloadToOwned (msg : ReceivedMessage) : List UInt8 := msg.reader.readToEnd.1

@[simp] theorem rest_reader (msg : ReceivedMessage) : msg.reader.rest = msg.payload := by
  cases msg with
  | single message => rfl
  | fragmented fragments => exact Reader.rest_cursors _

theorem payloadToOwned_eq (msg : ReceivedMessage) : msg.payloadToOwned = msg.payload := by
  rw [payloadToOwned, (Reader.rest_readToEnd _).1, rest_reader]

/-- The buffers of a message, in the order in which they are returned. -/
def buffers : ReceivedMessage → List PooledBuffer
  | .single m => [m.buffer]
  | .fragmented ms => ms.map Message.buffer

end ReceivedMessage

/-- `ReceivedMessagesContainer`. -/
structure ReceivedMessagesContainer where
  nextIndex : ℕ
  messages : List ReceivedMessage
  pool : BufPool
  nextIndex_le : nextIndex ≤ messages.length

namespace ReceivedMessagesContainer

/-- `ReceivedMessagesContainer::new`. -/
def new (messages : List ReceivedMessage) (pool : BufPool) : ReceivedMessagesContainer :=
  ⟨0, messages, pool, Nat.zero_le _⟩

/-- `ReceivedMessagesContainer::len`. -/
def len (c : ReceivedMessagesContainer) : ℕ := c.messages.length

/-- `ReceivedMessagesContainer::next`. -/
def next (c : ReceivedMessagesContainer) : Option ReceivedMessage × ReceivedMessagesContainer :=
  if h : c.nextIndex = c.messages.length then (none, c)
  else
    have hlt : c.nextIndex < c.messages.length := lt_of_le_of_ne c.nextIndex_le h
    (some c.messages[c.nextIndex], { c with nextIndex := c.nextIndex + 1, nextIndex_le := hlt })

/-- `ReceivedMessagesContainer::drop`: the pool with the buffers of all messages. -/
def drop (c : ReceivedMessagesContainer) : BufPool :=
  c.messages.foldl (fun pool msg =>
    match msg with
    | .single m => pool.returnBuffer m.buffer
    | .fragmented ms => ms.foldl (fun pool m => pool.returnBuffer m.buffer) pool) c.pool

/-- Several calls of `next`. -/
def nexts (c : ReceivedMessagesContainer) : ℕ → List (Option ReceivedMessage) ×
    ReceivedMessagesContainer
  | 0 => ([], c)
  | k + 1 =>
    let r := c.next.2.nexts k
    (c.next.1 :: r.1, r.2)

/-- The messages that `next` has not given yet. -/
def pending (c : ReceivedMessagesContainer) : List ReceivedMessage := c.messages.drop c.nextIndex

theorem next_eq (c : ReceivedMessagesContainer) :
    c.next.1 = c.pending.head? ∧ c.next.2.pending = c.pending.tail ∧ c.next.2.drop = c.drop := by
  rw [next]
  split
  · next hend =>
    have hnil : c.pending = [] := List.drop_eq_nil_of_le hend.ge
    rw [hnil]
    exact ⟨rfl, rfl, rfl⟩
  · next hend =>
    have hlt : c.nextIndex < c.messages.length := lt_of_le_of_ne c.nextIndex_le hend
    refine ⟨?_, ?_, rfl⟩
    · rw [pending, List.head?_drop, List.getElem?_eq_getElem hlt]
    · rw [pending, pending, List.tail_drop]

/-- **The container gives every message once, in order, and then nothing.** Its drop returns all
buffers, whether or not all messages were taken. -/
theorem nexts_eq (c : ReceivedMessagesContainer) (k : ℕ) :
    (c.nexts k).1 = (c.pending.take k).map some ++ List.replicate (k - c.pending.length) none ∧
      (c.nexts k).2.drop = c.drop := by
  induction k generalizing c with
  | zero => exact ⟨by simp [nexts], rfl⟩
  | succ k ih =>
    obtain ⟨hhead, htail, hdrop⟩ := c.next_eq
    obtain ⟨hrest, hdrop'⟩ := ih c.next.2
    refine ⟨?_, hdrop'.trans hdrop⟩
    rw [nexts, hrest, hhead, htail]
    cases c.pending with
    | nil => simp [List.replicate_succ]
    | cons msg rest => simp

theorem drop_eq (c : ReceivedMessagesContainer) :
    c.drop = c.pool.returnBuffers (c.messages.flatMap ReceivedMessage.buffers) := by
  rw [drop, BufPool.returnBuffers, List.foldl_flatMap]
  congr 1
  funext pool msg
  cases msg with
  | single m => rfl
  | fragmented ms => exact (List.foldl_map).symm

end ReceivedMessagesContainer

namespace Endpoint

/-- `Pickleback::drain_received_messages`: the container, and the endpoint it has borrowed the pool
from. -/
def takeReceivedMessages (p : Endpoint) (channel : UInt8) : ReceivedMessagesContainer × Endpoint :=
  (.new (p.dispatcher.messageInbox channel) p.pool,
    { p with dispatcher := { p.dispatcher with
      messageInbox := Function.update p.dispatcher.messageInbox channel [] } })

/-- Whatever the application takes from the container, it leaves the endpoint that
`drainReceivedMessages` gives. -/
theorem drainReceivedMessages_eq (p : Endpoint) (channel : UInt8) (k : ℕ) :
    p.drainReceivedMessages channel =
      ({ (p.takeReceivedMessages channel).2 with pool :=
        ((p.takeReceivedMessages channel).1.nexts k).2.drop },
        (p.takeReceivedMessages channel).1.messages) := by
  rw [((p.takeReceivedMessages channel).1.nexts_eq k).2, ReceivedMessagesContainer.drop_eq]
  rfl

end Endpoint

namespace Session

open AckProtocol

variable {s : Session} {e : Side}

/-- **What the application reads is what was sent**, in every short session, however it reads: what
it gets from a received message, read by read, are the first bytes of the payload of a call of
`send_message` of the peer. A read into a buffer that has a place gets nothing at the end of the
payload only, so enough reads get all of it, and so does reading to the end. -/
theorem read_received (h : Reachable s) {channel : UInt8} {msg : ReceivedMessage}
    (hmsg : msg ∈ s.received e.other channel) (sizes : List ℕ) :
    List.Forall₂ (fun piece n => piece.length ≤ n) (msg.reader.reads sizes).1 sizes ∧
    ∃ c ∈ s.link.queuedBy e, c.channel = channel ∧ msg.payloadToOwned = c.payload ∧
      (msg.reader.reads sizes).1.flatten ++ (msg.reader.reads sizes).2.readToEnd.1 = c.payload ∧
      (∀ n ≠ 0, ((msg.reader.reads sizes).2.read n).1 = [] ↔
        (msg.reader.reads sizes).1.flatten = c.payload) ∧
      ((∀ n ∈ sizes, n ≠ 0) → c.payload.length ≤ sizes.length →
        (msg.reader.reads sizes).1.flatten = c.payload) := by
  obtain ⟨c, hc, hchannel, his⟩ := exists_call_of_received h hmsg
  have hrest : msg.reader.rest = c.payload := by rw [ReceivedMessage.rest_reader, his.payload]
  have hflatten := msg.reader.flatten_reads sizes
  rw [hrest] at hflatten
  refine ⟨msg.reader.forall₂_reads sizes, c, hc, hchannel, ?_,
    ?_, fun n hn => ?_, fun hsizes hle => ?_⟩
  · rw [ReceivedMessage.payloadToOwned_eq, his.payload]
  · rw [(Reader.rest_readToEnd _).1, hflatten]
  · rw [Reader.read_eq_nil_iff _ hn, ← hflatten]
    exact List.self_eq_append_right.symm
  · rw [← hrest]
    exact Reader.flatten_reads_of_length_le _ hsizes (hrest ▸ hle)

/-- A message of two fragments, read into a buffer of three places and one of none. -/
theorem read_received_drained : ∃ s, Reachable s ∧ ∃ msg ∈ s.messages .right 0,
    (msg.reader.reads [3, 0]).1 = [[1, 1, 1], []] ∧
    List.Forall₂ (fun piece n => piece.length ≤ n) (msg.reader.reads [3, 0]).1 [3, 0] ∧
      ∃ c ∈ s.link.queuedBy .left, c.channel = 0 ∧
      msg.payloadToOwned = c.payload ∧
      (msg.reader.reads [3, 0]).1.flatten ++ (msg.reader.reads [3, 0]).2.readToEnd.1 = c.payload ∧
      (∀ n ≠ 0, ((msg.reader.reads [3, 0]).2.read n).1 = [] ↔
        (msg.reader.reads [3, 0]).1.flatten = c.payload) ∧
      ((∀ n ∈ [3, 0], n ≠ 0) → c.payload.length ≤ [3, 0].length →
        (msg.reader.reads [3, 0]).1.flatten = c.payload) := by
  have hrun : ((start (fun _ => true) (fun _ => 1) (fun _ => 7) fun _ => none).run [
      fun _ => .call (.sendMessage .left 0 (List.replicate 2048 1)),
        fun _ => .call (.visitPacketsToSend .left),
      deliverAt 1, deliverAt 0, fun _ => .drainReceivedMessages .right 0]).any (fun s =>
        (s.messages .right 0).any fun msg =>
          decide ((msg.reader.reads [3, 0]).1 = [[1, 1, 1], []])) = true := by
    decide +kernel
  obtain ⟨s, hs, htest⟩ := (Option.any_eq_true _ _).mp hrun
  obtain ⟨msg, hmsg, hreads⟩ := List.any_eq_true.mp htest
  have hreach : Reachable s := reachable_of_run (.start _ _ _ _) hs
  refine ⟨s, hreach, msg, hmsg, of_decide_eq_true hreads, ?_⟩
  exact read_received (e := .left) hreach (List.mem_append_left _ hmsg) [3, 0]

end Session

end Pickleback
