import Pickleback.BufferCapacity
import Pickleback.History
import Pickleback.Reassembly
import Mathlib.Data.FinEnum

/-!
# The number of pooled buffers

A buffer is in a pool, or it was handed out and is in a queue, in the outbox, in an inbox or in a
partial message. Counting both, no call of an endpoint makes buffers: what it returns to the pools
it has taken out of one of those places. The exception is a reliable message that is written to a
packet. Its queue keeps it, and the buffer that is returned is that of a clone.

## Main definitions

* `BufPool.held`, `BufPool.allowance` — buffers in the pools, and those that were ever allocated by
  them
* `Endpoint.outside` — buffers that an endpoint has taken from the pools
* `Endpoint.WritesReliable` — a visit writes a reliable message
* `Endpoint.Call.Spares` — no reliable message is due at a visit, or it may not begin a packet

## Main results

* `Endpoint.surplus_visitPacketsToSend_le` — a visit that writes no reliable message makes no
  buffers
* `Endpoint.Sparing.held_le_allowance` — in runs of such calls the pools never hold more than they
  allocated
* `Endpoint.not_held_le_allowance` — a reliable message that is sent twice makes them hold one more
-/

namespace Pickleback

/-! ### Pools -/

/-- The free buffers of a pool, less those that it has allocated. -/
def Pool.net (p : Pool) (config : PoolConfig) : ℤ :=
  p.buffers.length - (config.startingSize + p.overflowAllocations)

theorem Pool.net_checkout (p : Pool) (config : PoolConfig) :
    p.checkout.2.net config = p.net config - 1 := by
  rw [net, net, checkout]
  split
  · next existing rest hbuffers =>
    simp only [hbuffers, List.length_cons]
    omega
  · dsimp only
    omega

theorem Pool.net_checkin_le (p : Pool) (config : PoolConfig) (buffer : PooledBuffer) :
    (p.checkin buffer).net config ≤ p.net config + 1 := by
  rw [net, net, checkin]
  split
  · dsimp only
    omega
  · simp only [List.length_cons]
    omega

namespace BufPool

/-- How many buffers the pools hold. -/
def held (b : BufPool) : ℕ := (b.all.map fun p => p.2.buffers.length).sum

/-- How many buffers the pools have allocated, at the start and since. -/
def allowance (b : BufPool) : ℕ :=
  (b.all.map fun p => p.1.startingSize + p.2.overflowAllocations).sum

/-- The free buffers, less those that were allocated. -/
def net (b : BufPool) : ℤ := (b.all.map fun p => p.2.net p.1).sum

theorem net_eq (b : BufPool) : b.net = b.held - b.allowance := by
  rw [net, held, allowance]
  induction b.all with
  | nil => rfl
  | cons p ps ih =>
    simp only [List.map_cons, List.sum_cons, ih]
    rw [Pool.net]
    omega

/-- A change to one pool changes the sum by as much. -/
theorem net_modify (b : BufPool) (minSize : ℕ) (f : Pool → Pool) :
    (b.modify minSize f).net + (b.poolFor minSize).2.net (b.poolFor minSize).1
      = b.net + (f (b.poolFor minSize).2).net (b.poolFor minSize).1 := by
  suffices key : ∀ ps last,
    (((modifyFrom minSize f ps last).1 ++ [(modifyFrom minSize f ps last).2]).map
      fun p => p.2.net p.1).sum + ((ps.find? fun p => serves p.1 minSize).getD last).2.net
        ((ps.find? fun p => serves p.1 minSize).getD last).1
      = ((ps ++ [last]).map fun p => p.2.net p.1).sum +
        (f ((ps.find? fun p => serves p.1 minSize).getD last).2).net
        ((ps.find? fun p => serves p.1 minSize).getD last).1 from key b.pools b.last
  intro ps last
  induction ps with
  | nil => simp [modifyFrom, Int.add_comm]
  | cons p ps ih =>
    rw [modifyFrom, List.find?_cons]
    cases hp : serves p.1 minSize with
    | true =>
      simp only [if_true, List.cons_append, List.map_cons, List.sum_cons, Option.getD_some]
      omega
    | false =>
      simp only [Bool.false_eq_true, if_false, List.cons_append, List.map_cons, List.sum_cons]
      omega

@[simp] theorem net_getBuffer (b : BufPool) (minSize : ℕ) :
    (b.getBuffer minSize).2.net = b.net - 1 := by
  have := b.net_modify minSize fun p => p.checkout.2
  rw [Pool.net_checkout] at this
  rw [getBuffer_snd]
  omega

theorem net_returnBuffer_le (b : BufPool) (buffer : PooledBuffer) :
    (b.returnBuffer buffer).net ≤ b.net + 1 := by
  have := b.net_modify buffer.capacity fun p => p.checkin buffer
  have := (b.poolFor buffer.capacity).2.net_checkin_le (b.poolFor buffer.capacity).1 buffer
  rw [returnBuffer_eq]
  omega

theorem net_returnBuffers_le (b : BufPool) (buffers : List PooledBuffer) :
    (b.returnBuffers buffers).net ≤ b.net + buffers.length := by
  induction buffers generalizing b with
  | nil => simp [returnBuffers]
  | cons buffer buffers ih =>
    have := ih (b.returnBuffer buffer)
    have := b.net_returnBuffer_le buffer
    rw [returnBuffers, List.foldl_cons, ← returnBuffers, List.length_cons]
    omega

theorem net_new (config : PoolConfig) (configs : List PoolConfig) :
    (new config configs).net = 0 := by
  have hall : ∀ p ∈ (new config configs).all, p.2.net p.1 = 0 := by
    intro p hp
    obtain ⟨c, -, rfl⟩ := eq_new_of_mem_all hp
    simp [Pool.net, Pool.new]
  rw [net, List.map_congr_left hall]
  simp

end BufPool

/-! ### Queues -/

namespace Message

theorem net_newOutbound {pool pool' : BufPool} {id : MessageId}
    {channel : UInt8} {payload : List UInt8}
    {fragmented : Option Fragment} {m : Message}
    (h : newOutbound pool id channel payload fragmented = .ok (m, pool')) :
    pool'.net = pool.net - 1 := by
  unfold newOutbound at h
  split at h
  · dsimp only at h
    split at h
    · cases h
    · cases h
      exact BufPool.net_getBuffer _ _
  · cases h

/-- Parsing takes one buffer, or none. -/
theorem net_parse_le {overflowChecks : Bool} {pool pool' : BufPool} {bs : List UInt8}
    {r : Except Fault (Message × List UInt8)} (h : parse overflowChecks pool bs = (pool', r)) :
    pool'.net ≤ pool.net ∧ (∀ x, r = .ok x → pool'.net = pool.net - 1) := by
  unfold parse at h
  split at h
  · cases h
    exact ⟨le_rfl, fun x hx => by cases hx⟩
  · dsimp only at h
    split at h <;> cases h
    · exact ⟨by rw [BufPool.net_getBuffer]; omega, fun x hx => by cases hx⟩
    · exact ⟨by rw [BufPool.net_getBuffer]; omega, fun x _ => BufPool.net_getBuffer _ _⟩

end Message

/-- Every queued message has its buffer. -/
theorem Channel.net_enqueueMessage {ch ch' : Channel} {pool pool' : BufPool} {id : MessageId}
    {payload : List UInt8} {fragmented : Option Fragment}
    (h : ch.enqueueMessage pool id payload fragmented = .ok (ch', pool')) :
    pool'.net + ch'.queued.length = pool.net + ch.queued.length := by
  cases ch with
  | unreliable c =>
    obtain ⟨r, hr, heq⟩ := exists_of_map_eq_ok h
    obtain ⟨⟨m, pool₁⟩, hm, rfl⟩ := exists_of_map_eq_ok hr
    cases heq
    have := Message.net_newOutbound hm
    simp only [queued, List.length_append, List.length_singleton]
    omega
  | reliable c =>
    obtain ⟨r, hr, heq⟩ := exists_of_map_eq_ok h
    obtain ⟨⟨m, pool₁⟩, hm, rfl⟩ := exists_of_map_eq_ok hr
    cases heq
    have := Message.net_newOutbound hm
    simp only [queued, List.length_map, List.length_append, List.length_singleton]
    omega

namespace MessageDispatcher

theorem net_enqueueFragments {overflowChecks : Bool} {payload : List UInt8} {numFragments : UInt16}
    {parentId nextId' : MessageId} {is : List ℕ} {nextId : MessageId}
    {ch ch' : Channel} {pool pool' : BufPool}
    {fragIds fragIds' : List MessageId}
    (h : enqueueFragments overflowChecks payload numFragments parentId is nextId ch pool fragIds
      = .ok (fragIds', nextId', ch', pool')) :
    pool'.net + ch'.queued.length = pool.net + ch.queued.length := by
  induction is generalizing nextId ch pool fragIds with
  | nil =>
    cases h
    rfl
  | cons i is ih =>
    simp only [enqueueFragments] at h
    split at h
    · cases h
    · split at h
      · cases h
      · split at h
        · cases h
        · next hqueue => exact (ih h).trans (Channel.net_enqueueMessage hqueue)

theorem net_addMessageToChannel {overflowChecks : Bool} {d d' : MessageDispatcher}
    {pool pool' : BufPool}
    {ch ch' : Channel} {payload : List UInt8} {res : Except PicklebackError MessageId}
    (h : d.addMessageToChannel overflowChecks pool ch payload = .ok (res, d', ch', pool')) :
    pool'.net + ch'.queued.length = pool.net + ch.queued.length := by
  unfold addMessageToChannel at h
  split at h
  · obtain ⟨⟨ch₁, pool₁⟩, hqueue, heq⟩ := exists_of_map_eq_ok h
    cases heq
    exact Channel.net_enqueueMessage hqueue
  · unfold addLargeMessageToChannel at h
    dsimp only at h
    split at h
    · cases h
    · next hqueue =>
      have := net_enqueueFragments hqueue
      split at h <;> cases h <;> exact this

end MessageDispatcher

namespace ChannelList

/-- One channel replaced. -/
theorem numQueued_set {cs : ChannelList} (hids : (cs.map Channel.id).Nodup)
    {ch ch' : Channel} (hmem : ch ∈ cs) :
    (cs.set ch.id ch').numQueued + ch.queued.length = cs.numQueued + ch'.queued.length := by
  induction cs with
  | nil => cases hmem
  | cons c cs ih =>
    rw [List.map_cons, List.nodup_cons] at hids
    rcases List.mem_cons.mp hmem with rfl | hmem
    · have hrest : set cs ch.id ch' = cs := set_of_not_mem hids.1
      have hset : set (ch :: cs) ch.id ch' = ch' :: set cs ch.id ch' := by simp [set]
      rw [hset, hrest]
      simp only [numQueued, List.map_cons, List.sum_cons]
      omega
    · have hne : c.id ≠ ch.id := fun heq => hids.1 (heq ▸ List.mem_map_of_mem hmem)
      have hset : set (c :: cs) ch.id ch' = c :: set cs ch.id ch' := by simp [set, hne]
      have := ih hids.2 hmem
      rw [hset]
      simp only [numQueued, List.map_cons, List.sum_cons] at this ⊢
      omega

/-- Messages that leave the queues when they are written. -/
theorem numQueued_wrote {cs cs' : ChannelList} {ms : List Message} (h : cs.Wrote ms cs')
    (hunreliable : ∀ c, .reliable c ∈ cs → ∀ m ∈ ms, m.channel ≠ c.id) :
    cs'.numQueued + (cs.map fun ch => (ms.filter fun m => m.channel == ch.id).length).sum =
      cs.numQueued := by
  induction h with
  | nil => rfl
  | @cons ch ch' cs cs' hc _ ih =>
    have hrest := ih fun c hmem => hunreliable c (List.mem_cons_of_mem _ hmem)
    have hfirst : ch'.queued.length + (ms.filter fun m => m.channel == ch.id).length =
      ch.queued.length := by
      generalize hfilter : (ms.filter fun m => m.channel == ch.id) = taken at hc
      cases hc with
      | @unreliable c _ q' _ hperm =>
        have := hperm.length_eq
        rw [List.length_append] at this
        simp only [Channel.queued]
        omega
      | @reliable c _ _ q' hmarks hperm =>
        have hnone : taken = [] := by
          rw [← hfilter]
          refine List.filter_eq_nil_iff.mpr fun m hm => ?_
          have := hunreliable c (List.mem_cons_self ..) m hm
          simpa [Channel.id] using this
        have hmap := congrArg List.length hmarks.map_message
        subst hnone
        simpa [Channel.queued] using hmap
    simp only [numQueued, List.map_cons, List.sum_cons] at hrest ⊢
    omega

/-- Nothing is written from a channel on which nothing is due. -/
theorem Wrote.filter_eq_nil {cs cs' : ChannelList} {ms : List Message}
    (hsound : ∀ ch ∈ cs, ch.Sound)
    (h : cs.Wrote ms cs') {ch : Channel} (hmem : ch ∈ cs) (hready : ch.anyReadyToSend = false) :
    ms.filter (fun m => m.channel == ch.id) = [] := by
  induction h with
  | nil => cases hmem
  | @cons c c' cs cs' hc _ ih =>
    rcases List.mem_cons.mp hmem with rfl | hmem
    · have hcount := hc.numReady_add (hsound ch (List.mem_cons_self ..)).resend
      have hzero : ¬ 0 < ch.numReady := by
        rw [← Channel.anyReadyToSend_iff, hready]
        exact Bool.false_ne_true
      exact List.length_eq_zero_iff.mp (by omega)
    · exact ih (fun x hx => hsound x (List.mem_cons_of_mem _ hx)) hmem

theorem sum_ite_channel (cs : ChannelList) (id : UInt8) :
    (cs.map fun ch => if id == ch.id then 1 else 0).sum = (cs.map Channel.id).count id := by
  induction cs with
  | nil => rfl
  | cons c cs ih =>
    have hcomm : (id == c.id) = (c.id == id) := Bool.beq_comm
    rw [List.map_cons, List.sum_cons, ih, List.map_cons, List.count_cons, hcomm, Nat.add_comm]

/-- Each of some messages is on one of the channels. -/
theorem sum_length_filter {cs : ChannelList} (hids : (cs.map Channel.id).Nodup) {ms : List Message}
    (hms : ∀ m ∈ ms, m.channel ∈ cs.map Channel.id) :
    (cs.map fun ch => (ms.filter fun m => m.channel == ch.id).length).sum = ms.length := by
  induction ms with
  | nil => simp
  | cons m ms ih =>
    have hone := (sum_ite_channel cs m.channel).trans
      (List.count_eq_one_of_mem hids (hms m (List.mem_cons_self ..)))
    have hsplit : (fun ch : Channel => ((m :: ms).filter fun x => x.channel == ch.id).length)
        = fun ch => (if m.channel == ch.id then 1 else 0) +
          (ms.filter fun x => x.channel == ch.id).length := by
      funext ch
      rw [List.filter_cons]
      split <;> simp [Nat.add_comm]
    rw [hsplit, List.sum_map_add, hone, ih fun x hx => hms x (List.mem_cons_of_mem _ hx),
      List.length_cons,
      Nat.add_comm]

end ChannelList

/-! ### Acks -/

/-- A dismissed message leaves the queue, and its buffer is handed back. -/
theorem ReliableChannel.length_dismiss {handle : MessageHandle} {q q' : List ResendableMessage}
    {buffers : List PooledBuffer} (h : dismiss handle q = .ok (buffers, q')) :
    buffers.length + q'.length = q.length := by
  induction q generalizing buffers q' with
  | nil =>
    cases h
    rfl
  | cons m q ih =>
    simp only [dismiss] at h
    split at h
    · cases h
    · split at h
      · cases h
      · next hrest =>
        have := ih hrest
        split at h <;> cases h <;> simp only [List.length_cons] <;> omega

theorem Channel.length_messageAckReceived {ch ch' : Channel} {handle : MessageHandle}
    {buffers : List PooledBuffer} (h : ch.messageAckReceived handle = .ok (buffers, ch')) :
    ch'.id = ch.id ∧ buffers.length + ch'.queued.length = ch.queued.length := by
  cases ch with
  | unreliable c =>
    cases h
    simp
  | reliable c =>
    obtain ⟨r, hr, heq⟩ := exists_of_map_eq_ok h
    obtain ⟨⟨buffers₁, q⟩, hq, rfl⟩ := exists_of_map_eq_ok hr
    cases heq
    exact ⟨rfl, by simpa [queued] using ReliableChannel.length_dismiss hq⟩

namespace MessageDispatcher

theorem numQueued_ackHandles {handles : List MessageHandle} {d d' : MessageDispatcher}
    {cs cs' : ChannelList}
    {buffers : List PooledBuffer} (hids : (cs.map Channel.id).Nodup)
    (h : d.ackHandles cs handles = .ok (buffers, d', cs')) :
    buffers.length + cs'.numQueued = cs.numQueued := by
  induction handles generalizing d cs buffers with
  | nil =>
    cases h
    simp
  | cons handle handles ih =>
    simp only [ackHandles] at h
    split at h
    · cases h
    · next ch hch =>
      split at h
      · cases h
      · next buffers₁ ch₁ hack =>
        split at h
        · cases h
        · next d₁ hd₁ =>
          obtain ⟨⟨buffers₂, d₂, cs₂⟩, hrest, heq⟩ := exists_of_map_eq_ok h
          cases heq
          have hid : ch.id = handle.channel := ChannelList.id_of_get? hch
          obtain ⟨hid₁, hlen⟩ := Channel.length_messageAckReceived hack
          have hset : (cs.set handle.channel ch₁).numQueued + ch.queued.length
              = cs.numQueued + ch₁.queued.length :=
            hid ▸ ChannelList.numQueued_set hids (ChannelList.mem_of_get? hch)
          have hrest' := ih (by rw [ChannelList.map_id_set (hid₁.trans hid)]; exact hids) hrest
          dsimp only at hrest' ⊢
          rw [List.length_append]
          omega

theorem numQueued_ackedPacket {d d' : MessageDispatcher} {packet : PacketId} {cs cs' : ChannelList}
    {buffers : List PooledBuffer} (hids : (cs.map Channel.id).Nodup)
    (h : d.ackedPacket packet cs = .ok (buffers, d', cs')) :
    buffers.length + cs'.numQueued = cs.numQueued := by
  simp only [ackedPacket] at h
  split at h
  · exact numQueued_ackHandles hids h
  · cases h
    simp

end MessageDispatcher

/-! ### Received messages -/

/-- A sum over a table, before and after one entry is replaced. -/
theorem sum_update_add {α β : Type} [Fintype α] [DecidableEq α]
    (g : β → ℕ) (f : α → β) (a : α) (b : β) :
    ∑ x, g (Function.update f a b x) + g (f a) = ∑ x, g (f x) + g b := by
  have hupdate : (fun x => g (Function.update f a b x)) =
    Function.update (fun x => g (f x)) a (g b) := by
    funext x
    exact Function.apply_update (fun _ => g) f a b x
  have hold : ∑ x, g (f x) = g (f a) + ∑ x ∈ Finset.univ \ {a}, g (f x) :=
    Finset.sum_eq_add_sum_sdiff_singleton_of_mem (Finset.mem_univ a) _
  rw [hupdate, Finset.sum_update_of_mem (Finset.mem_univ a), hold]
  omega

/-- How many buffers a received message is in. -/
def ReceivedMessage.numBuffers : ReceivedMessage → ℕ
  | .single _ => 1
  | .fragmented fragments => fragments.length

/-- How many buffers a partial message is in. -/
def IncompleteMessage.numBuffers (inc : IncompleteMessage) : ℕ := inc.fragments.countP Option.isSome

namespace MessageDispatcher

/-- The buffers of the inboxes. -/
def inboxBuffers (d : MessageDispatcher) : ℕ :=
  ∑ channel, ((d.messageInbox channel).map ReceivedMessage.numBuffers).sum

/-- The buffers of the partial messages. -/
def partialBuffers (d : MessageDispatcher) : ℕ :=
  ∑ parent, (d.messageReassembler.inProgress parent).elim 0 IncompleteMessage.numBuffers

end MessageDispatcher

/-- A fragment that is stored. -/
theorem IncompleteMessage.numBuffers_addFragment_le {inc inc' : IncompleteMessage}
    {i : UInt16} {m : Message}
    {ready : Bool} (h : inc.addFragment i m = .ok (ready, inc')) :
    inc'.numBuffers ≤ inc.numBuffers + 1 := by
  simp only [addFragment] at h
  split at h
  · cases h
  · split at h
    · cases h
    · split at h
      · cases h
        omega
      · cases h
        simp only [numBuffers]
        rcases Nat.lt_or_ge i.toNat inc.fragments.length with hlt | hge
        · rw [List.countP_set hlt, Option.isSome_some, if_pos rfl]
          omega
        · rw [List.set_eq_of_length_le hge]
          omega

namespace MessageReassembler

/-- The partial messages take in no more than the fragment, and lose what they return. -/
theorem numBuffers_addFragment_le {r r' : MessageReassembler} {m : Message}
    {out : Option ReceivedMessage}
    (h : r.addFragment m = .ok (out, r')) :
    out.elim 0 ReceivedMessage.numBuffers
        + ∑ parent, (r'.inProgress parent).elim 0 IncompleteMessage.numBuffers
      ≤ ∑ parent, (r.inProgress parent).elim 0 IncompleteMessage.numBuffers + 1 := by
  rw [addFragment] at h
  split at h
  · cases h
  · next f hf =>
    split at h
    · cases h
      simp
    · split at h
      · cases h
      · next ready inc hstore =>
        have hle : inc.numBuffers ≤ (r.inProgress f.parentId).elim
          0 IncompleteMessage.numBuffers + 1 := by
          simp only [store] at hstore
          split at hstore
          · next inc₀ hget =>
            rw [hget]
            exact IncompleteMessage.numBuffers_addFragment_le hstore
          · next hget =>
            split at hstore
            · cases hstore
            · next inc₀ hnew =>
              obtain ⟨⟨ready', inc'⟩, hadd, heq⟩ := exists_of_map_eq_ok hstore
              cases heq
              have hempty : inc₀.numBuffers = 0 := by
                simp only [IncompleteMessage.new] at hnew
                split at hnew
                · cases hnew
                · split at hnew
                  · cases hnew
                  · cases hnew
                    simp [IncompleteMessage.numBuffers, List.countP_replicate]
              have := IncompleteMessage.numBuffers_addFragment_le hadd
              rw [hget, Option.elim_none]
              dsimp only
              omega
        have hsum := fun inc' : Option IncompleteMessage => sum_update_add
          (fun inc : Option IncompleteMessage => inc.elim 0 IncompleteMessage.numBuffers)
            r.inProgress
          f.parentId inc'
        split at h
        · obtain ⟨ms, hall, heq⟩ := exists_of_map_eq_ok h
          cases heq
          have hms : inc.numBuffers = ms.length := by
            rw [IncompleteMessage.numBuffers, eq_map_of_expectAll hall, List.countP_map]
            simp [Function.comp_def]
          have := hsum none
          simp only [Option.elim_none, Option.elim_some, ReceivedMessage.numBuffers] at this ⊢
          omega
        · cases h
          have := hsum (some inc)
          simp only [Option.elim_none, Option.elim_some] at this ⊢
          omega

end MessageReassembler

namespace MessageDispatcher

variable {d d' : MessageDispatcher}

theorem inboxBuffers_pushInbox {msg : ReceivedMessage} (h : d.pushInbox msg = .ok d') :
    d'.inboxBuffers = d.inboxBuffers + msg.numBuffers ∧ d'.partialBuffers = d.partialBuffers := by
  rw [pushInbox] at h
  split at h
  · cases h
  · next channel hchannel =>
    cases h
    refine ⟨?_, rfl⟩
    have := sum_update_add (fun msgs : List ReceivedMessage =>
      (msgs.map ReceivedMessage.numBuffers).sum)
      d.messageInbox channel (d.messageInbox channel ++ [msg])
    simp only [List.map_append, List.sum_append, List.map_singleton, List.sum_singleton] at this
    simp only [inboxBuffers]
    omega

/-- A received message brings one buffer. -/
theorem buffers_processReceivedMessage_le {m : Message} (h : d.processReceivedMessage m = .ok d') :
    d'.inboxBuffers + d'.partialBuffers ≤ d.inboxBuffers + d.partialBuffers + 1 := by
  rw [processReceivedMessage] at h
  split at h
  · obtain ⟨hinbox, hincomplete⟩ := inboxBuffers_pushInbox h
    rw [hinbox, hincomplete, ReceivedMessage.numBuffers]
    omega
  · split at h
    · cases h
    · next r hadd =>
      have hle := MessageReassembler.numBuffers_addFragment_le hadd
      cases h
      rw [Option.elim_none] at hle
      simp only [inboxBuffers, partialBuffers]
      omega
    · next received r hadd =>
      have hle := MessageReassembler.numBuffers_addFragment_le hadd
      obtain ⟨hinbox, hincomplete⟩ := inboxBuffers_pushInbox h
      rw [Option.elim_some] at hle
      rw [hinbox, hincomplete]
      simp only [inboxBuffers, partialBuffers]
      omega

end MessageDispatcher

/-! ### Endpoints -/

namespace Endpoint

variable {p p' : Endpoint}

/-- How many buffers are in the queues, the outbox, the inboxes and the partial messages. -/
def outside (p : Endpoint) : ℕ :=
  p.channels.numQueued + p.outbox.length + p.dispatcher.inboxBuffers + p.dispatcher.partialBuffers

/-- The buffers that an endpoint has, in its pools or outside, less those that the pools have
allocated. -/
def surplus (p : Endpoint) : ℤ := p.pool.net + p.outside

theorem surplus_sendMessage (hintact : p.Intact) {channel : UInt8} {payload : List UInt8}
    {res : Except PicklebackError MessageId}
    (hcall : p.sendMessage channel payload = .ok (p', res)) :
    p'.surplus = p.surplus := by
  unfold sendMessage at hcall
  split at hcall
  · cases hcall
    rfl
  · next hlen =>
    split at hcall
    · cases hcall
      rfl
    · dsimp only at hcall
      split at hcall
      · cases hcall
        rfl
      · next ch hch =>
        split at hcall
        · cases hcall
        · next res' d ch' pool' hadd =>
          cases hcall
          have hlen' : payload.length ≤ 1024 * 1024 := by
            rw [hintact.config] at hlen
            exact le_of_not_gt hlen
          obtain ⟨ms, -, rfl, hrec⟩ := MessageDispatcher.addMessageToChannel_eq_ok hlen' hadd
          have hnet := MessageDispatcher.net_addMessageToChannel hadd
          have hid : ch.id = channel := ChannelList.id_of_get? hch
          have hset : (p.channels.set channel (ch.pushAll ms)).numQueued + ch.queued.length
              = p.channels.numQueued + (ch.pushAll ms).queued.length :=
            hid ▸ ChannelList.numQueued_set hintact.channels.ids (ChannelList.mem_of_get? hch)
          have hinbox : d.inboxBuffers = p.dispatcher.inboxBuffers ∧
              d.partialBuffers = p.dispatcher.partialBuffers := by
            cases hrec <;> exact ⟨rfl, rfl⟩
          simp only [surplus, outside]
          omega

theorem numQueued_update (cs : ChannelList) (dt : Time) :
    ChannelList.numQueued (cs.map (Channel.update dt)) = ChannelList.numQueued cs := by
  rw [ChannelList.numQueued, ChannelList.numQueued, List.map_map]
  congr 1
  refine List.map_congr_left fun ch _ => ?_
  cases ch <;> rfl

/-- An ack returns the buffers of the messages it dismisses. -/
theorem surplus_processAck_le (hintact : p.Intact) {packetType : PacketType} {ack : UInt16 × Bool}
    (hcall : p.processAck packetType ack = .ok p') : p'.surplus ≤ p.surplus := by
  rw [processAck] at hcall
  split at hcall
  · cases hcall
    exact le_rfl
  · split at hcall
    · cases hcall
      exact le_rfl
    · split at hcall
      · cases hcall
        exact le_rfl
      · split at hcall
        · cases hcall
        · next buffers d channels hacked =>
          cases hcall
          have hnum := MessageDispatcher.numQueued_ackedPacket hintact.channels.ids hacked
          have hpool := p.pool.net_returnBuffers_le buffers
          have hsame := MessageDispatcher.sameIntake_ackedPacket hacked
          have hinbox : d.inboxBuffers = p.dispatcher.inboxBuffers := by
            rw [MessageDispatcher.inboxBuffers, hsame.messageInbox]
            rfl
          have hincomplete : d.partialBuffers = p.dispatcher.partialBuffers := by
            rw [MessageDispatcher.partialBuffers, hsame.messageReassembler]
            rfl
          simp only [surplus, outside]
          omega

/-- A parsed message is kept, or its buffer is lost. -/
theorem surplus_receiveMessage_le (hintact : p.Intact) {m : Message}
    (hcall : p.receiveMessage m = .ok p') :
    p'.surplus ≤ p.surplus + 1 := by
  simp only [receiveMessage] at hcall
  split at hcall
  · cases hcall
    omega
  · next ch hch =>
    have hid : ch.id = m.channel := ChannelList.id_of_get? hch
    have hset : (p.channels.set m.channel (ch.acceptsMessage m.id).2).numQueued =
      p.channels.numQueued := by
      have hqueued : (ch.acceptsMessage m.id).2.queued = ch.queued := by cases ch <;> rfl
      have : (p.channels.set ch.id (ch.acceptsMessage m.id).2).numQueued + ch.queued.length
          = p.channels.numQueued + (ch.acceptsMessage m.id).2.queued.length :=
        ChannelList.numQueued_set hintact.channels.ids (ChannelList.mem_of_get? hch)
      rw [hqueued, hid] at this
      omega
    split at hcall
    · obtain ⟨d, hd, rfl⟩ := exists_of_map_eq_ok hcall
      have := MessageDispatcher.buffers_processReceivedMessage_le hd
      simp only [surplus, outside, hset]
      omega
    · cases hcall
      simp only [surplus, outside, hset]
      omega

theorem surplus_processMessages_le {fuel : ℕ} {payload : List UInt8}
    {r : Except PicklebackError Unit}
    (hintact : p.Intact) (hcall : processMessages fuel p payload = .ok (p', r)) :
    p'.surplus ≤ p.surplus := by
  induction fuel generalizing p payload with
  | zero => cases hcall
  | succ fuel ih =>
    simp only [processMessages] at hcall
    split at hcall
    · cases hcall
      exact le_rfl
    · split at hcall
      · cases hcall
      · next pool e hparse =>
        cases hcall
        have := (Message.net_parse_le hparse).1
        simp only [surplus, outside]
        omega
      · next pool m rest hparse =>
        split at hcall
        · cases hcall
        · next p₁ hp₁ =>
          have hnet := (Message.net_parse_le hparse).2 _ rfl
          have hcore : Intact { p with
              pool := pool
              stats := { p.stats with messagesReceived := p.stats.messagesReceived + 1 } } :=
                hintact.sameCore rfl
          have hmessage := surplus_receiveMessage_le hcore hp₁
          have hrest := ih (hcore.receiveMessage hp₁) hcall
          simp only [surplus, outside] at hmessage hrest ⊢
          omega

/-- **An incoming packet** makes no buffers. -/
theorem surplus_processIncomingPacket_le (hintact : p.Intact) {header : ProtocolPacketHeader}
    {payload : List UInt8} {r : Except PicklebackError Unit}
    (hcall : p.processIncomingPacket header payload = .ok (p', r)) : p'.surplus ≤ p.surplus := by
  simp only [processIncomingPacket] at hcall
  split at hcall
  · cases hcall
    exact le_rfl
  · split at hcall
    · cases hcall
      exact le_rfl
    · simp only [acceptPacket] at hcall
      split at hcall
      · cases hcall
        exact le_rfl
      · next rb hrb =>
        split at hcall
        · cases hcall
        · next p₁ hp₁ =>
          have h₀ : Intact { p with
              stats := { p.stats with packetsReceived := p.stats.packetsReceived + 1 }
              receivedBuffer := rb } := by
            refine Intact.receivedBuffer (p := { p with
              stats := { p.stats with packetsReceived := p.stats.packetsReceived + 1 } }) ?_ hrb
            exact hintact.sameCore rfl
          have h₁ : p₁.Intact ∧ p₁.surplus ≤ p.surplus := by
            simp only [processPacketAcksAndRtt] at hp₁
            split at hp₁
            · cases hp₁
              exact ⟨h₀, le_rfl⟩
            · split at hp₁
              · cases hp₁
              · next p₂ hp₂ =>
                have h₂ : p₂.Intact ∧ p₂.surplus ≤ p.surplus :=
                  processAcks_induct (I := fun q => q.Intact ∧ q.surplus ≤ p.surplus)
                    (fun hq _ hack =>
                      ⟨hq.1.processAck hack, (surplus_processAck_le hq.1 hack).trans hq.2⟩)
                    ⟨h₀, le_rfl⟩ hp₂
                split at hp₁
                · simp only [updatePacketLossCalculation] at hp₁
                  split at hp₁
                  · cases hp₁
                  · split at hp₁
                    · cases hp₁
                      exact h₂
                    · cases hp₁
                      exact ⟨h₂.1.sameCore rfl, h₂.2⟩
                · cases hp₁
                  exact h₂
          split at hcall
          · exact (surplus_processMessages_le h₁.1 hcall).trans h₁.2
          · cases hcall
            exact h₁.2

theorem net_writePacket {pool pool' : BufPool} {config : PicklebackConfig} {packet : ProtocolPacket}
    {r : Except PicklebackError PooledBuffer}
    (h : writePacket pool config packet = .ok (pool', r)) :
    pool'.net = pool.net - 1 := by
  simp only [writePacket] at h
  split at h
  · cases h
  · cases h
    exact BufPool.net_getBuffer _ _

/-- **A control packet** takes a buffer, and is put into the outbox or lost. -/
theorem surplus_sendControl_le {packetType : PacketType}
    {build : ProtocolPacketHeader → ProtocolPacket}
    {r : Except PicklebackError Unit} (hcall : p.sendControl packetType build = .ok (p', r)) :
    p'.surplus ≤ p.surplus := by
  simp only [sendControl] at hcall
  split at hcall
  · cases hcall
  · next p₁ e hnext =>
    cases hcall
    rw [nextPacketHeader_eq hnext]
    exact le_rfl
  · next p₁ header hnext =>
    obtain rfl := nextPacketHeader_eq hnext
    simp only [sendPacket] at hcall
    split at hcall
    · cases hcall
    · next pool e hwrite =>
      cases hcall
      have hpool := net_writePacket hwrite
      simp only [surplus, outside]
      omega
    · next pool buf hwrite =>
      rw [Except.ok.injEq] at hcall
      have hpool := net_writePacket hwrite
      simp only [sendRawPacket] at hcall
      split at hcall
      · cases hcall
        simp only [surplus, outside]
        omega
      · cases hcall
        simp only [surplus, outside, List.length_append, List.length_singleton]
        omega

/-- What an application drains goes back to the pools. -/
theorem surplus_drainReceivedMessages_le (p : Endpoint) (channel : UInt8) :
    (p.drainReceivedMessages channel).1.surplus ≤ p.surplus := by
  have hsum := sum_update_add (fun msgs : List ReceivedMessage =>
    (msgs.map ReceivedMessage.numBuffers).sum)
    p.dispatcher.messageInbox channel []
  have hlen : ∀ msgs : List ReceivedMessage, (msgs.flatMap fun
      | .single m => [m.buffer]
      | .fragmented ms => ms.map Message.buffer).length =
        (msgs.map ReceivedMessage.numBuffers).sum := by
    intro msgs
    induction msgs with
    | nil => rfl
    | cons msg msgs ih =>
      rw [List.flatMap_cons, List.length_append, ih, List.map_cons, List.sum_cons]
      cases msg <;> simp [ReceivedMessage.numBuffers]
  have hpool : (p.drainReceivedMessages channel).1.pool.net
      ≤ p.pool.net + ((p.dispatcher.messageInbox channel).map ReceivedMessage.numBuffers).sum := by
    rw [← hlen]
    exact p.pool.net_returnBuffers_le _
  have hinbox : (p.drainReceivedMessages channel).1.dispatcher.inboxBuffers
      + ((p.dispatcher.messageInbox channel).map ReceivedMessage.numBuffers).sum
      = p.dispatcher.inboxBuffers := by
    simpa only [MessageDispatcher.inboxBuffers, drainReceivedMessages,
      List.map_nil, List.sum_nil, Nat.add_zero]
      using hsum
  have hrest : (p.drainReceivedMessages channel).1.outside + p.dispatcher.inboxBuffers
      = p.outside + (p.drainReceivedMessages channel).1.dispatcher.inboxBuffers := by
    simp only [outside, drainReceivedMessages, MessageDispatcher.partialBuffers]
    omega
  rw [surplus, surplus]
  omega

/-! ### Visits -/

/-- A visit writes a message of a reliable channel to a packet: what it returns to the pools is a
clone. -/
def WritesReliable (p : Endpoint) : Prop :=
  ∃ es p₁ p₂ r, p.composePackets = .ok (p₂, r) ∧ p.EmitsAll es p₁ ∧ p₁.Stops p₂ r ∧
    ∃ c, .reliable c ∈ p.channels ∧ ∃ m ∈ es.flatMap Emission.messages, m.channel = c.id

/-- Reliable messages are written only when they are due. -/
theorem not_writesReliable_of_not_ready (hintact : p.Intact)
    (hready : ∀ c, .reliable c ∈ p.channels → c.anyReadyToSend = false) : ¬ p.WritesReliable := by
  rintro ⟨es, p₁, p₂, r, -, hall, -, c, hc, m, hm, hchannel⟩
  have hnone := (hall.wrote hintact.channels).filter_eq_nil hintact.channels.sound hc (hready c hc)
  exact List.filter_eq_nil_iff.mp hnone m hm (by simpa [Channel.id] using hchannel)

/-- A packet may be begun: fewer than 350 of those that were sent are not acked, and no more than
350 of those that were received. -/
def MayBegin (p : Endpoint) : Prop :=
  p.sentUnackedPackets < maxUnackedPackets ∧ p.receivedUnackedPackets ≤ maxUnackedPackets

/-- And only if a packet may be begun. -/
theorem not_writesReliable_of_not_mayBegin (hbegin : ¬ p.MayBegin) : ¬ p.WritesReliable := by
  rintro ⟨es, p₁, p₂, r, -, hall, -, c, hc, m, hm, -⟩
  cases hall with
  | nil => cases hm
  | cons hemits _ =>
    refine hbegin ⟨UInt16.not_le.mp hemits.unacked, ?_⟩
    rw [UInt16.le_iff_toNat_le]
    exact hemits.numAcks

/-- The pools after a series of sends. -/
theorem net_foldl_spends_le (es : List Emission) (pool : BufPool) :
    (es.foldl (fun pool e => e.spends pool) pool).net + es.length
      ≤ pool.net + (es.flatMap Emission.messages).length := by
  induction es generalizing pool with
  | nil => simp
  | cons e es ih =>
    have hrest := ih (e.spends pool)
    have hfirst : (e.spends pool).net ≤ pool.net - 1 + e.messages.length := by
      have := (pool.getBuffer 1150).2.net_returnBuffers_le (e.messages.map Message.buffer)
      rw [BufPool.net_getBuffer, List.length_map] at this
      exact this
    rw [List.foldl_cons, List.length_cons, List.flatMap_cons, List.length_append]
    omega

theorem Spends.net_le {es : List Emission} (h : p.Spends es p') :
    p'.pool.net + es.length ≤ p.pool.net + (es.flatMap Emission.messages).length := by
  have hfold := net_foldl_spends_le es p.pool
  rcases h with h | h
  · rw [h]
    exact hfold
  · rw [h, BufPool.net_getBuffer]
    omega

/-- **A visit** that writes no reliable message returns the buffers of what it has written, and of
its packets. -/
theorem surplus_visitPacketsToSend_le (hintact : p.Intact) (hwrites : ¬ p.WritesReliable)
    {packets : List (List UInt8)} (hcall : p.visitPacketsToSend = .ok (p', packets)) :
    p'.surplus ≤ p.surplus := by
  obtain ⟨es, p₁, p₂, r, hcompose, hall, -, hspends, hstop, rfl, -⟩ :=
    visitPacketsToSend_spends hintact hcall
  have hunreliable : ∀ c, .reliable c ∈ p.channels → ∀ m ∈ es.flatMap Emission.messages,
    m.channel ≠ c.id :=
    fun c hc m hm heq => hwrites ⟨es, p₁, p₂, r, hcompose, hall, hstop, c, hc, m, hm, heq⟩
  have hchannel : ∀ m ∈ es.flatMap Emission.messages, m.channel ∈ p.channels.map Channel.id := by
    intro m hm
    obtain ⟨e, he, hme⟩ := List.mem_flatMap.mp hm
    exact (hall.forall_mem hintact.channels he).2.2.2 m hme
  have hqueued := ChannelList.numQueued_wrote (hall.wrote hintact.channels) hunreliable
  rw [ChannelList.sum_length_filter hintact.channels.ids hchannel] at hqueued
  have hnet := hspends.net_le
  have hoverall := p₂.pool.net_returnBuffers_le p₂.outbox
  have houtbox : p₁.outbox.length = p.outbox.length + es.length := by
    have := congrArg List.length hall.outbox
    simpa using this
  have hintake := hall.sameIntake
  simp only [surplus, outside, MessageDispatcher.inboxBuffers,
    MessageDispatcher.partialBuffers, hstop.outbox,
    hstop.channels, hstop.dispatcher, hintake.messageInbox, hintake.messageReassembler,
      List.length_nil] at hoverall ⊢
  omega

/-! ### Runs -/

/-- At a visit no reliable message is due, or no packet may be begun. -/
def Call.Spares (p : Endpoint) : Call → Prop
  | .visitPacketsToSend => p.MayBegin → ∀ c, .reliable c ∈ p.channels → c.anyReadyToSend = false
  | _ => True

theorem Call.Spares.not_writesReliable (hintact : p.Intact)
    (h : Call.visitPacketsToSend.Spares p) : ¬ p.WritesReliable := by
  by_cases hbegin : p.MayBegin
  · exact not_writesReliable_of_not_ready hintact (h hbegin)
  · exact not_writesReliable_of_not_mayBegin hbegin

theorem surplus_step_le (hintact : p.Intact) {c : Call} (hc : c.Spares p)
    (hstep : p.step c = .ok p') : p'.surplus ≤ p.surplus := by
  cases c with
  | setXorSalt salt =>
    cases hstep
    exact le_rfl
  | sendMessage channel payload =>
    obtain ⟨⟨p₁, res⟩, hcall, rfl⟩ := exists_of_map_eq_ok hstep
    exact (surplus_sendMessage hintact hcall).le
  | update dt =>
    cases hstep
    simp only [surplus, outside, update, numQueued_update]
    exact le_rfl
  | visitPacketsToSend =>
    obtain ⟨⟨p₁, packets⟩, hcall, rfl⟩ := exists_of_map_eq_ok hstep
    exact surplus_visitPacketsToSend_le hintact (Call.Spares.not_writesReliable hintact hc) hcall
  | sendControl packetType build =>
    obtain ⟨⟨p₁, r⟩, hcall, rfl⟩ := exists_of_map_eq_ok hstep
    exact surplus_sendControl_le hcall
  | processIncomingPacket header payload =>
    obtain ⟨⟨p₁, r⟩, hcall, rfl⟩ := exists_of_map_eq_ok hstep
    exact surplus_processIncomingPacket_le hintact hcall
  | drainReceivedMessages channel =>
    cases hstep
    exact surplus_drainReceivedMessages_le p channel
  | drainMessageAcks channel =>
    cases hstep
    exact le_rfl

/-- The states of the runs of such calls. -/
inductive Sparing (overflowChecks : Bool) : Endpoint → Prop
  | new (time : Time) : Sparing overflowChecks (Endpoint.new overflowChecks .default time)
  | step {p p' : Endpoint} {c : Call} (h : Sparing overflowChecks p)
    (hc : c.Spares p) (hstep : p.step c = .ok p') :
    Sparing overflowChecks p'

theorem Sparing.intact {overflowChecks : Bool} (h : Sparing overflowChecks p) : p.Intact := by
  induction h with
  | new time => exact intact_new overflowChecks time
  | step _ _ hstep ih => exact ih.step hstep

theorem surplus_new (overflowChecks : Bool) (time : Time) :
    (Endpoint.new overflowChecks .default time).surplus = 0 := by
  have hpool : (Endpoint.new overflowChecks .default time).pool.net = 0 := BufPool.net_new _ _
  have hinbox : (Endpoint.new overflowChecks .default time).dispatcher.inboxBuffers = 0 :=
    Finset.sum_eq_zero fun _ _ => rfl
  have hincomplete : (Endpoint.new overflowChecks .default time).dispatcher.partialBuffers = 0 :=
    Finset.sum_eq_zero fun _ _ => rfl
  have hqueued : (Endpoint.new overflowChecks .default time).channels.numQueued = 0 := rfl
  have houtbox : (Endpoint.new overflowChecks .default time).outbox.length = 0 := rfl
  rw [surplus, outside, hpool, hinbox, hincomplete, hqueued, houtbox]
  rfl

theorem Sparing.surplus_nonpos {overflowChecks : Bool} (h : Sparing overflowChecks p) :
    p.surplus ≤ 0 := by
  induction h with
  | new time => exact (surplus_new overflowChecks time).le
  | step h hc hstep ih => exact (surplus_step_le h.intact hc hstep).trans ih

/-- **The pools hold no more than they have allocated**, in every state of every run in which no
reliable message is due when a visit may begin a packet. -/
theorem Sparing.held_le_allowance {overflowChecks : Bool} (h : Sparing overflowChecks p) :
    p.pool.held ≤ p.pool.allowance := by
  have hsurplus := h.surplus_nonpos
  rw [surplus, BufPool.net_eq] at hsurplus
  omega

/-- An unreliable message that is sent. -/
theorem held_le_allowance_unreliable :
    ∃ p, Sparing true p ∧ p.stats.packetsSent = 1 ∧ p.pool.held ≤ p.pool.allowance := by
  have hnew : Sparing true (Endpoint.new true .default 0) := .new 0
  have hsalted := hnew.step (c := .setXorSalt (some 7)) trivial rfl
  obtain ⟨⟨p, res⟩, hsend, htest⟩ := exists_of_any_toOption (show
    (((Endpoint.new true .default 0).setXorSalt (some 7)).sendMessage 0 [3]).toOption.any (fun r =>
      (r.1.channels.all fun
        | .reliable c => !c.anyReadyToSend
        | .unreliable _ => true) && r.1.visitPacketsToSend.toOption.any fun r =>
          r.1.stats.packetsSent == 1) = true
    by decide +kernel)
  rw [Bool.and_eq_true, List.all_eq_true] at htest
  have hsent : Sparing true p :=
    hsalted.step (c := .sendMessage 0 [3]) trivial (congrArg (Except.map Prod.fst) hsend)
  obtain ⟨⟨p', packets⟩, hvisit, hcount⟩ := exists_of_any_toOption htest.2
  have hspares : Call.visitPacketsToSend.Spares p := by
    intro _ c hc
    simpa using htest.1 _ hc
  have hstep : p.step .visitPacketsToSend = .ok p' := congrArg (Except.map Prod.fst) hvisit
  have hvisited : Sparing true p' := hsent.step (c := .visitPacketsToSend) hspares hstep
  exact ⟨p', hvisited, beq_iff_eq.mp hcount, hvisited.held_le_allowance⟩

/-- A reliable message that is sent twice: two clones were returned to the pools, and one buffer is
in the queue. -/
theorem not_held_le_allowance : ∃ p, (Endpoint.new true .default 0).run
    [.setXorSalt (some 7), .sendMessage 1 [3],
    .visitPacketsToSend, .update 1, .visitPacketsToSend] = .ok p ∧
    p.pool.held = p.pool.allowance + 1 := by
  obtain ⟨p, hrun, htest⟩ := exists_of_any_toOption (show ((Endpoint.new true .default 0).run
    [.setXorSalt (some 7), .sendMessage 1 [3], .visitPacketsToSend,
      .update 1, .visitPacketsToSend]).toOption.any
      (fun p => p.pool.held == p.pool.allowance + 1) = true by decide +kernel)
  exact ⟨p, hrun, beq_iff_eq.mp htest⟩

end Endpoint

end Pickleback
