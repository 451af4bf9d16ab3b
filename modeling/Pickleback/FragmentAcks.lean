import Pickleback.Dispatcher
import Pickleback.WindowRuns

/-!
# The acks of fragmented messages

The map of fragment acks, over a run in which message ids are allocated in order, to unfragmented
messages one by one and to fragmented ones a block at a time, and fragments are acked in any order,
any number of times. Beside the map stands what happened: which message was last inserted under each
id, and which fragment acks came for it since.

A status lives in the slot of its parent id, which it shares with the parents of other messages. As
long as no call writes or clears the slot of a message that still counts (`Clear`), the map says of
every message exactly when its last fragment is acked.

## Main definitions

* `SentFragMap.Ledger`, `Ledger.step` — the map, the messages sent and their acks; one event
* `Ledger.Tracks` — the map holds the status of every message among the last `len` ids
* `Ledger.Clear` — an event leaves the slots of those messages alone

## Main results

* `Ledger.Sound.exists_step` — one event: no panic, and the map still tracks
* `Ledger.exists_step_of_run` — the same in every state of a run
* `not_exists_step_of_wrap` — a message from before the wrap makes a fragment ack panic
-/

namespace Pickleback

namespace SentFragMap

open SequenceBuffer Serial

/-! ### What was sent, and what came back -/

/-- A fragmented message: the number of its first fragment, counting from the first message of the
run, the ids of the fragments, and the fragment acks so far. -/
structure Sent where
  number : ℕ
  fragmentIds : List MessageId
  acked : List MessageId
  deriving DecidableEq

namespace Sent

/-- All fragments are among the acked ones. -/
def Whole (e : Sent) (acked : List MessageId) : Prop := ∀ id ∈ e.fragmentIds, id ∈ acked

instance (e : Sent) (acked : List MessageId) : Decidable (e.Whole acked) :=
  inferInstanceAs (Decidable (∀ id ∈ e.fragmentIds, id ∈ acked))

/-- The fragments still to be acked. -/
def remaining (e : Sent) : List MessageId := e.fragmentIds.filter fun id => id ∉ e.acked

/-- The status that belongs to a message. -/
def status (e : Sent) : FragAckStatus :=
  if e.Whole e.acked then .complete else .partially e.remaining

theorem remaining_eq_nil_iff (e : Sent) : e.remaining = [] ↔ e.Whole e.acked := by
  simp [remaining, Whole, List.filter_eq_nil_iff]

/-- The message after one more fragment ack. -/
def ack (e : Sent) (id : MessageId) : Sent := { e with acked := e.acked ++ [id] }

theorem whole_ack_iff {e : Sent} {id : MessageId} :
    (e.ack id).Whole (e.ack id).acked ↔ e.Whole (e.acked ++ [id]) := Iff.rfl

theorem status_of_whole {e : Sent} (h : e.Whole e.acked) : e.status = .complete := if_pos h

theorem status_of_not_whole {e : Sent} (h : ¬ e.Whole e.acked) :
    e.status = .partially e.remaining := if_neg h

theorem remaining_ack (e : Sent) (id : MessageId) :
    (e.ack id).remaining = e.remaining.filter fun id' => id' != id := by
  rw [remaining, remaining, List.filter_filter]
  refine List.filter_congr fun id' _ => ?_
  by_cases h : id' = id <;> simp [ack, h]

end Sent

/-- What an endpoint does with message ids, as far as fragments are concerned. -/
inductive Event where
  | unfragmented
  | fragmented (numFragments : ℕ) (h : 2 ≤ numFragments)
  | ack (parentId fragmentId : MessageId)

/-- The map, how many ids were allocated, the number of the newest message inserted, and for every
id the message that was last inserted under it. -/
structure Ledger where
  map : SentFragMap
  count : ℕ
  newest : ℕ
  sent : MessageId → Option Sent

namespace Ledger

/-- A new map of `n` slots. -/
def new (n : ℕ) : Ledger := ⟨SequenceBuffer.withCapacity n, 0, 0, fun _ => none⟩

/-- The ids of the next `numFragments` messages. -/
def nextIds (l : Ledger) (numFragments : ℕ) : List MessageId :=
  (List.range numFragments).map fun i => UInt16.ofNat (l.count + i)

/-- The message of the next `numFragments` ids was inserted, which made the map `m`. -/
def inserted (l : Ledger) (numFragments : ℕ) (m : SentFragMap) : Ledger where
  map := m
  count := l.count + numFragments
  newest := l.count
  sent := Function.update l.sent (UInt16.ofNat l.count) (some ⟨l.count, l.nextIds numFragments, []⟩)

/-- One event, with what the map answers: whether the message was inserted, or whether it is now
acked whole. -/
def step (l : Ledger) : Event → Except Panic (Bool × Ledger)
  | .unfragmented => .ok (true, { l with count := l.count + 1 })
  | .fragmented numFragments _ =>
    match insertFragmentedMessage l.map (UInt16.ofNat l.count) (l.nextIds numFragments) with
    | .error _ => .ok (false, { l with count := l.count + numFragments })
    | .ok m => .ok (true, l.inserted numFragments m)
  | .ack parentId fragmentId =>
    (ackFragmentMessage l.map parentId fragmentId).map fun r => (r.1, { l with
      map := r.2
      sent := Function.update l.sent parentId ((l.sent parentId).map fun e => e.ack fragmentId) })

/-- A message inserted under `id` that is still among the last `len` ids. -/
def Live (l : Ledger) (id : MessageId) (e : Sent) : Prop :=
  l.sent id = some e ∧ l.newest < e.number + l.map.len

/-- **What the map is for**: it holds the status of every message that is still among the last `len`
ids. -/
def Tracks (l : Ledger) : Prop := ∀ id e, l.Live id e → l.map.get id = some e.status

/-- The ack of `fragmentId` leaves nothing to ack of the message in the slot of `parentId`. -/
def Completes (m : SentFragMap) (parentId fragmentId : MessageId) : Prop :=
  ∃ remaining, m.get parentId = some (.partially remaining) ∧
    (remaining.filter fun id => id != fragmentId) = []

/-- Inserting under `parentId` leaves the slot of `id` alone. -/
def Misses (m : SentFragMap) (parentId id : MessageId) : Prop :=
  ∀ x, m.Addresses (.insert parentId .complete) x → m.index x ≠ m.index id

/-- An event leaves the slots of other messages that count afterwards alone, and a message it
completes is not too old for the map. -/
def Clear (l : Ledger) : Event → Prop
  | .unfragmented => True
  | .fragmented _ _ => ∀ id e, id ≠ UInt16.ofNat l.count → l.sent id = some e →
      l.count < e.number + l.map.len → Misses l.map (UInt16.ofNat l.count) id
  | .ack parentId fragmentId => Completes l.map parentId fragmentId →
      l.map.Accepts parentId ∧ ∀ id e, id ≠ parentId → l.Live id e → Misses l.map parentId id

/-- A new map of `n` slots, and what events of a kind make of it. -/
inductive Run (allowed : Ledger → Event → Prop) (n : ℕ) : Ledger → Prop where
  | new : Run allowed n (new n)
  | step {l l' : Ledger} {ev : Event} {r : Bool} (h : Run allowed n l) (hev : allowed l ev)
      (hstep : l.step ev = .ok (r, l')) : Run allowed n l'

theorem Run.fragmented {allowed : Ledger → Event → Prop} {n : ℕ} {l : Ledger} {m : SentFragMap}
    {parentId : MessageId} {ids : List MessageId} (h : Run allowed n l) (numFragments : ℕ)
    (hnum : 2 ≤ numFragments) (hev : allowed l (.fragmented numFragments hnum))
    (hid : UInt16.ofNat l.count = parentId) (hids : l.nextIds numFragments = ids)
    (hins : l.map.insert parentId (.partially ids) = .ok m) :
    Run allowed n (l.inserted numFragments m) := by
  subst hid hids
  exact h.step (r := true) hev (by simp only [Ledger.step, insertFragmentedMessage, hins])

/-- Any number of unfragmented messages. -/
theorem Run.unfragmented {n : ℕ} {l : Ledger} (h : Run (fun _ _ => True) n l) (k : ℕ) :
    Run (fun _ _ => True) n { l with count := l.count + k } := by
  induction k with
  | zero => exact h
  | succ k ih =>
    have hstep : ({ l with count := l.count + k } : Ledger).step .unfragmented
        = .ok (true, { l with count := l.count + (k + 1) }) := rfl
    exact ih.step trivial hstep

/-! ### One event -/

theorem get_insert_of_misses {m m' : SentFragMap} {parentId id : MessageId} {v : FragAckStatus}
    (h : m.insert parentId v = .ok m') (hmiss : Misses m parentId id) : m'.get id = m.get id := by
  have hacc : m.Accepts parentId := (insert_cases h).1
  have hnot : ¬ m.Disturbs parentId (m.index id) := by
    rw [disturbs_iff (v := .complete) hacc]
    rintro ⟨x, hx, hslot⟩
    exact hmiss x hx hslot
  rw [SequenceBuffer.get, SequenceBuffer.get, index_of_insert h, (insert_of_not_disturbs h hnot).1,
    (insert_of_not_disturbs h hnot).2]

/-- The map after the ack of a fragment, by what it held under the parent id. -/
theorem ackFragmentMessage_cases (m : SentFragMap) (parentId fragmentId : MessageId)
    (haccepts : Completes m parentId fragmentId → m.Accepts parentId) :
    ((∀ remaining, m.get parentId ≠ some (.partially remaining)) ∧
      ackFragmentMessage m parentId fragmentId = .ok (false, m)) ∨
    ∃ remaining, m.get parentId = some (.partially remaining) ∧
      (((remaining.filter fun id => id != fragmentId) ≠ [] ∧
        ackFragmentMessage m parentId fragmentId
          = .ok
          (false, m.setEntry parentId (.partially (remaining.filter fun id => id != fragmentId)))) ∨
      ((remaining.filter fun id => id != fragmentId) = [] ∧
        ∃ m', (m.setEntry parentId (.partially [])).insert parentId .complete = .ok m' ∧
          ackFragmentMessage m parentId fragmentId = .ok (true, m'))) := by
  by_cases hpart : ∃ remaining, m.get parentId = some (.partially remaining)
  · obtain ⟨remaining, hget⟩ := hpart
    refine Or.inr ⟨remaining, hget, ?_⟩
    by_cases hnil : (remaining.filter fun id => id != fragmentId) = []
    · have hacc : (m.setEntry parentId (.partially [])).Accepts parentId :=
        haccepts ⟨remaining, hget, hnil⟩
      obtain ⟨m', hm'⟩ := insert_of_accepts hacc (.complete : FragAckStatus)
      refine Or.inr ⟨hnil, m', hm', ?_⟩
      simp [ackFragmentMessage, hget, hnil, hm']
    · refine Or.inl ⟨hnil, ?_⟩
      simp [ackFragmentMessage, hget, hnil]
  · push Not at hpart
    refine Or.inl ⟨hpart, ?_⟩
    rw [ackFragmentMessage]
    split
    · next remaining hget => exact absurd hget (hpart remaining)
    · rfl

/-- The ack of a fragment of one message leaves the status of another one alone. -/
theorem get_ackFragmentMessage_of_ne {m m' : SentFragMap} {parentId fragmentId id : MessageId}
    {whole : Bool} (h : ackFragmentMessage m parentId fragmentId = .ok (whole, m'))
    (hne : id ≠ parentId)
    (hmiss : Completes m parentId fragmentId → m.Accepts parentId ∧ Misses m parentId id) :
    m'.get id = m.get id := by
  obtain ⟨-, hack⟩ | ⟨remaining, hget, ⟨-, hack⟩ | ⟨hnil, m₂, hins, hack⟩⟩ :=
    ackFragmentMessage_cases m parentId fragmentId fun hc => (hmiss hc).1
  · rw [hack] at h
    cases h
    rfl
  · rw [hack] at h
    cases h
    rw [get_setEntry hget, if_neg hne]
  · rw [hack] at h
    cases h
    have hmiss : Misses (m.setEntry parentId (.partially [])) parentId id :=
      (hmiss ⟨remaining, hget, hnil⟩).2
    rw [get_insert_of_misses hins hmiss, get_setEntry hget, if_neg hne]

/-- The ack of a fragment of a message whose status is held: the answer, and the new status. -/
theorem ackFragmentMessage_of_status {m m' : SentFragMap} {parentId fragmentId : MessageId}
    {e : Sent}
    {whole : Bool} (h : ackFragmentMessage m parentId fragmentId = .ok (whole, m'))
    (hstatus : m.get parentId = some e.status)
    (haccepts : Completes m parentId fragmentId → m.Accepts parentId) :
    (whole = true ↔ e.Whole (e.acked ++ [fragmentId]) ∧ ¬ e.Whole e.acked) ∧
      m'.get parentId = some (e.ack fragmentId).status := by
  have hack := ackFragmentMessage_cases m parentId fragmentId haccepts
  rw [hstatus] at hack
  by_cases hwhole : e.Whole e.acked
  · -- the message was complete already
    have hwhole' : (e.ack fragmentId).Whole (e.ack fragmentId).acked :=
      fun id hid => List.mem_append_left _ (hwhole id hid)
    rw [Sent.status_of_whole hwhole] at hack
    obtain ⟨-, hack⟩ | ⟨remaining, hget, -⟩ := hack
    · rw [hack] at h
      cases h
      refine ⟨by simp [hwhole], ?_⟩
      rw [hstatus, Sent.status_of_whole hwhole, Sent.status_of_whole hwhole']
    · cases hget
  · rw [Sent.status_of_not_whole hwhole] at hack
    have hiff : (e.remaining.filter fun id => id != fragmentId) = [] ↔
        e.Whole (e.acked ++ [fragmentId]) := by
      rw [← Sent.remaining_ack, Sent.remaining_eq_nil_iff, Sent.whole_ack_iff]
    obtain ⟨hnone, -⟩ | ⟨remaining, hget, ⟨hleft, hack⟩ | ⟨hnil, m₂, hins, hack⟩⟩ := hack
    · exact absurd rfl (hnone e.remaining)
    · cases hget
      rw [hack] at h
      cases h
      rw [Ne, hiff] at hleft
      refine ⟨by simp [hleft], ?_⟩
      rw [get_setEntry hstatus, if_pos rfl,
        Sent.status_of_not_whole (mt Sent.whole_ack_iff.mp hleft),
        Sent.remaining_ack]
    · cases hget
      rw [hack] at h
      cases h
      rw [hiff] at hnil
      refine ⟨by simp [hnil, hwhole], ?_⟩
      rw [get_insert_self hins, Sent.status_of_whole (Sent.whole_ack_iff.mpr hnil)]

theorem exists_ackFragmentMessage {m : SentFragMap} {parentId fragmentId : MessageId}
    (haccepts : Completes m parentId fragmentId → m.Accepts parentId) :
    ∃ r, ackFragmentMessage m parentId fragmentId = .ok r := by
  obtain ⟨-, hack⟩ | ⟨remaining, -, ⟨-, hack⟩ | ⟨-, m', -, hack⟩⟩ :=
    ackFragmentMessage_cases m parentId fragmentId haccepts
  · exact ⟨_, hack⟩
  · exact ⟨_, hack⟩
  · exact ⟨_, hack⟩

/-- What holds in a run of clear events. -/
structure Sound (n : ℕ) (l : Ledger) : Prop where
  len : l.map.len = n
  newest_le : l.newest ≤ l.count
  tracks : l.Tracks

theorem sound_new (n : ℕ) : (new n).Sound n where
  len := rfl
  newest_le := le_rfl
  tracks := by
    rintro id e ⟨hsent, -⟩
    cases hsent

/-- The message just inserted counts, and those that still do did so before. -/
theorem Sound.fragmented {n : ℕ} {l : Ledger} {m : SentFragMap} {numFragments : ℕ} (h : l.Sound n)
    (hnum : 2 ≤ numFragments) (hclear : l.Clear (.fragmented numFragments hnum))
    (hins : l.map.insert (UInt16.ofNat l.count) (.partially (l.nextIds numFragments)) = .ok m) :
    (l.inserted numFragments m).Sound n where
  len := (len_insert hins).trans h.len
  newest_le := Nat.le_add_right _ _
  tracks := by
    rintro id e ⟨hsent, hlive⟩
    simp only [inserted] at hsent hlive ⊢
    rw [len_insert hins] at hlive
    by_cases hid : id = UInt16.ofNat l.count
    · subst hid
      rw [Function.update_self, Option.some.injEq] at hsent
      subst hsent
      have hnot : ¬ (⟨l.count, l.nextIds numFragments, []⟩ : Sent).Whole [] := by
        intro hwhole
        have := hwhole (UInt16.ofNat (l.count + 0))
          (List.mem_map.mpr ⟨0, List.mem_range.mpr (by omega), rfl⟩)
        cases this
      rw [get_insert_self hins, Sent.status_of_not_whole hnot]
      simp [Sent.remaining]
    · rw [Function.update_of_ne hid] at hsent
      have hnewest := h.newest_le
      rw [get_insert_of_misses hins (hclear id e hid hsent hlive)]
      exact h.tracks id e ⟨hsent, by omega⟩

/-- A fragment ack is answered rightly, and leaves the right statuses. -/
theorem Sound.ack {n : ℕ} {l : Ledger} {m : SentFragMap} {parentId fragmentId : MessageId}
    {whole : Bool}
    (h : l.Sound n) (hclear : l.Clear (.ack parentId fragmentId))
    (hack : ackFragmentMessage l.map parentId fragmentId = .ok (whole, m)) :
    Sound n { l with
      map := m
      sent := Function.update l.sent parentId ((l.sent parentId).map fun e => e.ack fragmentId) }
        where
  len := (len_ackFragmentMessage hack).trans h.len
  newest_le := h.newest_le
  tracks := by
    rintro id e ⟨hsent, hlive⟩
    dsimp only at hsent hlive ⊢
    rw [len_ackFragmentMessage hack] at hlive
    by_cases hid : id = parentId
    · subst hid
      rw [Function.update_self] at hsent
      obtain ⟨e₀, hsent₀, rfl⟩ := Option.map_eq_some_iff.mp hsent
      exact (ackFragmentMessage_of_status hack (h.tracks id e₀ ⟨hsent₀, hlive⟩)
        fun hc => (hclear hc).1).2
    · rw [Function.update_of_ne hid] at hsent
      rw [get_ackFragmentMessage_of_ne hack hid
        fun hc => ⟨(hclear hc).1, (hclear hc).2 id e hid ⟨hsent, hlive⟩⟩]
      exact h.tracks id e ⟨hsent, hlive⟩

/-- **One clear event**: nothing panics, and the statuses are right afterwards. -/
theorem Sound.exists_step {n : ℕ} {l : Ledger} {ev : Event} (h : l.Sound n) (hclear : l.Clear ev) :
    ∃ r l', l.step ev = .ok (r, l') ∧ l'.Sound n := by
  cases ev with
  | unfragmented => exact ⟨_, _, rfl, h.len, h.newest_le.trans (Nat.le_succ _), h.tracks⟩
  | fragmented numFragments hnum =>
    simp only [step, insertFragmentedMessage]
    split
    · exact ⟨_, _, rfl, h.len, h.newest_le.trans (Nat.le_add_right _ _), h.tracks⟩
    · next m hins => exact ⟨_, _, rfl, h.fragmented hnum hclear hins⟩
  | ack parentId fragmentId =>
    obtain ⟨⟨whole, m⟩, hack⟩ := exists_ackFragmentMessage fun hc => (hclear hc).1
    simp only [step, hack, Except.map]
    exact ⟨_, _, rfl, h.ack hclear hack⟩

theorem Run.sound {n : ℕ} {l : Ledger} (h : Run Clear n l) : l.Sound n := by
  induction h with
  | new => exact sound_new n
  | step _ hclear hstep ih =>
    obtain ⟨r, l', hstep', hsound⟩ := ih.exists_step hclear
    rw [hstep'] at hstep
    cases hstep
    exact hsound

/-- **Every event of a run** whose events are clear does its work without a panic, and the ack of a
fragment of a message among the last `n` ids says whether it was the one that completed the message.
The map has slots the source can index. -/
theorem exists_step_of_run {n : ℕ} (_hn : 0 < n ∧ n < 65536) {l : Ledger} (h : Run Clear n l)
    {ev : Event} (hclear : l.Clear ev) :
    ∃ r l', l.step ev = .ok (r, l') ∧
      ∀ parentId fragmentId e, ev = .ack parentId fragmentId → l.Live parentId e →
        (r = true ↔ e.Whole (e.acked ++ [fragmentId]) ∧ ¬ e.Whole e.acked) := by
  obtain ⟨r, l', hstep, -⟩ := h.sound.exists_step hclear
  refine ⟨r, l', hstep, ?_⟩
  rintro parentId fragmentId e rfl hlive
  obtain ⟨⟨whole, m⟩, hack, heq⟩ := exists_of_map_eq_ok hstep
  cases heq
  exact (ackFragmentMessage_of_status hack (h.sound.tracks parentId e hlive) fun hc =>
    (hclear hc).1).1

/-- A message of two fragments, and the ack of the second one. -/
theorem exists_step_of_run_first :
    ∃ l r l', Run Clear 25000 l ∧ l.Live 0 ⟨0, [0, 1], []⟩ ∧ l.step (.ack 0 1) = .ok (r, l') ∧
      (r = true ↔ (⟨0, [0, 1], []⟩ : Sent).Whole ([] ++ [1]) ∧
        ¬ (⟨0, [0, 1], []⟩ : Sent).Whole []) := by
  have hins := insert_of_not_newer (b := (new 25000).map) (s := 0) (by decide) (by decide)
    (.partially [0, 1])
  have hclear : (new 25000).Clear (.fragmented 2 le_rfl) := by
    rintro id e - hsent
    cases hsent
  have hrun := Run.new.fragmented 2 le_rfl hclear rfl rfl hins
  have hlive : ((new 25000).inserted 2 ((new 25000).map.write 0 (.partially [0, 1]))).Live 0
      ⟨0, [0, 1], []⟩ := ⟨rfl, by decide⟩
  have hack : ((new 25000).inserted 2 ((new 25000).map.write 0 (.partially [0, 1]))).Clear
    (.ack 0 1) := by
    rintro ⟨remaining, hget, hnil⟩
    cases (get_insert_self hins).symm.trans hget
    cases hnil
  obtain ⟨r, l', hstep, hr⟩ := exists_step_of_run (by decide) hrun hack
  exact ⟨_, r, l', hrun, hlive, hstep, hr 0 1 _ rfl hlive⟩

/-! ### A message from before the wrap -/

/-- The last fragment ack of a message that is too old for the map panics. -/
theorem ackFragmentMessage_of_not_accepts {m : SentFragMap} {parentId fragmentId : MessageId}
    (h : Completes m parentId fragmentId) (hold : ¬ m.Accepts parentId) :
    ackFragmentMessage m parentId fragmentId = .error .fragMapTooOld := by
  obtain ⟨remaining, hget, hnil⟩ := h
  have htooOld : sequenceLessThan parentId (m.sequence - UInt16.ofNat m.len) = true := by
    rwa [Accepts, Bool.not_eq_false] at hold
  have hins := insert_of_tooOld (b := m.setEntry parentId (.partially [])) htooOld .complete
  simp [ackFragmentMessage, hget, hnil, hins]

/-- Acking both fragments of a message that is held although it is too old. -/
theorem Run.exists_panic {n : ℕ} {l : Ledger} {parentId id id' : MessageId}
    (h : Run (fun _ _ => True) n l) (hget : l.map.get parentId = some (.partially [id, id']))
    (hne : id' ≠ id) (hold : ¬ l.map.Accepts parentId) :
    ∃ l', Run (fun _ _ => True) n l' ∧ l'.step (.ack parentId id') = .error .fragMapTooOld := by
  have hack : ackFragmentMessage l.map parentId id
      = .ok (false, l.map.setEntry parentId (.partially [id'])) := by
    simp [ackFragmentMessage, hget, hne]
  have hstep : l.step (.ack parentId id) = .ok (false, { l with
      map := l.map.setEntry parentId (.partially [id'])
      sent := Function.update l.sent parentId ((l.sent parentId).map fun e => e.ack id) }) := by
    rw [Ledger.step, hack]
    rfl
  refine ⟨_, h.step trivial hstep, ?_⟩
  have hpanic : ackFragmentMessage (l.map.setEntry parentId (.partially [id'])) parentId id'
      = .error .fragMapTooOld := by
    refine ackFragmentMessage_of_not_accepts ⟨[id'], ?_, by simp⟩ hold
    rw [get_setEntry hget, if_pos rfl]
  rw [Ledger.step, hpanic]
  rfl

/-- A message of two fragments is inserted under id 42000 of a map of 25000 slots, and another one
when 30534 more ids were used. The slot of the first one is not cleared on the way across the wrap,
but its id is too old to be inserted again when its second fragment is acked. -/
theorem not_exists_step_of_wrap :
    ¬ ∀ l, Run (fun _ _ => True) 25000 l → ∀ ev, ∃ r, l.step ev = .ok r := by
  intro h
  have h₀ := (Run.new : Run (fun _ _ => True) 25000 _).unfragmented 42000
  have hins₁ := insert_of_not_newer (b := (new 25000).map) (s := 42000) (by decide) (by decide)
    (.partially [42000, 42001])
  set m₁ := (new 25000).map.write 42000 (.partially [42000, 42001]) with hm₁
  have h₁ := (h₀.fragmented 2 le_rfl trivial (by decide) (by decide) hins₁).unfragmented 30534
  have hins₂ := insert_of_newer (b := m₁) (s := 7000) (by decide)
    (by decide) (.partially [7000, 7001])
  set m₂ := (m₁.moveTo 7000).write 7000 (.partially [7000, 7001]) with hm₂
  have h₂ := h₁.fragmented 2 le_rfl trivial (by decide) (by decide) hins₂
  have hget₂ : m₂.get 42000 = some (.partially [42000, 42001]) := by
    rw [get_insert_of_misses hins₂ ?_, get_insert_self hins₁]
    intro x hx hslot
    have hle : x.toNat ≤ 7000 := by
      obtain ⟨-, rfl | ⟨-, -, -, hx⟩⟩ := hx
      · decide
      · exact UInt16.le_iff_toNat_le.mp hx
    have hlen : m₁.len < 65536 := by decide
    rw [index_eq hlen, index_eq hlen, show m₁.len = 25000 from rfl,
      show (42000 : UInt16).toNat = 42000 from rfl] at hslot
    omega
  have hold : ¬ m₂.Accepts 42000 := by
    rw [Accepts, hm₂, sequence_write, len_write, len_moveTo, sequence_moveTo]
    decide
  obtain ⟨l', hrun, hpanic⟩ := h₂.exists_panic hget₂ (by decide) hold
  obtain ⟨r, hr⟩ := h l' hrun _
  cases hpanic.symm.trans hr

end Ledger

end SentFragMap

end Pickleback
