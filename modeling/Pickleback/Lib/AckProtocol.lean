import Mathlib.Data.Set.Insert
import Mathlib.Tactic

/-!
# Selective acks with acks of acks

Two parties number their packets `1, 2, 3, …`. Every packet reports to its receiver the newest
packet its sender has received so far, and acks the packets received since a *low watermark*. A
packet that is acked tells its sender that the peer has seen the report in it, so the watermark
moves up to what that packet reported. A party stops sending when `K` of its packets are unacked.

Numbers here do not wrap and nothing is stored in windows: this is what an implementation with
sixteen-bit ids and ring buffers is meant to be. Packets are lost, duplicated and reordered freely,
since a step receives any packet of the peer that was not received before.

The argument rests on two equations. The newest packet of mine that I know to be acked is the newest
one that the peer had received when it sent the newest packet I have; and my watermark is what that
packet of mine reported. So `newest` and `low` are functions of the two reports, and every bound
follows from the limit that the sender obeyed when it sent.

## Main definitions

* `Party`, `Party.send`, `Party.receive` — one side of the protocol
* `Agree K S p q` — what holds of party `p` facing party `q`, in every state

## Main results

* `Agree.send`, `Agree.receive` and their `_peer` forms — the invariant is kept by every step
* `Agree.unacked_le`, `Agree.unreported_le` — both counters are bounded by `K`
* `Agree.number_le` — a report acks nothing that is too old
* `Reported.exists_report` — below the watermark everything was reported, unless a packet came late
-/

namespace AckProtocol

/-- The two ends of a link. -/
inductive Side where
  | left
  | right
  deriving DecidableEq, Repr

/-- The opposite end. -/
def Side.other : Side → Side
  | .left => .right
  | .right => .left

@[simp] theorem Side.other_other (e : Side) : e.other.other = e := by cases e <;> rfl

@[simp] theorem Side.other_ne (e : Side) : e.other ≠ e := by cases e <;> decide

theorem Side.eq_or_eq_other (e e' : Side) : e' = e ∨ e' = e.other := by
  cases e <;> cases e' <;> decide

/-- What a packet says about the packets of the peer: the newest one received, and those acked. -/
structure Report where
  upTo : ℕ
  acks : List ℕ

/-- One party: how many packets it sent and what they reported, what it received, and what it knows
to be acked. -/
structure Party where
  sent : ℕ
  report : ℕ → Report
  received : Set ℕ
  top : ℕ
  newest : ℕ
  low : ℕ
  acked : List ℕ

namespace Party

/-- Nothing sent, nothing received. -/
def start : Party := ⟨0, fun _ => ⟨0, []⟩, ∅, 0, 0, 0, []⟩

/-- The newest packet of the peer that packet `n` reports. -/
def upTo (p : Party) (n : ℕ) : ℕ := (p.report n).upTo

/-- Sending the next packet, which acks `acks`. -/
def send (p : Party) (acks : List ℕ) : Party :=
  { p with sent := p.sent + 1, report := Function.update p.report (p.sent + 1) ⟨p.top, acks⟩ }

/-- Learning that packet `y` is acked. The last `W` packets are remembered. -/
def ack (W : ℕ) (p : Party) (y : ℕ) : Party :=
  if y ∈ p.acked ∨ y + W ≤ p.sent then p
  else { p with
    newest := max p.newest y
    low := max p.low (p.upTo y)
    acked := p.acked ++ [y] }

/-- Receiving packet `x`, which acks `acks`. -/
def receive (W : ℕ) (p : Party) (x : ℕ) (acks : List ℕ) : Party :=
  acks.foldl (ack W) { p with received := insert x p.received, top := max p.top x }

/-! ### Sending -/

@[simp] theorem sent_send (p : Party) (acks : List ℕ) : (p.send acks).sent = p.sent + 1 := rfl

theorem report_send_of_le {p : Party} {n : ℕ} (h : n ≤ p.sent) (acks : List ℕ) :
    (p.send acks).report n = p.report n :=
  Function.update_of_ne (by omega) _ _

theorem upTo_send_of_le {p : Party} {n : ℕ} (h : n ≤ p.sent) (acks : List ℕ) :
    (p.send acks).upTo n = p.upTo n :=
  congrArg Report.upTo (report_send_of_le h acks)

@[simp] theorem report_send_self (p : Party) (acks : List ℕ) :
    (p.send acks).report (p.sent + 1) = ⟨p.top, acks⟩ :=
  Function.update_self _ _ _

@[simp] theorem upTo_send_self (p : Party) (acks : List ℕ) :
    (p.send acks).upTo (p.sent + 1) = p.top :=
  congrArg Report.upTo (report_send_self p acks)

/-! ### Learning of acks -/

/-- What an ack leaves alone. -/
structure SameTraffic (p p' : Party) : Prop where
  sent : p'.sent = p.sent
  report : p'.report = p.report
  received : p'.received = p.received
  top : p'.top = p.top

theorem SameTraffic.upTo {p p' : Party} (h : SameTraffic p p') (n : ℕ) : p'.upTo n = p.upTo n := by
  rw [Party.upTo, Party.upTo, h.report]

/-- What a party knows of its acked packets is in order: no packet is acked twice, and `newest` and
`low` belong to the newest acked packet. -/
structure Tidy (p : Party) : Prop where
  low : p.low = p.upTo p.newest
  le_newest : ∀ y ∈ p.acked, y ≤ p.newest
  newest_mem : p.newest = 0 ∨ p.newest ∈ p.acked
  nodup : p.acked.Nodup

section Ack

variable {W : ℕ} {p : Party} {y : ℕ}

theorem sameTraffic_ack (W : ℕ) (p : Party) (y : ℕ) : SameTraffic p (p.ack W y) := by
  rw [ack]
  split <;> exact ⟨rfl, rfl, rfl, rfl⟩

/-- An ack of a packet that is still remembered is recorded. -/
theorem mem_acked_ack (h : p.sent < y + W) : y ∈ (p.ack W y).acked := by
  rw [ack]
  split
  · next hno =>
    rcases hno with hmem | hold
    · exact hmem
    · omega
  · simp

theorem acked_ack (W : ℕ) (p : Party) (y : ℕ) :
    (p.ack W y).acked = p.acked ∨ (p.ack W y).acked = p.acked ++ [y] := by
  rw [ack]
  split
  · exact Or.inl rfl
  · exact Or.inr rfl

theorem newest_ack_le (W : ℕ) (p : Party) (y : ℕ) :
    p.newest ≤ (p.ack W y).newest ∧ (p.ack W y).newest ≤ max p.newest y := by
  rw [ack]
  split
  · exact ⟨le_rfl, le_max_left _ _⟩
  · exact ⟨le_max_left _ _, le_rfl⟩

theorem low_ack_le (W : ℕ) (p : Party) (y : ℕ) :
    p.low ≤ (p.ack W y).low ∧ (p.ack W y).low ≤ max p.low (p.upTo y) := by
  rw [ack]
  split
  · exact ⟨le_rfl, le_max_left _ _⟩
  · exact ⟨le_max_left _ _, le_rfl⟩

/-- **One ack** keeps a party tidy: `upTo` is monotone, so the two maxima stay together. -/
theorem Tidy.ack (h : p.Tidy) (hmono : Monotone fun n => p.upTo (min n p.sent))
    (hnewest : p.newest ≤ p.sent) (hy : y ≤ p.sent) : (p.ack W y).Tidy := by
  rw [Party.ack]
  split
  · exact h
  · next hnew =>
    push Not at hnew
    refine ⟨?_, ?_, ?_, ?_⟩
    · show max p.low (p.upTo y) = p.upTo (max p.newest y)
      have hmax := hmono.map_max (a := p.newest) (b := y)
      simp only [min_eq_left hnewest, min_eq_left hy, min_eq_left (max_le hnewest hy)] at hmax
      rw [hmax, h.low]
    · intro z hz
      rcases List.mem_append.mp hz with hz | hz
      · exact le_trans (h.le_newest z hz) (le_max_left _ _)
      · rw [List.mem_singleton.mp hz]
        exact le_max_right _ _
    · show max p.newest y = 0 ∨ max p.newest y ∈ p.acked ++ [y]
      rcases le_total p.newest y with hle | hle
      · right
        simp [max_eq_right hle]
      · rw [max_eq_left hle]
        exact h.newest_mem.imp_right (List.mem_append_left _)
    · show (p.acked ++ [y]).Nodup
      rw [List.nodup_append]
      refine ⟨h.nodup, List.nodup_singleton y, ?_⟩
      rintro z hz w hw rfl
      rw [List.mem_singleton.mp hw] at hz
      exact hnew.1 hz

end Ack

/-! ### Receiving a list of acks -/

section Fold

variable {W : ℕ}

theorem sameTraffic_foldl (acks : List ℕ) (p : Party) : SameTraffic p (acks.foldl (ack W) p) := by
  induction acks generalizing p with
  | nil => exact ⟨rfl, rfl, rfl, rfl⟩
  | cons y acks ih =>
    have h₁ := sameTraffic_ack W p y
    have h₂ := ih (p.ack W y)
    exact ⟨h₂.sent.trans h₁.sent, h₂.report.trans h₁.report, h₂.received.trans h₁.received,
      h₂.top.trans h₁.top⟩

theorem mem_acked_foldl {acks : List ℕ} {p : Party} {y : ℕ}
    (h : y ∈ p.acked ∨ (y ∈ acks ∧ p.sent < y + W)) : y ∈ (acks.foldl (ack W) p).acked := by
  induction acks generalizing p with
  | nil => simpa using h
  | cons z acks ih =>
    have hsent := (sameTraffic_ack W p z).sent
    refine ih ?_
    rcases h with hmem | ⟨hmem, hroom⟩
    · left
      rcases acked_ack W p z with heq | heq <;> rw [heq]
      · exact hmem
      · exact List.mem_append_left _ hmem
    · rcases List.mem_cons.mp hmem with rfl | hmem
      · exact Or.inl (mem_acked_ack hroom)
      · exact Or.inr ⟨hmem, by omega⟩

theorem acked_foldl_subset {acks : List ℕ} {p : Party} {y : ℕ}
    (h : y ∈ (acks.foldl (ack W) p).acked) : y ∈ p.acked ∨ y ∈ acks := by
  induction acks generalizing p with
  | nil => exact Or.inl h
  | cons z acks ih =>
    rcases ih h with hmem | hmem
    · rcases acked_ack W p z with heq | heq <;> rw [heq] at hmem
      · exact Or.inl hmem
      · rcases List.mem_append.mp hmem with hmem | hmem
        · exact Or.inl hmem
        · exact Or.inr (List.mem_cons.mpr (Or.inl (List.mem_singleton.mp hmem)))
    · exact Or.inr (List.mem_cons_of_mem z hmem)

theorem newest_foldl_le {acks : List ℕ} {p : Party} {N : ℕ} (h : ∀ y ∈ acks, y ≤ N) :
    p.newest ≤ (acks.foldl (ack W) p).newest ∧ (acks.foldl (ack W) p).newest ≤ max p.newest N := by
  induction acks generalizing p with
  | nil => exact ⟨le_rfl, le_max_left _ _⟩
  | cons y acks ih =>
    have hstep := newest_ack_le W p y
    have hrest := ih (p := p.ack W y) fun z hz => h z (List.mem_cons_of_mem y hz)
    have hy := h y (List.mem_cons_self ..)
    rw [List.foldl_cons]
    omega

/-- **A whole report** keeps a party tidy. -/
theorem Tidy.foldl {acks : List ℕ} {p : Party} (h : p.Tidy)
    (hmono : Monotone fun n => p.upTo (min n p.sent)) (hnewest : p.newest ≤ p.sent)
    (hacks : ∀ y ∈ acks, y ≤ p.sent) : (acks.foldl (Party.ack W) p).Tidy := by
  induction acks generalizing p with
  | nil => exact h
  | cons y acks ih =>
    have hy := hacks y (List.mem_cons_self ..)
    have hsame := sameTraffic_ack W p y
    have hle := (newest_ack_le W p y).2
    refine ih (h.ack hmono hnewest hy) ?_ ?_ ?_
    · intro m n hmn
      simp only [hsame.upTo, hsame.sent]
      exact hmono hmn
    · rw [hsame.sent]
      omega
    · intro z hz
      rw [hsame.sent]
      exact hacks z (List.mem_cons_of_mem y hz)

end Fold

end Party

/-! ### The invariant -/

/-- What a party may report: only received packets, nothing far below the watermark, and everything
above it; and it may send at all only while fewer than `K` packets are unacked. -/
structure CanSend (K S : ℕ) (p : Party) (acks : List ℕ) : Prop where
  room : p.sent < p.newest + K
  received : ∀ y ∈ acks, y ∈ p.received
  slack : ∀ y ∈ acks, p.low < y + S
  complete : ∀ y ∈ p.received, p.low < y → y ∈ acks

/-- What holds of `p`, facing `q`, in every state of the protocol. -/
structure Agree (K S : ℕ) (p q : Party) : Prop where
  received_le : ∀ y ∈ p.received, 1 ≤ y ∧ y ≤ q.sent
  le_top : ∀ y ∈ p.received, y ≤ p.top
  top_mem : p.top = 0 ∨ p.top ∈ p.received
  upTo_zero : p.upTo 0 = 0
  mono : ∀ {m n}, m ≤ n → n ≤ p.sent → p.upTo m ≤ p.upTo n
  upTo_le : ∀ {n}, n ≤ p.sent → p.upTo n ≤ p.top
  newest_eq : p.newest = q.upTo p.top
  tidy : p.Tidy
  unacked_le : p.sent ≤ p.newest + K
  flow : ∀ {n}, n ≤ p.sent → n ≤ q.upTo (p.upTo n) + K
  earlier : ∀ {n}, 1 ≤ n → n ≤ p.sent → q.upTo (p.upTo n) < n
  confirmed : ∀ {n}, n ≤ p.sent → q.upTo (p.upTo n) = 0 ∨ q.upTo (p.upTo n) ∈ q.received
  acks_received : ∀ {n y}, n ≤ p.sent → y ∈ (p.report n).acks → y ∈ p.received ∧ y ≤ p.upTo n
  acks_slack : ∀ {n y}, n ≤ p.sent → y ∈ (p.report n).acks → p.upTo (q.upTo (p.upTo n)) < y + S
  acks_top : ∀ {n}, n ≤ p.sent → p.upTo n = 0 ∨ p.upTo n ∈ (p.report n).acks
  acked_received : ∀ y ∈ p.acked, y ∈ q.received

namespace Agree

variable {K S W : ℕ} {p q : Party}

theorem start (K S : ℕ) : Agree K S .start .start where
  received_le := by simp [Party.start]
  le_top := by simp [Party.start]
  top_mem := Or.inl rfl
  upTo_zero := rfl
  mono := fun _ _ => le_rfl
  upTo_le := fun _ => le_rfl
  newest_eq := rfl
  tidy := ⟨rfl, by simp [Party.start], Or.inl rfl, List.nodup_nil⟩
  unacked_le := Nat.zero_le _
  flow := fun h => le_trans h (Nat.zero_le _)
  earlier := fun h₁ h₂ => absurd (le_trans h₁ h₂) (by simp [Party.start])
  confirmed := fun _ => Or.inl rfl
  acks_received := fun _ h => by simp [Party.start] at h
  acks_slack := fun _ h => by simp [Party.start] at h
  acks_top := fun _ => Or.inl rfl
  acked_received := by simp [Party.start]

/-! #### First consequences -/

theorem top_le (h : Agree K S p q) : p.top ≤ q.sent := by
  rcases h.top_mem with htop | htop
  · omega
  · exact (h.received_le _ htop).2

theorem newest_le (h : Agree K S p q) (h' : Agree K S q p) : p.newest ≤ q.top := by
  rw [h.newest_eq]
  exact h'.upTo_le h.top_le

theorem newest_le_sent (h : Agree K S p q) (h' : Agree K S q p) : p.newest ≤ p.sent :=
  le_trans (h.newest_le h') h'.top_le

theorem low_eq (h : Agree K S p q) : p.low = p.upTo (q.upTo p.top) := by
  rw [h.tidy.low, h.newest_eq]

theorem monotone_upTo (h : Agree K S p q) : Monotone fun n => p.upTo (min n p.sent) :=
  fun _ _ hmn => h.mono (min_le_min_right _ hmn) (min_le_right _ _)

/-- **The receiver's bound.** No more than `K` packets lie above the watermark. -/
theorem unreported_le (h : Agree K S p q) (h' : Agree K S q p) : p.top ≤ p.low + K := by
  rw [h.low_eq]
  exact h'.flow h.top_le

/-- What was received reaches up to the last `K` packets sent. -/
theorem sent_le (h : Agree K S p q) (h' : Agree K S q p) : p.sent ≤ q.top + K :=
  le_trans h.unacked_le (Nat.add_le_add_right (h.newest_le h') K)

/-- From one packet to the next, what is reported grows by at most `K`. -/
theorem upTo_succ_le (h : Agree K S p q) (h' : Agree K S q p) {n : ℕ} (hn : n + 1 ≤ p.sent) :
    p.upTo (n + 1) ≤ p.upTo n + K := by
  have htop := (h.upTo_le hn).trans h.top_le
  have hflow := h'.flow htop
  have hearlier := h.earlier (n := n + 1) (by omega) hn
  have hmono := h.mono (Nat.le_of_lt_succ hearlier) (by omega)
  omega

theorem upTo_add_le (h : Agree K S p q) (h' : Agree K S q p) {n k : ℕ} (hn : n + k ≤ p.sent) :
    p.upTo (n + k) ≤ p.upTo n + k * K := by
  induction k with
  | zero => simp
  | succ k ih =>
    have hstep := h.upTo_succ_le h' (n := n + k) hn
    have hrest := ih (by omega)
    rw [Nat.succ_mul]
    show p.upTo (n + k + 1) ≤ _
    omega

/-- **Acks are recent.** A packet that acks `y` is at most `(S + 2) * K` packets after what `y` had
reported. -/
theorem number_le (h : Agree K S p q) (h' : Agree K S q p) {x y : ℕ} (hx : x ≤ q.sent)
    (hy : y ∈ (q.report x).acks) : x ≤ p.upTo y + (S + 2) * K := by
  have hyt := (h'.acks_received hx hy).2
  have hts := (h'.upTo_le hx).trans h'.top_le
  have hslack := h'.acks_slack hx hy
  have hflow := h'.flow hx
  have hback := h'.flow ((h.upTo_le hts).trans h.top_le)
  -- the watermark of that report lies less than `S` above `y`
  have hlow : p.upTo (q.upTo (p.upTo (q.upTo x))) ≤ p.upTo y + S * K := by
    rcases le_total (q.upTo (p.upTo (q.upTo x))) y with hle | hle
    · exact (h.mono hle (by omega)).trans (Nat.le_add_right _ _)
    · have hlip := h.upTo_add_le h' (n := y) (k := q.upTo (p.upTo (q.upTo x)) - y) ?_
      · rw [Nat.add_sub_of_le hle] at hlip
        have hmul : (q.upTo (p.upTo (q.upTo x)) - y) * K ≤ S * K :=
          Nat.mul_le_mul_right K (by omega)
        omega
      · have := h'.upTo_le ((h.upTo_le hts).trans h.top_le)
        have := h'.top_le
        omega
  have hexp : (S + 2) * K = S * K + K + K := by ring
  omega

/-! #### Sending -/

theorem low_lt_top (h : Agree K S p q) (h' : Agree K S q p) (htop : p.top ≠ 0) : p.low < p.top := by
  rw [h.low_eq]
  exact h'.earlier (Nat.pos_of_ne_zero htop) h.top_le

theorem send (h : Agree K S p q) (h' : Agree K S q p) {acks : List ℕ} (hacks : CanSend K S p acks) :
    Agree K S (p.send acks) q := by
  have hnewest := h.newest_le_sent h'
  have split : ∀ {n}, n ≤ (p.send acks).sent → n ≤ p.sent ∨ n = p.sent + 1 := fun hn => by
    rw [Party.sent_send] at hn
    omega
  refine {
    received_le := h.received_le
    le_top := h.le_top
    top_mem := h.top_mem
    upTo_zero := ?_
    mono := ?_
    upTo_le := ?_
    newest_eq := h.newest_eq
    tidy := ⟨?_, h.tidy.le_newest, h.tidy.newest_mem, h.tidy.nodup⟩
    unacked_le := hacks.room
    flow := ?_
    earlier := ?_
    confirmed := ?_
    acks_received := ?_
    acks_slack := ?_
    acks_top := ?_
    acked_received := h.acked_received }
  · rw [Party.upTo_send_of_le (Nat.zero_le _), h.upTo_zero]
  · intro m n hmn hn
    rcases split hn with hn | rfl
    · rw [Party.upTo_send_of_le hn, Party.upTo_send_of_le (hmn.trans hn)]
      exact h.mono hmn hn
    · rcases split (hmn.trans hn) with hm | rfl
      · rw [Party.upTo_send_of_le hm, Party.upTo_send_self]
        exact h.upTo_le hm
      · exact le_rfl
  · intro n hn
    rcases split hn with hn | rfl
    · rw [Party.upTo_send_of_le hn]
      exact h.upTo_le hn
    · rw [Party.upTo_send_self]
      exact le_rfl
  · show p.low = (p.send acks).upTo p.newest
    rw [Party.upTo_send_of_le hnewest]
    exact h.tidy.low
  · intro n hn
    rcases split hn with hn | rfl
    · rw [Party.upTo_send_of_le hn]
      exact h.flow hn
    · rw [Party.upTo_send_self, ← h.newest_eq]
      exact hacks.room
  · intro n hpos hn
    rcases split hn with hn | rfl
    · rw [Party.upTo_send_of_le hn]
      exact h.earlier hpos hn
    · rw [Party.upTo_send_self, ← h.newest_eq]
      omega
  · intro n hn
    rcases split hn with hn | rfl
    · rw [Party.upTo_send_of_le hn]
      exact h.confirmed hn
    · rw [Party.upTo_send_self, ← h.newest_eq]
      exact h.tidy.newest_mem.imp_right (h.acked_received _)
  · intro n y hn hy
    rcases split hn with hn | rfl
    · rw [Party.report_send_of_le hn] at hy
      rw [Party.upTo_send_of_le hn]
      exact h.acks_received hn hy
    · rw [Party.report_send_self] at hy
      rw [Party.upTo_send_self]
      exact ⟨hacks.received y hy, h.le_top y (hacks.received y hy)⟩
  · intro n y hn hy
    have hback : ∀ {m}, m ≤ q.sent → q.upTo m ≤ p.sent := fun hm => (h'.upTo_le hm).trans h'.top_le
    rcases split hn with hn | rfl
    · rw [Party.report_send_of_le hn] at hy
      rw [Party.upTo_send_of_le hn,
        Party.upTo_send_of_le (hback ((h.upTo_le hn).trans h.top_le))]
      exact h.acks_slack hn hy
    · rw [Party.report_send_self] at hy
      rw [Party.upTo_send_self, Party.upTo_send_of_le (hback h.top_le), ← h.low_eq]
      exact hacks.slack y hy
  · intro n hn
    rcases split hn with hn | rfl
    · rw [Party.upTo_send_of_le hn, Party.report_send_of_le hn]
      exact h.acks_top hn
    · rw [Party.upTo_send_self, Party.report_send_self]
      rcases h.top_mem with htop | htop
      · exact Or.inl htop
      · refine Or.inr (hacks.complete _ htop (h.low_lt_top h' ?_))
        have := (h.received_le _ htop).1
        omega

/-- The peer of a party that sends. -/
theorem send_peer (h : Agree K S q p) {acks : List ℕ} : Agree K S q (p.send acks) := by
  have hback : ∀ {n}, n ≤ q.sent → (p.send acks).upTo (q.upTo n) = p.upTo (q.upTo n) := fun hn =>
    Party.upTo_send_of_le ((h.upTo_le hn).trans h.top_le) acks
  refine {
    received_le := ?_
    le_top := h.le_top
    top_mem := h.top_mem
    upTo_zero := h.upTo_zero
    mono := h.mono
    upTo_le := h.upTo_le
    newest_eq := ?_
    tidy := h.tidy
    unacked_le := h.unacked_le
    flow := ?_
    earlier := ?_
    confirmed := ?_
    acks_received := h.acks_received
    acks_slack := ?_
    acks_top := h.acks_top
    acked_received := h.acked_received }
  · intro y hy
    have := h.received_le y hy
    rw [Party.sent_send]
    omega
  · rw [Party.upTo_send_of_le h.top_le]
    exact h.newest_eq
  · intro n hn
    rw [hback hn]
    exact h.flow hn
  · intro n hpos hn
    rw [hback hn]
    exact h.earlier hpos hn
  · intro n hn
    rw [hback hn]
    exact h.confirmed hn
  · intro n y hn hy
    rw [hback hn]
    exact h.acks_slack hn hy

/-! #### Receiving -/

/-- The newest acked packet after a packet was received. A late packet brings nothing newer; a
packet from ahead acks the newest packet it reports, which is still remembered. -/
theorem newest_receive (hKW : K < W) (h : Agree K S p q) (h' : Agree K S q p) {x : ℕ}
    (hx : x ≤ q.sent) :
    (p.receive W x (q.report x).acks).newest = q.upTo (max p.top x) := by
  have hacks : ∀ y ∈ (q.report x).acks, y ≤ q.upTo x := fun y hy => (h'.acks_received hx hy).2
  have hbound := Party.newest_foldl_le (W := W)
    (p := { p with received := insert x p.received, top := max p.top x }) hacks
  have hnewest := h.newest_eq
  dsimp only at hbound
  rw [Party.receive]
  rcases le_total x p.top with hle | hle
  · have := h'.mono hle h.top_le
    rw [max_eq_left hle] at hbound ⊢
    omega
  · have hmono := h'.mono hle hx
    rw [max_eq_right hle] at hbound ⊢
    rcases h'.acks_top hx with hzero | hmem
    · omega
    · have hunacked := h.unacked_le
      rw [h.newest_eq] at hunacked
      have hacked := Party.mem_acked_foldl (W := W)
        (p := { p with received := insert x p.received, top := x })
        (Or.inr ⟨hmem, show p.sent < q.upTo x + W by omega⟩)
      have htidy := Party.Tidy.foldl (W := W)
        (p := { p with received := insert x p.received, top := x })
        ⟨h.tidy.low, h.tidy.le_newest, h.tidy.newest_mem, h.tidy.nodup⟩ h.monotone_upTo
        (h.newest_le_sent h') fun y hy => ((hacks y hy).trans (h'.upTo_le hx)).trans h'.top_le
      have := htidy.le_newest _ hacked
      omega

theorem receive (hKW : K < W) (h : Agree K S p q) (h' : Agree K S q p) {x : ℕ} (hpos : 1 ≤ x)
    (hx : x ≤ q.sent) : Agree K S (p.receive W x (q.report x).acks) q := by
  have hsame := Party.sameTraffic_foldl (W := W) (q.report x).acks
    { p with received := insert x p.received, top := max p.top x }
  have hupTo : ∀ n, (p.receive W x (q.report x).acks).upTo n = p.upTo n := hsame.upTo
  have hsent : (p.receive W x (q.report x).acks).sent = p.sent := hsame.sent
  have hreport : (p.receive W x (q.report x).acks).report = p.report := hsame.report
  have hreceived : (p.receive W x (q.report x).acks).received = insert x p.received :=
    hsame.received
  have htop : (p.receive W x (q.report x).acks).top = max p.top x := hsame.top
  have hnewest := newest_receive hKW h h' hx
  have hacks : ∀ y ∈ (q.report x).acks, y ∈ q.received := fun y hy => (h'.acks_received hx hy).1
  refine {
    received_le := ?_
    le_top := ?_
    top_mem := ?_
    upTo_zero := by rw [hupTo]; exact h.upTo_zero
    mono := ?_
    upTo_le := ?_
    newest_eq := by rw [hnewest, htop]
    tidy := ?_
    unacked_le := ?_
    flow := ?_
    earlier := ?_
    confirmed := ?_
    acks_received := ?_
    acks_slack := ?_
    acks_top := ?_
    acked_received := ?_ }
  · intro y hy
    rw [hreceived] at hy
    rcases Set.mem_insert_iff.mp hy with rfl | hy
    · exact ⟨hpos, hx⟩
    · exact h.received_le y hy
  · intro y hy
    rw [hreceived] at hy
    rw [htop]
    rcases Set.mem_insert_iff.mp hy with rfl | hy
    · exact le_max_right _ _
    · exact (h.le_top y hy).trans (le_max_left _ _)
  · rw [htop, hreceived]
    rcases le_total p.top x with hle | hle
    · rw [max_eq_right hle]
      exact Or.inr (Set.mem_insert x _)
    · rw [max_eq_left hle]
      exact h.top_mem.imp_right (Set.mem_insert_of_mem x)
  · intro m n hmn hn
    rw [hupTo, hupTo]
    exact h.mono hmn (hsent ▸ hn)
  · intro n hn
    rw [hupTo, htop]
    exact (h.upTo_le (hsent ▸ hn)).trans (le_max_left _ _)
  · exact Party.Tidy.foldl (p := { p with received := insert x p.received, top := max p.top x })
      ⟨h.tidy.low, h.tidy.le_newest, h.tidy.newest_mem, h.tidy.nodup⟩ h.monotone_upTo
      (h.newest_le_sent h') fun y hy => (h'.received_le y (hacks y hy)).2
  · have hmono := h'.mono (le_max_left p.top x) (max_le h.top_le hx)
    have := h.unacked_le
    rw [h.newest_eq] at this
    rw [hsent, hnewest]
    omega
  · intro n hn
    rw [hupTo]
    exact h.flow (hsent ▸ hn)
  · intro n hn₁ hn
    rw [hupTo]
    exact h.earlier hn₁ (hsent ▸ hn)
  · intro n hn
    rw [hupTo]
    exact h.confirmed (hsent ▸ hn)
  · intro n y hn hy
    rw [hreport] at hy
    rw [hreceived, hupTo]
    have := h.acks_received (hsent ▸ hn) hy
    exact ⟨Set.mem_insert_of_mem x this.1, this.2⟩
  · intro n y hn hy
    rw [hreport] at hy
    rw [hupTo, hupTo]
    exact h.acks_slack (hsent ▸ hn) hy
  · intro n hn
    rw [hreport, hupTo]
    exact h.acks_top (hsent ▸ hn)
  · intro y hy
    rcases Party.acked_foldl_subset hy with hy | hy
    · exact h.acked_received y hy
    · exact hacks y hy

/-- The peer of a party that receives. -/
theorem receive_peer (h : Agree K S q p) {x : ℕ} {acks : List ℕ} :
    Agree K S q (p.receive W x acks) := by
  have hsame := Party.sameTraffic_foldl (W := W) acks
    { p with received := insert x p.received, top := max p.top x }
  have hupTo : ∀ n, (p.receive W x acks).upTo n = p.upTo n := hsame.upTo
  have hreceived : (p.receive W x acks).received = insert x p.received := hsame.received
  refine {
    received_le := fun y hy => (show p.sent = (p.receive W x acks).sent from hsame.sent.symm) ▸
      h.received_le y hy
    le_top := h.le_top
    top_mem := h.top_mem
    upTo_zero := h.upTo_zero
    mono := h.mono
    upTo_le := h.upTo_le
    newest_eq := by rw [hupTo]; exact h.newest_eq
    tidy := h.tidy
    unacked_le := h.unacked_le
    flow := ?_
    earlier := ?_
    confirmed := ?_
    acks_received := h.acks_received
    acks_slack := ?_
    acks_top := h.acks_top
    acked_received := ?_ }
  · intro n hn
    rw [hupTo]
    exact h.flow hn
  · intro n hpos hn
    rw [hupTo]
    exact h.earlier hpos hn
  · intro n hn
    rw [hupTo, hreceived]
    exact (h.confirmed hn).imp_right (Set.mem_insert_of_mem x)
  · intro n y hn hy
    rw [hupTo]
    exact h.acks_slack hn hy
  · intro y hy
    rw [hreceived]
    exact Set.mem_insert_of_mem x (h.acked_received y hy)

end Agree

/-! ### Several sends in a row -/

/-- `p'` is `p` after some sends. -/
inductive Sends (K S : ℕ) : Party → Party → Prop
  | refl (p : Party) : Sends K S p p
  | step {p p' : Party} {acks : List ℕ} (h : CanSend K S p acks)
    (hrest : Sends K S (p.send acks) p') :
    Sends K S p p'

namespace Sends

variable {K S : ℕ} {p p' q : Party}

theorem agree (h : Sends K S p p') (hp : Agree K S p q) (hq : Agree K S q p) :
    Agree K S p' q ∧ Agree K S q p' := by
  induction h with
  | refl p => exact ⟨hp, hq⟩
  | step hacks _ ih => exact ih (hp.send hq hacks) hq.send_peer

/-- What sending leaves alone: what was received and acked, and the packets sent before. -/
theorem frame (h : Sends K S p p') : p'.received = p.received ∧ p'.top = p.top ∧
    p'.acked = p.acked ∧ p.sent ≤ p'.sent ∧ ∀ n ≤ p.sent, p'.report n = p.report n := by
  induction h with
  | refl p => exact ⟨rfl, rfl, rfl, le_rfl, fun _ _ => rfl⟩
  | step _ _ ih =>
    obtain ⟨hreceived, htop, hacked, hsent, hreport⟩ := ih
    rw [Party.sent_send] at hsent hreport
    refine ⟨hreceived, htop, hacked, by omega, fun n hn => ?_⟩
    rw [hreport n (by omega), Party.report_send_of_le hn]

end Sends

/-! ### Everything below the watermark was reported -/

/-- Each packet acks what was received when it was sent, except below the watermark of that moment.
A packet that comes late, below what was already reported, breaks this. -/
def Reported (p q : Party) : Prop :=
  ∀ n y, n ≤ p.sent → y ∈ p.received → y ≤ p.upTo n →
    y ∈ (p.report n).acks ∨ y ≤ p.upTo (q.upTo (p.upTo n))

namespace Reported

variable {K S W : ℕ} {p q : Party}

theorem start : Reported .start .start := fun _ _ _ h => h.elim

theorem send (h : Agree K S p q) (h' : Agree K S q p) {acks : List ℕ} (hacks : CanSend K S p acks)
    (hr : Reported p q) : Reported (p.send acks) q := by
  intro n y hn hy hle
  have hback : ∀ {m}, m ≤ q.sent → q.upTo m ≤ p.sent := fun hm => (h'.upTo_le hm).trans h'.top_le
  rw [Party.sent_send] at hn
  rcases Nat.lt_or_ge p.sent n with hnew | hold
  · obtain rfl : n = p.sent + 1 := by omega
    rw [Party.upTo_send_self] at hle ⊢
    rw [Party.report_send_self, Party.upTo_send_of_le (hback h.top_le), ← h.low_eq]
    rcases Nat.lt_or_ge p.low y with hlow | hlow
    · exact Or.inl (hacks.complete y hy hlow)
    · exact Or.inr hlow
  · rw [Party.upTo_send_of_le hold] at hle ⊢
    rw [Party.report_send_of_le hold,
      Party.upTo_send_of_le (hback ((h.upTo_le hold).trans h.top_le))]
    exact hr n y hold hy hle

theorem send_peer (h : Agree K S q p) {acks : List ℕ} (hr : Reported q p) :
    Reported q (p.send acks) := by
  intro n y hn hy hle
  rw [Party.upTo_send_of_le ((h.upTo_le hn).trans h.top_le)]
  exact hr n y hn hy hle

/-- A packet above everything reported so far was not overlooked by any report. -/
theorem receive (h : Agree K S p q) {x : ℕ} {acks : List ℕ} (hx : p.upTo p.sent < x)
    (hr : Reported p q) : Reported (p.receive W x acks) q := by
  have hsame := Party.sameTraffic_foldl (W := W) acks
    { p with received := insert x p.received, top := max p.top x }
  have hupTo : ∀ n, (p.receive W x acks).upTo n = p.upTo n := hsame.upTo
  have hsent : (p.receive W x acks).sent = p.sent := hsame.sent
  have hreport : (p.receive W x acks).report = p.report := hsame.report
  have hreceived : (p.receive W x acks).received = insert x p.received := hsame.received
  intro n y hn hy hle
  rw [hsent] at hn
  rw [hreceived] at hy
  rw [hupTo] at hle
  rw [hreport, hupTo, hupTo]
  rcases Set.mem_insert_iff.mp hy with rfl | hy
  · have := h.mono hn le_rfl
    omega
  · exact hr n y hn hy hle

theorem receive_peer {x : ℕ} {acks : List ℕ} (hr : Reported q p) :
    Reported q (p.receive W x acks) := by
  have hsame := Party.sameTraffic_foldl (W := W) acks
    { p with received := insert x p.received, top := max p.top x }
  have hupTo : ∀ n, (p.receive W x acks).upTo n = p.upTo n := hsame.upTo
  intro n y hn hy hle
  rw [hupTo]
  exact hr n y hn hy hle

theorem sends {p' : Party} (hs : Sends K S p p') (h : Agree K S p q) (h' : Agree K S q p)
    (hr : Reported p q) : Reported p' q := by
  induction hs with
  | refl p => exact hr
  | step hacks _ ih => exact ih (h.send h' hacks) h'.send_peer (send h h' hacks hr)

theorem sends_peer {p' : Party} (hs : Sends K S p p') (h : Agree K S p q) (h' : Agree K S q p)
    (hr : Reported q p) : Reported q p' := by
  induction hs with
  | refl p => exact hr
  | step hacks _ ih => exact ih (h.send h' hacks) h'.send_peer (send_peer h' hr)

/-- What a packet of `p` that reached `q` covers was acked by it or by an earlier one that reached
`q`: below the watermark of its moment, the packet that moved the watermark there takes over. -/
theorem exists_report_of_le (h : Agree K S p q) (hr : Reported p q) {y : ℕ} (hy : y ∈ p.received)
    (z : ℕ) (hz : z ≤ p.sent) (hmem : z ∈ q.received) (hle : y ≤ p.upTo z) :
    ∃ z' ∈ q.received, y ∈ (p.report z').acks := by
  have hypos := (h.received_le y hy).1
  induction z using Nat.strong_induction_on with
  | _ z ih =>
    rcases hr z y hz hy hle with hack | hlow
    · exact ⟨z, hmem, hack⟩
    · have hzpos : 1 ≤ z := by
        rcases Nat.eq_zero_or_pos z with rfl | hpos
        · rw [h.upTo_zero] at hle
          omega
        · exact hpos
      have hearlier := h.earlier hzpos hz
      rcases h.confirmed hz with hzero | hconf
      · rw [hzero, h.upTo_zero] at hlow
        omega
      · exact ih _ hearlier (by omega) hconf hlow

/-- **The watermark is sound**, as long as no packet came late: whatever was received at or below it
was acked by a packet that has reached the peer. -/
theorem exists_report (h : Agree K S p q) (h' : Agree K S q p) (hr : Reported p q) {y : ℕ}
    (hy : y ∈ p.received) (hle : y ≤ p.low) : ∃ z ∈ q.received, y ∈ (p.report z).acks := by
  have hypos := (h.received_le y hy).1
  rw [h.tidy.low] at hle
  rcases h.tidy.newest_mem with hzero | hmem
  · rw [hzero, h.upTo_zero] at hle
    omega
  · exact exists_report_of_le h hr hy p.newest (h.newest_le_sent h')
      (h.acked_received _ hmem) hle

end Reported

end AckProtocol
