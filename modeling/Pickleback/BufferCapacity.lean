import Pickleback.Sending

/-!
# The capacity of pooled buffers

`get_buffer` promises a buffer of at least the capacity that was asked for, whenever one of the
pools is for buffers that large. It hands out whatever the first such pool holds, so the promise
rests on every pool holding only buffers as large as it is for. `return_buffer` files a buffer under
the first pool that is for buffers at least as large as this one: a buffer that came back smaller
than its pool, such as the clone of a message, is filed where it is too small.

## Main definitions

* `BufPool.Promises` — what `get_buffer` is documented to do
* `BufPool.Stocked` — every pool holds buffers at least as large as it is for
* `BufPool.Fits` — where a returned buffer is filed, it is large enough

## Main results

* `promises_step_iff`, `promises_run_iff` — a run keeps the promise exactly if every returned buffer
  fits
* `not_promises_of_clone` — a reliable message that was sent breaks it
-/

namespace Pickleback

namespace BufPool

/-! ### The pools as one list -/

/-- All pools, the last one included. -/
def all (b : BufPool) : List (PoolConfig × Pool) := b.pools ++ [b.last]

/-- The first pool that a capacity is served from, and filed under; the last one if there is
none. -/
def poolFor (b : BufPool) (minSize : ℕ) : PoolConfig × Pool :=
  (b.pools.find? fun p => serves p.1 minSize).getD b.last

/-- **The promise**: an empty buffer of at least the capacity asked for, if there is a pool for
it. -/
def Promises (b : BufPool) : Prop :=
  ∀ minSize, (∃ p ∈ b.all, minSize ≤ p.1.bufferCapacity) →
    (b.getBuffer minSize).1.data = [] ∧ minSize ≤ (b.getBuffer minSize).1.capacity

/-- Every pool is for buffers of some capacity, and holds only buffers that large. -/
structure Stocked (b : BufPool) : Prop where
  config : ∀ p ∈ b.all, p.2.config = p.1
  pos : ∀ p ∈ b.all, 0 < p.1.bufferCapacity
  large : ∀ p ∈ b.all, ∀ buffer ∈ p.2.buffers, p.1.bufferCapacity ≤ buffer.capacity

/-- The pool that a returned buffer is filed under is full, or is for buffers no larger than it. -/
def Fits (b : BufPool) (buffer : PooledBuffer) : Prop :=
  (b.poolFor buffer.capacity).2.buffers.length < (b.poolFor buffer.capacity).1.maxSize →
    (b.poolFor buffer.capacity).1.bufferCapacity ≤ buffer.capacity

theorem poolFor_mem (b : BufPool) (minSize : ℕ) : b.poolFor minSize ∈ b.all := by
  rw [poolFor, all, List.mem_append]
  cases h : b.pools.find? fun p => serves p.1 minSize with
  | none => exact Or.inr (List.mem_singleton_self _)
  | some p => exact Or.inl (List.mem_of_find?_eq_some h)

/-- The buffer handed out is from the pool for its capacity. -/
theorem getBuffer_fst (b : BufPool) (minSize : ℕ) :
    (b.getBuffer minSize).1 = (b.poolFor minSize).2.checkout.1 := by
  suffices h : ∀ ps last, (getBufferFrom minSize ps last).1
      = ((ps.find? fun p => serves p.1 minSize).getD last).2.checkout.1 from h b.pools b.last
  intro ps last
  induction ps with
  | nil => rfl
  | cons p ps ih =>
    rw [getBufferFrom, List.find?_cons]
    cases hp : serves p.1 minSize with
    | true => rfl
    | false => exact ih

/-- The pools, with a change to the one for a capacity. -/
def modifyFrom (minSize : ℕ) (f : Pool → Pool) :
    List (PoolConfig × Pool) → PoolConfig × Pool → List (PoolConfig × Pool) × (PoolConfig × Pool)
  | [], last => ([], (last.1, f last.2))
  | p :: ps, last =>
    if serves p.1 minSize then ((p.1, f p.2) :: ps, last)
    else
      let r := modifyFrom minSize f ps last
      (p :: r.1, r.2)

/-- A change to the pool for a capacity. -/
def modify (b : BufPool) (minSize : ℕ) (f : Pool → Pool) : BufPool :=
  let r := modifyFrom minSize f b.pools b.last
  ⟨r.1, r.2⟩

/-- Handing out a buffer changes the pool it came from. -/
theorem getBuffer_snd (b : BufPool) (minSize : ℕ) :
    (b.getBuffer minSize).2 = b.modify minSize fun p => p.checkout.2 := by
  suffices h : ∀ ps last, (getBufferFrom minSize ps last).2
      = modifyFrom minSize (fun p => p.checkout.2) ps last by
    rw [getBuffer, modify, h]
  intro ps last
  induction ps with
  | nil => rfl
  | cons p ps ih =>
    rw [getBufferFrom, modifyFrom, ← ih]
    split <;> rfl

/-- Filing a buffer changes the pool it goes to. -/
theorem returnBuffer_eq (b : BufPool) (buffer : PooledBuffer) :
    b.returnBuffer buffer = b.modify buffer.capacity fun p => p.checkin buffer := by
  suffices h : ∀ ps last, returnBufferTo buffer ps last
      = modifyFrom buffer.capacity (fun p => p.checkin buffer) ps last by
    rw [returnBuffer, modify, h]
  intro ps last
  induction ps with
  | nil => rfl
  | cons p ps ih => rw [returnBufferTo, modifyFrom, ih]

section Modify

variable {b : BufPool} {minSize : ℕ} {f : Pool → Pool}

theorem mem_modify {p' : PoolConfig × Pool} (h : p' ∈ (b.modify minSize f).all) :
    p' ∈ b.all ∨ p' = ((b.poolFor minSize).1, f (b.poolFor minSize).2) := by
  suffices key : ∀ ps last, p' ∈ (modifyFrom minSize f ps last).1 ++
    [(modifyFrom minSize f ps last).2] →
      p' ∈ ps ++ [last] ∨ p' = (((ps.find? fun p => serves p.1 minSize).getD last).1,
        f ((ps.find? fun p => serves p.1 minSize).getD last).2) from key b.pools b.last h
  intro ps last hp'
  induction ps with
  | nil => exact Or.inr (List.mem_singleton.mp hp')
  | cons p ps ih =>
    rw [modifyFrom] at hp'
    rw [List.find?_cons]
    cases hp : serves p.1 minSize with
    | true =>
      rw [hp, if_pos rfl, List.cons_append, List.mem_cons] at hp'
      rcases hp' with rfl | hp'
      · exact Or.inr rfl
      · exact Or.inl (List.mem_cons_of_mem _ hp')
    | false =>
      rw [hp, if_neg Bool.false_ne_true, List.cons_append, List.mem_cons] at hp'
      rcases hp' with rfl | hp'
      · exact Or.inl (List.mem_cons_self ..)
      · exact (ih hp').imp (List.mem_cons_of_mem _) id

/-- The changed pool is the one for any capacity between the one it was found by and its own. -/
theorem poolFor_modify {size : ℕ} (hle : minSize ≤ size)
    (hsize : size ≤ (b.poolFor minSize).1.bufferCapacity)
    (hpos : ∀ p ∈ b.all, 0 < p.1.bufferCapacity) :
    (b.modify minSize f).poolFor size = ((b.poolFor minSize).1, f (b.poolFor minSize).2) := by
  suffices key : ∀ ps last, (∀ p ∈ ps, 0 < p.1.bufferCapacity) →
      size ≤ ((ps.find? fun p => serves p.1 minSize).getD last).1.bufferCapacity →
      ((modifyFrom minSize f ps last).1.find? fun p => serves p.1 size).getD
        (modifyFrom minSize f ps last).2
        = (((ps.find? fun p => serves p.1 minSize).getD last).1,
            f ((ps.find? fun p => serves p.1 minSize).getD last).2) from
    key b.pools b.last (fun p hp => hpos p (List.mem_append_left _ hp)) hsize
  intro ps last hps hsize
  induction ps with
  | nil => rfl
  | cons p ps ih =>
    rw [modifyFrom]
    rw [List.find?_cons] at hsize ⊢
    cases hp : serves p.1 minSize with
    | true =>
      rw [hp] at hsize
      have hserves : serves p.1 size = true := by simpa [serves] using Or.inl hsize
      simp [hserves]
    | false =>
      rw [hp] at hsize
      have hnot : serves p.1 size = false := by
        have := hps p (List.mem_cons_self ..)
        simp only [serves, Bool.or_eq_false_iff, decide_eq_false_iff_not] at hp ⊢
        omega
      rw [if_neg Bool.false_ne_true, List.find?_cons, hnot]
      exact ih (fun p hp => hps p (List.mem_cons_of_mem _ hp)) hsize

end Modify

/-! ### Keeping the promise -/

/-- A pool that holds only large buffers hands out a large one. -/
theorem le_capacity_checkout {p : PoolConfig × Pool} (hconfig : p.2.config = p.1)
    (hlarge : ∀ buffer ∈ p.2.buffers, p.1.bufferCapacity ≤ buffer.capacity) :
    p.1.bufferCapacity ≤ p.2.checkout.1.capacity := by
  rw [Pool.checkout]
  split
  · next existing rest hbuffers =>
    exact hlarge existing (by rw [hbuffers]; exact List.mem_cons_self ..)
  · rw [hconfig]
    exact le_rfl

/-- If any pool is for a capacity, the one it is served from is. -/
theorem le_poolFor {b : BufPool} (hpos : ∀ p ∈ b.all, 0 < p.1.bufferCapacity) {minSize : ℕ}
    (h : ∃ p ∈ b.all, minSize ≤ p.1.bufferCapacity) :
    minSize ≤ (b.poolFor minSize).1.bufferCapacity := by
  obtain ⟨p, hp, hle⟩ := h
  rw [poolFor]
  cases hfind : b.pools.find? fun p => serves p.1 minSize with
  | none =>
    rw [List.find?_eq_none] at hfind
    rcases List.mem_append.mp hp with hp | hp
    · exact absurd (by simpa [serves] using Or.inl hle) (hfind p hp)
    · rwa [List.mem_singleton.mp hp] at hle
  | some q =>
    have hq := List.find?_some hfind
    have hqpos := hpos q (List.mem_append_left _ (List.mem_of_find?_eq_some hfind))
    simp only [serves, Bool.or_eq_true, decide_eq_true_eq] at hq
    rw [Option.getD_some]
    omega

/-- **Stocked pools keep the promise.** -/
theorem Stocked.promises {b : BufPool} (h : b.Stocked) : b.Promises := by
  intro minSize hpool
  refine ⟨data_getBuffer b minSize, ?_⟩
  have hmem := b.poolFor_mem minSize
  rw [getBuffer_fst]
  exact (le_poolFor h.pos hpool).trans (le_capacity_checkout (h.config _ hmem) (h.large _ hmem))

/-! ### Runs -/

/-- The calls on the pools. -/
inductive Call where
  | getBuffer (minSize : ℕ)
  | returnBuffer (buffer : PooledBuffer)

/-- One call. -/
def step (b : BufPool) : Call → BufPool
  | .getBuffer minSize => (b.getBuffer minSize).2
  | .returnBuffer buffer => b.returnBuffer buffer

/-- A returned buffer fits. -/
def Allows (b : BufPool) : Call → Prop
  | .getBuffer _ => True
  | .returnBuffer buffer => b.Fits buffer

/-- At the start every pool is new. -/
theorem eq_new_of_mem_all {config : PoolConfig} {configs : List PoolConfig} {p : PoolConfig × Pool}
    (h : p ∈ (new config configs).all) : ∃ c ∈ config :: configs, p = (c, Pool.new c) := by
  have hsorted : ∀ p ∈ ((config :: configs).insertionSort fun a b =>
    a.bufferCapacity ≤ b.bufferCapacity).map
      (fun c => (c, Pool.new c)), ∃ c ∈ config :: configs, p = (c, Pool.new c) := by
    intro p hp
    obtain ⟨c, hc, rfl⟩ := List.mem_map.mp hp
    exact ⟨c, (List.perm_insertionSort _ _).subset hc, rfl⟩
  rcases List.mem_append.mp h with hp | hp
  · exact hsorted p (List.mem_of_mem_dropLast hp)
  · obtain rfl := List.mem_singleton.mp hp
    rcases List.mem_cons.mp (List.getLastD_mem_cons (a := (config, Pool.new config)))
      with hlast | hlast
    · exact ⟨config, List.mem_cons_self .., hlast⟩
    · exact hsorted _ hlast

theorem stocked_new {config : PoolConfig} {configs : List PoolConfig}
    (hpos : ∀ c ∈ config :: configs, 0 < c.bufferCapacity) : (new config configs).Stocked := by
  refine ⟨fun p hp => ?_, fun p hp => ?_, fun p hp buffer hbuffer => ?_⟩
  · obtain ⟨c, -, rfl⟩ := eq_new_of_mem_all hp
    rfl
  · obtain ⟨c, hc, rfl⟩ := eq_new_of_mem_all hp
    exact hpos c hc
  · obtain ⟨c, -, rfl⟩ := eq_new_of_mem_all hp
    obtain ⟨-, rfl⟩ := List.mem_replicate.mp hbuffer
    exact le_rfl

/-- A change to one pool that leaves it with large buffers. -/
theorem Stocked.modify {b : BufPool} (h : b.Stocked) {minSize : ℕ} {f : Pool → Pool}
    (hconfig : (f (b.poolFor minSize).2).config = (b.poolFor minSize).2.config)
    (hlarge : ∀ buffer ∈ (f (b.poolFor minSize).2).buffers,
      (b.poolFor minSize).1.bufferCapacity ≤ buffer.capacity) : (b.modify minSize f).Stocked := by
  have hmem := b.poolFor_mem minSize
  refine ⟨fun p hp => ?_, fun p hp => ?_, fun p hp => ?_⟩
  · obtain hp | rfl := mem_modify hp
    · exact h.config p hp
    · exact hconfig.trans (h.config _ hmem)
  · obtain hp | rfl := mem_modify hp
    · exact h.pos p hp
    · exact h.pos (b.poolFor minSize) hmem
  · obtain hp | rfl := mem_modify hp
    · exact h.large p hp
    · exact hlarge

/-- Stocked pools stay so, as long as what is returned fits. -/
theorem Stocked.step {b : BufPool} (h : b.Stocked) {c : Call} (hc : b.Allows c) :
    (b.step c).Stocked := by
  cases c with
  | getBuffer minSize =>
    have hlarge := h.large _ (b.poolFor_mem minSize)
    rw [BufPool.step, getBuffer_snd]
    refine h.modify ?_ fun buffer hbuffer => ?_
    · rw [Pool.checkout]
      split <;> rfl
    · rw [Pool.checkout] at hbuffer
      split at hbuffer
      · next existing rest hbuffers =>
        exact hlarge buffer (by rw [hbuffers]; exact List.mem_cons_of_mem _ hbuffer)
      · exact hlarge buffer hbuffer
  | returnBuffer buffer =>
    have hmem := b.poolFor_mem buffer.capacity
    rw [BufPool.step, returnBuffer_eq]
    refine h.modify ?_ fun buffer' hbuffer' => ?_
    · rw [Pool.checkin]
      split <;> rfl
    · rw [Pool.checkin, h.config _ hmem] at hbuffer'
      split at hbuffer'
      · exact h.large _ hmem buffer' hbuffer'
      · next hroom =>
        rcases List.mem_cons.mp hbuffer' with rfl | hbuffer'
        · exact hc (by omega)
        · exact h.large _ hmem buffer' hbuffer'

/-- **One call** keeps the promise exactly if what it returns fits. -/
theorem promises_step_iff {b : BufPool} (h : b.Stocked) (c : Call) :
    (b.step c).Promises ↔ b.Allows c := by
  refine ⟨fun hpromises => ?_, fun hc => (h.step hc).promises⟩
  cases c with
  | getBuffer minSize => trivial
  | returnBuffer buffer =>
    intro hroom
    by_contra hsmall
    -- the buffer lies on top of a pool that is for larger ones
    have hmem := b.poolFor_mem buffer.capacity
    set p := b.poolFor buffer.capacity with hp
    have hfor : (b.returnBuffer buffer).poolFor p.1.bufferCapacity = (p.1, p.2.checkin buffer) := by
      rw [returnBuffer_eq]
      exact poolFor_modify (by omega) le_rfl h.pos
    have htop : (p.2.checkin buffer).checkout.1 = buffer.clear := by
      rw [Pool.checkin, h.config _ hmem, if_neg (by omega), Pool.checkout]
    have hgot := (hpromises p.1.bufferCapacity
      ⟨_, (b.returnBuffer buffer).poolFor_mem p.1.bufferCapacity, by rw [hfor]⟩).2
    rw [BufPool.step, getBuffer_fst, hfor, htop] at hgot
    exact hsmall hgot

/-- **A run** keeps the promise in every state it reaches exactly if all buffers that it returns
fit. -/
theorem promises_run_iff {config : PoolConfig} {configs : List PoolConfig}
    (hpos : ∀ c ∈ config :: configs, 0 < c.bufferCapacity) (calls : List Call) :
    (∀ calls', calls' <+: calls → (calls'.foldl step (new config configs)).Promises) ↔
      ∀ calls' c, calls' ++ [c] <+: calls → (calls'.foldl step (new config configs)).Allows c :=
  forall_prefix_iff (stocked_new hpos).promises (stocked_new hpos)
    (fun _ c h => promises_step_iff h c)
    (fun _ _ h hc => h.step hc) calls

/-- Three pools. A buffer larger than any of them is for comes back, and is handed out for 600
bytes. -/
theorem promises_run_iff_returned :
    ∃ b, b = [Call.getBuffer 10, .getBuffer 100, .returnBuffer ⟨[1], 2000⟩,
      .returnBuffer ⟨[1, 2], 256⟩].foldl
      step (new ⟨10, 10, 64⟩ [⟨0, 10, 256⟩, ⟨0, 10, 1024⟩]) ∧ (b.getBuffer 600).1.capacity = 2000 ∧
      b.Promises := by
  refine ⟨_, rfl, by decide, ?_⟩
  refine (promises_run_iff (by decide) [Call.getBuffer 10, .getBuffer 100,
    .returnBuffer ⟨[1], 2000⟩,
    .returnBuffer ⟨[1, 2], 256⟩]).mpr ?_ _ List.prefix_rfl
  refine forall_prefix_cons trivial (forall_prefix_cons trivial (forall_prefix_cons ?_
    (forall_prefix_cons ?_ forall_prefix_nil)))
  · show Fits _ _
    rw [Fits]
    decide
  · show Fits _ _
    rw [Fits]
    decide

/-- An endpoint that has sent a reliable message of 100 bytes once has a clone of capacity 104 in
its pool for 256, and hands it out when 200 bytes are asked for. -/
theorem not_promises_of_clone :
    ∃ p, (Endpoint.new true .default 0).run
    [.setXorSalt (some 7), .sendMessage 1 (List.replicate 100 0),
      .visitPacketsToSend] = .ok p ∧ ¬ p.pool.Promises := by
  obtain ⟨p, hrun, htest⟩ := exists_of_any_toOption (show ((Endpoint.new true .default 0).run
      [.setXorSalt (some 7), .sendMessage 1 (List.replicate 100 0),
        .visitPacketsToSend]).toOption.any
        (fun p => p.pool.all.any (fun q => 200 ≤ q.1.bufferCapacity) &&
          decide ((p.pool.getBuffer 200).1.capacity < 200)) = true by decide +kernel)
  simp only [Bool.and_eq_true, List.any_eq_true, decide_eq_true_eq] at htest
  refine ⟨p, hrun, fun hpromises => ?_⟩
  have := (hpromises 200 htest.1).2
  omega

end BufPool

end Pickleback
