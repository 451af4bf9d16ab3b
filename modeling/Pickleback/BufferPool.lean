import Pickleback.Basic
import Mathlib.Data.List.Sort

/-!
# Buffer pools

`buffer_pool.rs` and the limited writer of `cursor.rs`. A `Vec<u8>` is its bytes together with its
capacity; the capacity matters only to the pools, which file a returned buffer by it.

A pool configuration of the model is never empty (see `PicklebackConfig`), so `BufPool` keeps its
last pool apart: `self.pools.last_mut().unwrap()` is a field.
-/

namespace Pickleback

/-- `PooledBuffer(Vec<u8>)`: the bytes written so far and the allocated capacity. -/
structure PooledBuffer where
  data : List UInt8
  capacity : ℕ
  deriving DecidableEq, Repr

namespace PooledBuffer

/-- `Vec::with_capacity`. -/
def withCapacity (n : ℕ) : PooledBuffer := ⟨[], n⟩

/-- `PooledBuffer::default()`, which `mem::take` leaves behind. -/
def empty : PooledBuffer := ⟨[], 0⟩

/-- `Vec::clear` keeps the allocation. -/
def clear (b : PooledBuffer) : PooledBuffer := { b with data := [] }

/-- Appending bytes. Past the capacity the vector reallocates, at least doubling. -/
def write (b : PooledBuffer) (bytes : List UInt8) : PooledBuffer where
  data := b.data ++ bytes
  capacity :=
    if b.data.length + bytes.length ≤ b.capacity then b.capacity
    else max (max (2 * b.capacity) (b.data.length + bytes.length)) 8

/-- `Vec::clone` allocates exactly what it needs. -/
def clone (b : PooledBuffer) : PooledBuffer := ⟨b.data, b.data.length⟩

@[simp] theorem data_withCapacity (n : ℕ) : (withCapacity n).data = [] := rfl

@[simp] theorem data_clear (b : PooledBuffer) : b.clear.data = [] := rfl

@[simp] theorem data_write (b : PooledBuffer) (bytes : List UInt8) :
    (b.write bytes).data = b.data ++ bytes := rfl

@[simp] theorem data_clone (b : PooledBuffer) : b.clone.data = b.data := rfl

end PooledBuffer

/-- `Pool`. The top of the stack of free buffers is the head of the list. -/
structure Pool where
  buffers : List PooledBuffer
  config : PoolConfig
  overflowAllocations : ℕ
  discardedCheckins : ℕ
  deriving DecidableEq, Repr

namespace Pool

/-- `Pool::new`. -/
def new (config : PoolConfig) : Pool where
  buffers := List.replicate config.startingSize (PooledBuffer.withCapacity config.bufferCapacity)
  config := config
  overflowAllocations := 0
  discardedCheckins := 0

/-- `Pool::checkout`. -/
def checkout (p : Pool) : PooledBuffer × Pool :=
  match p.buffers with
  | existing :: rest => (existing.clear, { p with buffers := rest })
  | [] =>
    (PooledBuffer.withCapacity p.config.bufferCapacity,
      { p with overflowAllocations := p.overflowAllocations + 1 })

/-- `Pool::checkin`. -/
def checkin (p : Pool) (buffer : PooledBuffer) : Pool :=
  if p.buffers.length ≥ p.config.maxSize then
    { p with discardedCheckins := p.discardedCheckins + 1 }
  else { p with buffers := buffer :: p.buffers }

@[simp] theorem data_checkout (p : Pool) : p.checkout.1.data = [] := by
  unfold checkout
  split <;> rfl

end Pool

/-- `BufPool`: pools of growing capacity, the last one apart. -/
structure BufPool where
  pools : List (PoolConfig × Pool)
  last : PoolConfig × Pool
  deriving DecidableEq, Repr

namespace BufPool

/-- `BufPool::new`, on a first configuration and the others: a stable sort by capacity. -/
def new (config : PoolConfig) (configs : List PoolConfig) : BufPool :=
  let sorted := (config :: configs).insertionSort fun a b => a.bufferCapacity ≤ b.bufferCapacity
  let pools := sorted.map fun c => (c, Pool.new c)
  ⟨pools.dropLast, pools.getLastD (config, Pool.new config)⟩

/-- `BufPool::default()`. -/
def default : BufPool :=
  new ⟨1000, 1000000, 64⟩ [⟨1000, 100000, 256⟩, ⟨100, 10000, 1200⟩, ⟨0, 10, 2048⟩]

/-- `BufPool::full_packets_only()`. -/
def fullPacketsOnly : BufPool := new ⟨1, 10, 1500⟩ []

/-- The pool a capacity is served from, and filed under. -/
def serves (config : PoolConfig) (minSize : ℕ) : Bool :=
  decide (config.bufferCapacity ≥ minSize) || decide (config.bufferCapacity = 0)

/-- The `get_buffer` loop over all pools but the last, which serves whatever is left. -/
def getBufferFrom (minSize : ℕ) :
    List (PoolConfig × Pool) → PoolConfig × Pool →
      PooledBuffer × List (PoolConfig × Pool) × (PoolConfig × Pool)
  | [], last => (last.2.checkout.1, [], (last.1, last.2.checkout.2))
  | p :: ps, last =>
    if serves p.1 minSize then (p.2.checkout.1, (p.1, p.2.checkout.2) :: ps, last)
    else
      let r := getBufferFrom minSize ps last
      (r.1, p :: r.2.1, r.2.2)

/-- `BufPool::get_buffer`. -/
def getBuffer (b : BufPool) (minSize : ℕ) : PooledBuffer × BufPool :=
  let r := getBufferFrom minSize b.pools b.last
  (r.1, ⟨r.2.1, r.2.2⟩)

/-- The `return_buffer` loop over all pools but the last. -/
def returnBufferTo (buffer : PooledBuffer) :
    List (PoolConfig × Pool) → PoolConfig × Pool → List (PoolConfig × Pool) × (PoolConfig × Pool)
  | [], last => ([], (last.1, last.2.checkin buffer))
  | p :: ps, last =>
    if serves p.1 buffer.capacity then ((p.1, p.2.checkin buffer) :: ps, last)
    else
      let r := returnBufferTo buffer ps last
      (p :: r.1, r.2)

/-- `BufPool::return_buffer`. -/
def returnBuffer (b : BufPool) (buffer : PooledBuffer) : BufPool :=
  let r := returnBufferTo buffer b.pools b.last
  ⟨r.1, r.2⟩

/-- Returning several buffers, in order. -/
def returnBuffers (b : BufPool) (buffers : List PooledBuffer) : BufPool :=
  buffers.foldl returnBuffer b

/-- A buffer from the pool is empty. -/
@[simp] theorem data_getBuffer (b : BufPool) (minSize : ℕ) : (b.getBuffer minSize).1.data = [] := by
  suffices h : ∀ ps last, (getBufferFrom minSize ps last).1.data = [] from h b.pools b.last
  intro ps
  induction ps with
  | nil => intro last; simp [getBufferFrom]
  | cons p ps ih =>
    intro last
    unfold getBufferFrom
    split
    · simp
    · exact ih last

end BufPool

/-! ### The limited writer -/

/-- `BufferLimitedWriter`: a buffer and the number of bytes that may be written to it. -/
structure WriteLimiter where
  buffer : PooledBuffer
  limit : ℕ
  written : ℕ
  deriving DecidableEq, Repr

namespace WriteLimiter

/-- `WriteLimiter::new`. -/
def new (buffer : PooledBuffer) (limit : ℕ) : WriteLimiter := ⟨buffer, limit, 0⟩

/-- `WriteLimiter::remaining`. -/
def remaining (w : WriteLimiter) : ℕ := w.limit - w.written

/-- `write_all` through the limiter: whatever does not fit whole is a `WriteZero` error. -/
def writeAll (w : WriteLimiter) (bytes : List UInt8) : Except PicklebackError WriteLimiter :=
  if bytes.length ≤ w.remaining then
    .ok { w with buffer := w.buffer.write bytes, written := w.written + bytes.length }
  else .error (.io .writeZero)

theorem writeAll_of_le {w : WriteLimiter} {bytes : List UInt8} (h : bytes.length ≤ w.remaining) :
    w.writeAll bytes
      = .ok { w with buffer := w.buffer.write bytes, written := w.written + bytes.length } := by
  simp [writeAll, h]

end WriteLimiter

end Pickleback
