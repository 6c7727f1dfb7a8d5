/-
# `ConcurrentUnorderedMap.State` — what the threads of a `concurrent_unordered_map` share

The data model of `boost::spinlock::concurrent_unordered_map` (src/unittests.cpp,
lines 62–401), as the steps of `ConcurrentUnorderedMap.Step` read and write it.

    code                                  here
    item_type { p; hash; }                Slot      (pointer, lock bit, cached hash)
    bucket_type { entered; exited;        Bucket
                  resize_lock; count;
                  items; }
    the allocator's blocks                Block     (allocate / construct / destroy / deallocate)
    concurrent_unordered_map              Map       (_size, _buckets, the allocator)
    iterator { _itb; _offset; }           Iter

**Three choices of representation.**

* `items` and `count` are one field, `items : Option (List Slot)`: `none` is the null
  pointer of a fresh bucket, and `count` is the length of the list.  Every write of the
  code changes the two together (`resize` and `clear`), and the steps do so in one
  atomic step, so no step of the model sees one write without the other; in the code
  only a thread racing with that `resize` or `clear` could.
* `entered` and `exited` are `std::atomic<unsigned>`.  They are kept here as the number
  of increments made so far, and every load reads it modulo `2^32`
  (`Bucket.load`); with increments as the only writes that is the unsigned counter.
* `spinlock<locked_ptr<value_type>>` (the slot cell) and `spinlock<bool>` come from
  `spinlock.hpp`, which is not in the repository.  Their operations are modelled from
  the spec's §4.2: `try_lock` moves unlocked to locked, `unlock` clears the lock bit,
  `get` reads the pointer, `set` stores a pointer and keeps the lock, and the move that
  `detach` makes leaves the cell null and unlocked.
-/
import Mathlib.Data.List.Basic

namespace ConcurrentUnorderedMap

/-! ## Slots and buckets -/

/-- `item_type`: the slot cell's pointer (an address of the allocator, `none` for
`nullptr`), its lock bit, and the cached `hash`. -/
@[ext] structure Slot where
  ptr : Option Nat
  locked : Bool
  hash : Nat
deriving DecidableEq, Repr

namespace Slot

/-- The slot `resize` appends: `memset(n+count, 0, newbytes-oldbytes)`. -/
def zero : Slot := ⟨none, false, 0⟩

/-- Modelled from the spec: `p.load()` reads the cell's word, which is zero exactly when
the pointer is null and the lock bit is clear (§4.2, "a word-sized atomic cell"). -/
def vacant (sl : Slot) : Bool := sl.ptr.isNone && !sl.locked

/-- Modelled from the spec: `p.lock()` and a successful `p.try_lock()` set the lock bit. -/
def lock (sl : Slot) : Slot := { sl with locked := true }

/-- Modelled from the spec: `p.unlock()` clears the lock bit. -/
def unlock (sl : Slot) : Slot := { sl with locked := false }

/-- `item_type::set(ret, _hash)`: `p.set(ret)` stores the pointer and, modelled from the
spec (§4.2, "`set(p)` stores a new pointer (requires the lock)"), keeps the lock bit;
then `hash=_hash`. -/
def set (sl : Slot) (a h : Nat) : Slot := { sl with ptr := some a, hash := h }

/-- The first line of `item_type::detach`, `spinlock<...> l(std::move(p))`.  Modelled
from the spec: the move "atomically extracts the payload and leaves the cell
empty-and-unlocked" (§4.2); the hash is left as it was. -/
def moveOut (sl : Slot) : Slot := { sl with ptr := none, locked := false }

end Slot

/-- `bucket_type`.  `entered` and `exited` count increments (see the header). -/
structure Bucket where
  entered : Nat
  exited : Nat
  resizeLock : Bool
  items : Option (List Slot)
deriving DecidableEq, Repr

namespace Bucket

/-- `bucket_type() : entered(0), exited(0), count(0), items(nullptr)`. -/
def init : Bucket := ⟨0, 0, false, none⟩

/-- `count`. -/
def count (b : Bucket) : Nat := (b.items.getD []).length

/-- A load of an `std::atomic<unsigned>` counter: the count modulo `2^32`. -/
def load (n : Nat) : Nat := n % 4294967296

/-- `items + i`, read. -/
def slot? (b : Bucket) (i : Nat) : Option Slot := b.items.bind (·.get? i)

/-- `items + i`, written. -/
def setSlot (b : Bucket) (i : Nat) (sl : Slot) : Bucket :=
  { b with items := b.items.map (·.set i sl) }

/-- The array `realloc(items, newbytes)` (or `malloc`) returns once `memset` has zeroed
the tail: the first `newsize` slots kept, zeroed slots past the old count. -/
def resized (b : Bucket) (newsize : Nat) : List Slot :=
  (b.items.getD []).take newsize ++ List.replicate (newsize - b.count) Slot.zero

end Bucket

/-! ## The allocator and the map -/

/-- One block of the allocator: the `n` it was allocated with, the value constructed
in it, and how often it was destroyed and with which counts it was deallocated. -/
structure Block (K V : Type) where
  count : Nat
  value : Option (K × V)
  destroyed : Nat
  freed : List Nat
deriving DecidableEq, Repr

/-- `Hash`, `Pred` and `sizeof(value_type)`, the template's parameters the code reads. -/
structure Traits (K : Type) where
  hasher : K → Nat
  keyEqual : K → K → Bool
  valueSize : Nat

/-- The benchmark's `concurrent_unordered_map<int, int>` on the non-negative keys it
inserts: `std::hash<int>` is the identity there, `std::equal_to<int>`, and
`sizeof(std::pair<const int, int>)` is 8. -/
def intTraits : Traits Nat := ⟨id, (· == ·), 8⟩

/-- `concurrent_unordered_map`: `_size`, `_buckets`, and the blocks of `_allocator`,
addressed by their position. -/
structure Map (K V : Type) where
  size : Nat
  buckets : List Bucket
  heap : List (Block K V)
deriving DecidableEq, Repr

/-- An `iterator`: the index of `_itb` in `_buckets`, and `_offset`. -/
structure Iter where
  bucket : Nat
  offset : Nat
deriving DecidableEq, Repr

namespace Map

variable {K V : Type}

/-- `concurrent_unordered_map(size_t n) : _size(0), _buckets(n>0 ? n : 1)`. -/
def init (n : Nat) : Map K V :=
  ⟨0, List.replicate (if 0 < n then n else 1) Bucket.init, []⟩

/-- `_buckets[i]`. -/
def bucket? (m : Map K V) (i : Nat) : Option Bucket := m.buckets.get? i

/-- `_buckets[i]`, written. -/
def setBucket (m : Map K V) (i : Nat) (b : Bucket) : Map K V :=
  { m with buckets := m.buckets.set i b }

/-- The allocator's block at an address. -/
def block? (m : Map K V) (a : Nat) : Option (Block K V) := m.heap.get? a

/-- The allocator's block at an address, written. -/
def setBlock (m : Map K V) (a : Nat) (bl : Block K V) : Map K V :=
  { m with heap := m.heap.set a bl }

/-- `end()`: `_itb` at `_buckets.end()`, `_offset` 0. -/
def endIter (m : Map K V) : Iter := ⟨m.buckets.length, 0⟩

/-- `_get_bucket(k)`: `k % _buckets.size()`; `none` where that remainder is by zero. -/
def getBucket (m : Map K V) (k : Nat) : Option Nat :=
  if m.buckets.length = 0 then none else some (k % m.buckets.length)

/-- `_buckets.resize(n)` in `reserve`: the first `n` buckets kept, fresh ones appended. -/
def resizeBuckets (m : Map K V) (n : Nat) : List Bucket :=
  m.buckets.take n ++ List.replicate (n - m.buckets.length) Bucket.init

end Map

/-! ## Calls and what they return -/

/-- A call a thread makes on the map. -/
inductive Call (K V : Type)
  | find (k : K)
  | insert (k : K) (v : V)
  | erase (it : Iter)
  | clear
  | reserve (n : Nat)
deriving DecidableEq, Repr

/-- An exception that leaves a call: `std::bad_alloc` from `resize` or the allocator, one
thrown by the value's constructor, and `reserve`'s `std::runtime_error`. -/
inductive Exc
  | badAlloc
  | construct
  | runtimeError (what : String)
deriving DecidableEq, Repr

/-- What a call returns.  `fault` marks undefined behaviour: a remainder by zero, or an
access to a slot past the array. -/
inductive Ret
  | iter (it : Iter)
  | pair (it : Iter) (inserted : Bool)
  | unit
  | thrown (e : Exc)
  | fault
deriving DecidableEq, Repr

end ConcurrentUnorderedMap
