/-
# `ConcurrentUnorderedMap.Step` — one step of one thread

The interleaving semantics of the map.  A thread runs a list of calls; between two
of its steps any other thread may step.  One step is one access of shared memory
as the code makes it (an atomic increment, one load, a `try_lock`, one store), so
every interleaving the hardware can produce of the code's accesses is a sequence
of steps, with three coarsenings named where they are made:

* reading a slot's `hash` and its pointer in one scan iteration is one step;
* `!i->p.load() && i->p.try_lock()` is one step;
* the body of `resize` after its wait (`realloc`, `memset`, `items=`, `count=`),
  and that of `clear`, are one step each.

Coarsening only removes interleavings: up to the two readings below, a run of this
model is a run of the code, so the counterexamples built on it are runs of the code.

**Where the model reads for itself.**  The code keeps the pointer `i=items+offset` it
computes inside a scope (in `remove`, `find` and the claim loop); the model reads
`items + offset` afresh at each step.  The two differ only once a `resize` or `clear`
has replaced the array under a thread still in scope, where the code reads freed
memory: three threads can get there (`ConcurrentUnorderedMap.Scope`), two cannot
(`ConcurrentUnorderedMap.Exclusion`).  A `realloc`
that fails keeps the old array, as ISO C's does; glibc's `realloc(items, 0)` frees it
and returns null instead, so there the second round of an insert from construction
throws with `items` dangling, which the model does not show.

**Control.**  A thread's `Pc` names the function it is in and where; a function's
locals are the arguments of its constructors.  `using_`'s constructor, the loop of
`bucket_type::find` and the head `lock_guard … while(entered!=exited)` that
`resize` and `clear` share are sub-machines (`Entry`, `Probe`, `Drain`) with one
step function each, used from every place the code uses them.

**Choices.**  `step` takes a `Bool` besides the thread: it picks the outcome the
code cannot predict — whether `realloc`/`malloc`, `allocate` or the value's
constructor succeed, and which counter the wait loads first.

**The source's slips, read as the spec reads them.**  `b.++entered` is
`++b.entered`, `entered!=exit` is `entered!=exited`, `offset=i->items` is
`offset=i-items`, `itb->to_offset(i)` is `i-items`, insert's `k` and `hash` are the
key of `v` and `h`, and erase's `ret._itb->_offset` is `ret._offset` (spec §9).
Every other line is read as written: the resize after a successful claim, the
unlock-free publication, the `hash=0` after `detach`'s move, the shadowed `ret`
in the `catch` block.
-/
import ConcurrentUnorderedMap.State

namespace ConcurrentUnorderedMap

/-! ## Where a thread is -/

/-- Where a thread is in the constructor of `bucket_type::using_`. -/
inductive Entry
  /-- `++b.entered` -/
  | inc
  /-- `while(is_lockable_locked(b.resize_lock))` -/
  | check
  /-- `++b.exited` -/
  | back
  /-- `b.resize_lock.lock()` -/
  | lock
  /-- `b.resize_lock.unlock()`, then `++b.entered` again -/
  | unlock
deriving DecidableEq, Repr

/-- Where a thread is in the loop of `bucket_type::find`: at slot `i`, with `stop` the
`end` it computed and `rec` whether its `empty` pointer is still non-null. -/
inductive Probe
  /-- `for(; i<end && i->hash!=hash; ++i)` and `if(i==end) break;` -/
  | scan (i stop : Nat) (rec : Bool)
  /-- `i->p.lock()` -/
  | lock (i stop : Nat) (rec : Bool)
  /-- `if(i->hash==hash && i->p.get())` -/
  | recheck (i stop : Nat) (rec : Bool)
  /-- `i->p.unlock()` -/
  | unlock (i stop : Nat) (rec : Bool)
deriving DecidableEq, Repr

/-- Where a thread is in `lock_guard g(resize_lock); while(entered!=exited)`.  In
`second enteredFirst v` one counter has been loaded, giving `v`. -/
inductive Drain
  | lock
  | first
  | second (enteredFirst : Bool) (v : Nat)
deriving DecidableEq, Repr

/-- Where a thread is in `concurrent_unordered_map::find`. -/
inductive FindSt
  | enter (e : Entry)
  /-- `itb->find(i, h)` reads `items` and `count` -/
  | call (start : Option Nat)
  | probe (p : Probe)
  /-- `_key_equal(k, i->p->first)` -/
  | compare (i : Nat)
  /-- the `unique_lock`'s destructor -/
  | release (i : Nat) (hit : Bool)
  /-- `~using_`, then `return ret` -/
  | leave (r : Iter)
deriving DecidableEq, Repr

/-- Where a thread is in `concurrent_unordered_map::insert` outside `bucket_type::insert`. -/
inductive InsSt
  | enter (e : Entry)
  | call (start : Option Nat)
  | probe (p : Probe)
  | compare (i : Nat)
  | release (i : Nat) (hit : Bool)
  /-- `~using_` of the lookup; `hit` the slot of an equal key -/
  | leave (hit : Option Nat)
  /-- `++_size` -/
  | count (off : Nat)
deriving DecidableEq, Repr

/-- Where a thread is in `bucket_type::insert` and the `resize` it calls. -/
inductive BInsSt
  /-- `using_ g(this)` at the top of the `do` loop -/
  | claimEnter (e : Entry)
  /-- `if(items) { i=items+hint, end=items+count; …` -/
  | claimBegin
  /-- `for(; i<end; i++) if(!i->p.load() && i->p.try_lock())` -/
  | claim (i stop : Nat)
  /-- `newsize=count;` and `~using_` -/
  | claimLeave (off : Option Nat)
  /-- `resize(newsize)`, in its head -/
  | resize (off : Option Nat) (newsize : Nat) (d : Drain)
  /-- `realloc`/`malloc`, `memset`, `items=n`, `count.store(newsize)` -/
  | realloc (off : Option Nat) (newsize : Nat)
  /-- the `lock_guard`'s destructor; `failed` when `resize` threw -/
  | resized (off : Option Nat) (failed : Bool)
  /-- `allocator.allocate(1)` -/
  | allocate (off : Nat)
  /-- `allocator.construct(ret, v)` -/
  | construct (off a : Nat)
  | publishEnter (e : Entry) (off a : Nat)
  /-- `i->set(ret, hash)` -/
  | publish (off a : Nat)
  /-- `return offset;` and `~using_` -/
  | publishLeave (off : Nat)
  | catchEnter (e : Entry) (off : Nat) (ex : Exc)
  /-- `i->p.unlock()` -/
  | catchUnlock (off : Nat) (ex : Exc)
  /-- `allocator.deallocate(ret, sizeof(value_type))`, with the outer `ret` -/
  | catchFree (ex : Exc)
  /-- `throw;` and `~using_` -/
  | catchLeave (ex : Exc)
deriving DecidableEq, Repr

/-- Where a thread is in `concurrent_unordered_map::erase` and `bucket_type::remove`. -/
inductive EraseSt
  | enter (e : Entry)
  /-- `i->p.lock()` -/
  | lock
  /-- `spinlock<...> l(std::move(p))` in `detach` -/
  | detach
  /-- `if(i) hash=0;` in `detach`, with `i` the pointer moved out -/
  | reset (v : Option Nat)
  /-- `~using_` -/
  | leave (v : Option Nat)
  /-- `allocator.destroy(v)` -/
  | destroy (a : Nat)
  /-- `allocator.deallocate(v, sizeof(value_type))` -/
  | free (a : Nat)
  /-- `++ret` -/
  | advance
deriving DecidableEq, Repr

/-- Where a thread is in `bucket_type::clear`. -/
inductive ClearSt
  | drain (d : Drain)
  /-- `i->destroy(allocator)` for each slot, `free(items)`, `items=nullptr`, `count=0` -/
  | free
  /-- the `lock_guard`'s destructor -/
  | unlock
deriving DecidableEq, Repr

/-- A thread's control: between calls, inside a call with the bucket `b` it works on,
or stopped by undefined behaviour where it was (`fault pc`). -/
inductive Pc (K V : Type)
  | idle
  | fault (pc : Pc K V)
  | find (k : K) (b : Nat) (st : FindSt)
  | insert (k : K) (v : V) (b : Nat) (hint : Nat) (st : InsSt)
  | bucketInsert (k : K) (v : V) (b : Nat) (hint : Nat) (st : BInsSt)
  | erase (it : Iter) (st : EraseSt)
  | clear (b : Nat) (st : ClearSt)
  /-- `_size=0` at the end of `clear` -/
  | clearSize
deriving DecidableEq, Repr

/-- A thread: the calls it has still to make, the one in progress, and what the
finished ones returned, oldest first. -/
structure Thread (K V : Type) where
  calls : List (Call K V)
  pc : Pc K V
  log : List Ret
deriving DecidableEq, Repr

/-- The whole system: the map and the threads. -/
structure Sys (K V : Type) where
  map : Map K V
  threads : List (Thread K V)
deriving DecidableEq, Repr

/-- What one step does to the stepping thread's control. -/
inductive Next (K V : Type)
  | go (pc : Pc K V)
  | ret (r : Ret)
  | fault

/-! ## The bucket's sub-machines -/

/-- One step of `using_`'s constructor; `none` while `resize_lock.lock()` waits, and
`some (b, none)` when the constructor returns. -/
def usingStep (b : Bucket) : Entry → Option (Bucket × Option Entry)
  | .inc => some ({ b with entered := b.entered + 1 }, some .check)
  | .check => some (b, if b.resizeLock then some .back else none)
  | .back => some ({ b with exited := b.exited + 1 }, some .lock)
  | .lock => if b.resizeLock then none else some ({ b with resizeLock := true }, some .unlock)
  | .unlock => some ({ b with resizeLock := false }, some .inc)

/-- What one step of `bucket_type::find`'s loop does. -/
inductive Probed
  /-- carry on, with the index `*empty` was set to, if it was -/
  | next (b : Bucket) (p : Probe) (recorded : Option Nat)
  /-- `return ret` with `ret` the locked slot -/
  | found (i : Nat)
  /-- `return nullptr` -/
  | miss
  | blocked
  | fault

/-- One step of the loop of `bucket_type::find(start, hash, empty)`. -/
def bucketFindStep (h : Nat) (b : Bucket) : Probe → Probed
  | .scan i stop rec =>
    if i < stop then
      match b.slot? i with
      | none => .fault
      | some sl =>
        if sl.hash ≠ h then
          if rec && sl.ptr.isNone then .next b (.scan (i + 1) stop false) (some i)
          else .next b (.scan (i + 1) stop rec) none
        else .next b (.lock i stop rec) none
    else if i = stop then .miss
    else .next b (.lock i stop rec) none
  | .lock i stop rec =>
    match b.slot? i with
    | none => .fault
    | some sl =>
      if sl.locked then .blocked else .next (b.setSlot i sl.lock) (.recheck i stop rec) none
  | .recheck i stop rec =>
    match b.slot? i with
    | none => .fault
    | some sl => if sl.hash = h ∧ sl.ptr.isSome then .found i else .next b (.unlock i stop rec) none
  | .unlock i stop rec =>
    match b.slot? i with
    | none => .fault
    | some sl => .next (b.setSlot i sl.unlock) (.scan i stop rec) none

/-- One step of the head `resize` and `clear` share; `some (b, none)` once the two loads
compared equal.  `c` picks the counter loaded first (`true`: `entered`). -/
def drainStep (c : Bool) (b : Bucket) : Drain → Option (Bucket × Option Drain)
  | .lock => if b.resizeLock then none else some ({ b with resizeLock := true }, some .first)
  | .first => some (b, some (.second c (Bucket.load (if c then b.entered else b.exited))))
  | .second enteredFirst v =>
    some (b, if v = Bucket.load (if enteredFirst then b.exited else b.entered) then none
      else some .first)

section
variable {K V : Type} (tr : Traits K)

/-! ## The map's functions -/

/-- A step on `_buckets[bi]`; a bucket past the vector is undefined behaviour. -/
def onBucket (m : Map K V) (bi : Nat) (f : Bucket → Option (Bucket × Next K V)) :
    Option (Map K V × Next K V) :=
  match m.bucket? bi with
  | none => some (m, .fault)
  | some b => (f b).map fun r => (m.setBucket bi r.1, r.2)

/-- A step of `using_`'s constructor inside a function: `stay` where it goes on,
`done` once it returned. -/
def enter (b : Bucket) (e : Entry) (stay : Entry → Pc K V) (done : Pc K V) :
    Option (Bucket × Next K V) :=
  (usingStep b e).map fun r => (r.1, .go (match r.2 with | some e' => stay e' | none => done))

/-- A step of the head of `resize` or `clear` inside a function. -/
def drain (c : Bool) (b : Bucket) (d : Drain) (stay : Drain → Pc K V) (done : Pc K V) :
    Option (Bucket × Next K V) :=
  (drainStep c b d).map fun r => (r.1, .go (match r.2 with | some d' => stay d' | none => done))

/-- `++b.exited` of `~using_`. -/
def Bucket.leave (b : Bucket) : Bucket := { b with exited := b.exited + 1 }

/-- `i->p->first`: the key of the value slot `i` points to. -/
def keyAt (m : Map K V) (b : Bucket) (i : Nat) : Option K := do
  let sl ← b.slot? i
  let a ← sl.ptr
  let bl ← m.block? a
  let kv ← bl.value
  pure kv.1

/-- One step of `concurrent_unordered_map::find(k)` on bucket `bi`. -/
def findStep (m : Map K V) (k : K) (bi : Nat) : FindSt → Option (Map K V × Next K V)
  | .enter e => onBucket m bi fun b =>
      enter b e (fun e' => .find k bi (.enter e')) (.find k bi (.call none))
  | .call start => onBucket m bi fun b =>
      some (b, .go (match b.items with
        | none => .find k bi (.leave m.endIter)
        | some _ => .find k bi (.probe (.scan (start.getD 0) b.count false))))
  | .probe p => onBucket m bi fun b =>
      match bucketFindStep (tr.hasher k) b p with
      | .next b' p' _ => some (b', .go (.find k bi (.probe p')))
      | .found i => some (b, .go (.find k bi (.compare i)))
      | .miss => some (b, .go (.find k bi (.leave m.endIter)))
      | .blocked => none
      | .fault => some (b, .fault)
  | .compare i => onBucket m bi fun b =>
      match keyAt m b i with
      | none => some (b, .fault)
      | some k' => some (b, .go (.find k bi (.release i (tr.keyEqual k k'))))
  | .release i hit => onBucket m bi fun b =>
      match b.slot? i with
      | none => some (b, .fault)
      | some sl => some (b.setSlot i sl.unlock,
          .go (if hit then .find k bi (.leave ⟨bi, i⟩) else .find k bi (.call (some i))))
  | .leave r => onBucket m bi fun b => some (b.leave, .ret (.iter r))

/-- One step of `concurrent_unordered_map::insert(v)`, `v = (k, x)`, outside
`bucket_type::insert`; `hint` is `emptyidx`. -/
def insertStep (m : Map K V) (k : K) (x : V) (bi hint : Nat) :
    InsSt → Option (Map K V × Next K V)
  | .enter e => onBucket m bi fun b =>
      enter b e (fun e' => .insert k x bi hint (.enter e')) (.insert k x bi hint (.call none))
  | .call start => onBucket m bi fun b =>
      some (b, .go (match b.items with
        | none => .insert k x bi hint (.leave none)
        | some _ => .insert k x bi hint (.probe (.scan (start.getD 0) b.count (hint = 0)))))
  | .probe p => onBucket m bi fun b =>
      match bucketFindStep (tr.hasher k) b p with
      | .next b' p' r => some (b', .go (.insert k x bi (r.getD hint) (.probe p')))
      | .found i => some (b, .go (.insert k x bi hint (.compare i)))
      | .miss => some (b, .go (.insert k x bi hint (.leave none)))
      | .blocked => none
      | .fault => some (b, .fault)
  | .compare i => onBucket m bi fun b =>
      match keyAt m b i with
      | none => some (b, .fault)
      | some k' => some (b, .go (.insert k x bi hint (.release i (tr.keyEqual k k'))))
  | .release i hit => onBucket m bi fun b =>
      match b.slot? i with
      | none => some (b, .fault)
      | some sl => some (b.setSlot i sl.unlock,
          .go (.insert k x bi hint (if hit then .leave (some i) else .call (some i))))
  | .leave hit => onBucket m bi fun b =>
      some (b.leave, match hit with
        | some i => .ret (.pair ⟨bi, i⟩ false)
        | none => .go (.bucketInsert k x bi hint (.claimEnter .inc)))
  | .count o => some ({ m with size := m.size + 1 }, .ret (.pair ⟨bi, o⟩ true))

/-- One step of `bucket_type::insert(allocator, v, h, hint)` and of the `resize` it calls;
`c` is the step's choice. -/
def bucketInsertStep (c : Bool) (m : Map K V) (k : K) (x : V) (bi hint : Nat) :
    BInsSt → Option (Map K V × Next K V)
  | .claimEnter e => onBucket m bi fun b =>
      enter b e (fun e' => .bucketInsert k x bi hint (.claimEnter e'))
        (.bucketInsert k x bi hint .claimBegin)
  | .claimBegin => onBucket m bi fun b =>
      some (b, .go (.bucketInsert k x bi hint (match b.items with
        | none => .claimLeave none
        | some _ => .claim hint b.count)))
  | .claim i stop => onBucket m bi fun b =>
      if i < stop then
        match b.slot? i with
        | none => some (b, .fault)
        | some sl =>
          if sl.vacant then some (b.setSlot i sl.lock, .go (.bucketInsert k x bi hint (.claimLeave (some i))))
          else some (b, .go (.bucketInsert k x bi hint (.claim (i + 1) stop)))
      else some (b, .go (.bucketInsert k x bi hint (.claimLeave none)))
  | .claimLeave off => onBucket m bi fun b =>
      some (b.leave, .go (.bucketInsert k x bi hint (.resize off (b.count + b.count / 2) .lock)))
  | .resize off n d => onBucket m bi fun b =>
      drain c b d (fun d' => .bucketInsert k x bi hint (.resize off n d'))
        (.bucketInsert k x bi hint (.realloc off n))
  | .realloc off n => onBucket m bi fun b =>
      if c then some ({ b with items := some (b.resized n) }, .go (.bucketInsert k x bi hint (.resized off false)))
      else some (b, .go (.bucketInsert k x bi hint (.resized off true)))
  | .resized off failed => onBucket m bi fun b =>
      some ({ b with resizeLock := false },
        if failed then .ret (.thrown .badAlloc)
        else .go (match off with
          | none => .bucketInsert k x bi hint (.claimEnter .inc)
          | some o => .bucketInsert k x bi hint (.allocate o)))
  | .allocate o =>
      if c then some ({ m with heap := m.heap ++ [⟨1, none, 0, []⟩] },
        .go (.bucketInsert k x bi hint (.construct o m.heap.length)))
      else some (m, .go (.bucketInsert k x bi hint (.catchEnter .inc o .badAlloc)))
  | .construct o a =>
      match m.block? a with
      | none => some (m, .fault)
      | some bl =>
        if c then some (m.setBlock a { bl with value := some (k, x) },
          .go (.bucketInsert k x bi hint (.publishEnter .inc o a)))
        else some (m, .go (.bucketInsert k x bi hint (.catchEnter .inc o .construct)))
  | .publishEnter e o a => onBucket m bi fun b =>
      enter b e (fun e' => .bucketInsert k x bi hint (.publishEnter e' o a))
        (.bucketInsert k x bi hint (.publish o a))
  | .publish o a => onBucket m bi fun b =>
      match b.slot? o with
      | none => some (b, .fault)
      | some sl => some (b.setSlot o (sl.set a (tr.hasher k)), .go (.bucketInsert k x bi hint (.publishLeave o)))
  | .publishLeave o => onBucket m bi fun b => some (b.leave, .go (.insert k x bi hint (.count o)))
  | .catchEnter e o ex => onBucket m bi fun b =>
      enter b e (fun e' => .bucketInsert k x bi hint (.catchEnter e' o ex))
        (.bucketInsert k x bi hint (.catchUnlock o ex))
  | .catchUnlock o ex => onBucket m bi fun b =>
      match b.slot? o with
      | none => some (b, .fault)
      | some sl => some (b.setSlot o sl.unlock, .go (.bucketInsert k x bi hint (.catchFree ex)))
  | .catchFree ex => some (m, .go (.bucketInsert k x bi hint (.catchLeave ex)))
  | .catchLeave ex => onBucket m bi fun b => some (b.leave, .ret (.thrown ex))

/-- `++ret` on an iterator into bucket `b`: the next offset, or offset 0 of the next bucket. -/
def Iter.succ (it : Iter) (b : Bucket) : Iter :=
  if it.offset + 1 < b.count then ⟨it.bucket, it.offset + 1⟩ else ⟨it.bucket + 1, 0⟩

/-- One step of `concurrent_unordered_map::erase(it)` and the `bucket_type::remove` it calls. -/
def eraseStep (m : Map K V) (it : Iter) : EraseSt → Option (Map K V × Next K V)
  | .enter e => onBucket m it.bucket fun b =>
      enter b e (fun e' => .erase it (.enter e')) (.erase it .lock)
  | .lock => onBucket m it.bucket fun b =>
      match b.slot? it.offset with
      | none => some (b, .fault)
      | some sl => if sl.locked then none else some (b.setSlot it.offset sl.lock, .go (.erase it .detach))
  | .detach => onBucket m it.bucket fun b =>
      match b.slot? it.offset with
      | none => some (b, .fault)
      | some sl => some (b.setSlot it.offset sl.moveOut, .go (.erase it (.reset sl.ptr)))
  | .reset v => onBucket m it.bucket fun b =>
      match v, b.slot? it.offset with
      | none, _ => some (b, .go (.erase it (.leave none)))
      | some _, none => some (b, .fault)
      | some _, some sl => some (b.setSlot it.offset { sl with hash := 0 }, .go (.erase it (.leave v)))
  | .leave v => onBucket m it.bucket fun b =>
      some (b.leave, .go (match v with
        | none => .erase it .advance
        | some a => .erase it (.destroy a)))
  | .destroy a =>
      match m.block? a with
      | none => some (m, .fault)
      | some bl => some (m.setBlock a { bl with value := none, destroyed := bl.destroyed + 1 },
          .go (.erase it (.free a)))
  | .free a =>
      match m.block? a with
      | none => some (m, .fault)
      | some bl => some (m.setBlock a { bl with freed := bl.freed ++ [tr.valueSize] }, .go (.erase it .advance))
  | .advance => onBucket m it.bucket fun b => some (b, .ret (.iter (it.succ b)))

/-- Modelled from the spec: `item_type::destroy(allocator)`, which `bucket_type::clear`
calls and the repository does not define.  A slot's value is "destroyed when the slot is
emptied by remove or when the bucket is cleared" (§3), so it is destroyed and
deallocated as `remove` does it. -/
def destroyItem (m : Map K V) (sl : Slot) : Map K V :=
  match sl.ptr with
  | none => m
  | some a =>
    match m.block? a with
    | none => m
    | some bl => m.setBlock a
        { bl with value := none, destroyed := bl.destroyed + 1, freed := bl.freed ++ [tr.valueSize] }

/-- One step of `concurrent_unordered_map::clear` in `bucket_type::clear` on bucket `bi`. -/
def clearStep (c : Bool) (m : Map K V) (bi : Nat) : ClearSt → Option (Map K V × Next K V)
  | .drain d => onBucket m bi fun b => drain c b d (fun d' => .clear bi (.drain d')) (.clear bi .free)
  | .free =>
      match m.bucket? bi with
      | none => some (m, .fault)
      | some b =>
        match b.items with
        | none => some (m, .go (.clear bi .unlock))
        | some l => some (((l.foldl (destroyItem tr) m).setBucket bi { b with items := none }),
            .go (.clear bi .unlock))
  | .unlock => onBucket m bi fun b =>
      some ({ b with resizeLock := false }, .go (if bi + 1 < m.buckets.length
        then .clear (bi + 1) (.drain .lock) else .clearSize))

/-- The text of `reserve`'s `std::runtime_error`. -/
def rehashError : String := "Cannot currently rehash existing content!"

/-- `~bucket_type` on each bucket that `reserve`'s `_buckets.resize(n)` drops, first to
last.  It calls `clear()`, whose loop destroys and deallocates the value of every slot
(`free(items)` drops the array with the bucket). -/
def destroyBuckets (m : Map K V) (n : Nat) : Map K V :=
  (m.buckets.drop n).foldl (fun m b => (b.items.getD []).foldl (destroyItem tr) m) m

/-- The first step of a call.  `find`'s `if(!_size) return ret;` and both `_get_bucket`
calls happen here, and `reserve` runs whole, the destructors of the buckets it drops
included: their `resize_lock` and wait are not modelled. -/
def callStep (m : Map K V) : Call K V → Map K V × Next K V
  | .find k =>
    if m.size = 0 then (m, .ret (.iter m.endIter))
    else match m.getBucket (tr.hasher k) with
      | none => (m, .fault)
      | some bi => (m, .go (.find k bi (.enter .inc)))
  | .insert k x =>
    match m.getBucket (tr.hasher k) with
    | none => (m, .fault)
    | some bi => (m, .go (.insert k x bi 0 (.enter .inc)))
  | .erase it => if it.bucket < m.buckets.length then (m, .go (.erase it (.enter .inc))) else (m, .fault)
  | .clear => (m, .go (if 0 < m.buckets.length then .clear 0 (.drain .lock) else .clearSize))
  | .reserve n =>
    if m.size ≠ 0 then (m, .ret (.thrown (.runtimeError rehashError)))
    else ({ m with buckets := m.resizeBuckets n, heap := (destroyBuckets tr m n).heap }, .ret .unit)

/-- One step inside a call. -/
def pcStep (c : Bool) (m : Map K V) : Pc K V → Option (Map K V × Next K V)
  | .idle => none
  | .fault _ => none
  | .find k bi st => findStep tr m k bi st
  | .insert k x bi hint st => insertStep tr m k x bi hint st
  | .bucketInsert k x bi hint st => bucketInsertStep tr c m k x bi hint st
  | .erase it st => eraseStep tr m it st
  | .clear bi st => clearStep tr c m bi st
  | .clearSize => some ({ m with size := 0 }, .ret .unit)

/-- A thread after a step, `calls` its remaining calls. -/
def Thread.after (th : Thread K V) (calls : List (Call K V)) : Next K V → Thread K V
  | .go pc => ⟨calls, pc, th.log⟩
  | .ret r => ⟨calls, .idle, th.log ++ [r]⟩
  | .fault => ⟨calls, .fault th.pc, th.log ++ [.fault]⟩

/-- One step of a thread: the first step of its next call when it is idle. -/
def threadStep (c : Bool) (m : Map K V) (th : Thread K V) : Option (Map K V × Thread K V) :=
  match th.pc, th.calls with
  | .idle, [] => none
  | .idle, call :: rest => let r := callStep tr m call; some (r.1, th.after rest r.2)
  | pc, _ => (pcStep tr c m pc).map fun r => (r.1, th.after th.calls r.2)

/-! ## Runs -/

/-- One step of thread `t` with choice `c`; `none` when it has nothing to do or waits. -/
def step (s : Sys K V) (t : Nat) (c : Bool) : Option (Sys K V) :=
  match s.threads.get? t with
  | none => none
  | some th => (threadStep tr c s.map th).map fun r => ⟨r.1, s.threads.set t r.2⟩

/-- The run a schedule of (thread, choice) pairs gives, if every step of it can be taken. -/
def run : Sys K V → List (Nat × Bool) → Option (Sys K V)
  | s, [] => some s
  | s, (t, c) :: rest => match step tr s t c with
    | none => none
    | some s' => run s' rest

/-- `Steps s s'`: some interleaving leads from `s` to `s'`. -/
inductive Steps : Sys K V → Sys K V → Prop
  | refl (s : Sys K V) : Steps s s
  | step {s s' s'' : Sys K V} (t : Nat) (c : Bool) :
      step tr s t c = some s' → Steps s' s'' → Steps s s''

/-- A schedule that runs to its end is an interleaving. -/
theorem Steps.of_run : ∀ {s s' : Sys K V} {sched : List (Nat × Bool)},
    run tr s sched = some s' → Steps tr s s'
  | _, _, [], h => by cases h; exact .refl _
  | s, _, (t, c) :: rest, h => by
    simp only [run] at h
    split at h
    · cases h
    · exact .step t c ‹_› (Steps.of_run h)

/-- A schedule run in two parts. -/
theorem run_append : ∀ (s : Sys K V) (l₁ l₂ : List (Nat × Bool)),
    run tr s (l₁ ++ l₂) = (run tr s l₁).bind fun s' => run tr s' l₂
  | _, [], _ => rfl
  | s, (t, c) :: l₁, l₂ => by
    simp only [List.cons_append, run]
    split
    · rfl
    · exact run_append _ l₁ l₂

/-- `a` steps of one thread lead to `f 0`, and every round of `p` more takes `f N` to
`f (N + 1)`: after `a + p * N` steps the state is `f N`, for every `N`.  With `0 < p`
this is a run that never ends. -/
theorem run_rounds {s : Sys K V} {f : Nat → Sys K V} {a p : Nat} {tc : Nat × Bool}
    (hpre : run tr s (List.replicate a tc) = some (f 0))
    (hround : ∀ N, run tr (f N) (List.replicate p tc) = some (f (N + 1))) :
    ∀ N, run tr s (List.replicate (a + p * N) tc) = some (f N)
  | 0 => hpre
  | N + 1 => by
    rw [Nat.mul_succ, ← Nat.add_assoc, List.replicate_add, run_append,
      run_rounds hpre hround N]
    exact hround N

/-- Threads that start idle on a map, each with its list of calls. -/
def Sys.init (m : Map K V) (calls : List (List (Call K V))) : Sys K V :=
  ⟨m, calls.map fun cs => ⟨cs, .idle, []⟩⟩

end

end ConcurrentUnorderedMap
