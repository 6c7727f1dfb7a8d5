/-
# `ConcurrentUnorderedMap.Construction` — the states a freshly constructed map reaches

**Coherent states.**  `Coherent tr m` is the state every operation is meant to leave
behind: each bucket at rest (`entered == exited`, `resize_lock` free), and each slot
unlocked and either null with hash `0`, or pointing at a constructed value whose key
hashes to the slot's cached hash and, modulo the bucket count, to the slot's bucket.

A single thread that has made only complete calls on a freshly constructed map leaves
it coherent.  The counters are `Balanced` on every single-threaded run, and with no call
in flight that is `entered == exited` and the lock free.  Slots need no argument: the
construction never gives a bucket one (`Unfilled`).

**The empty bucket vector.**  The constructor clamps its argument to at least one
bucket, and `reserve` does not: `reserve(0)` on an empty map leaves `_buckets` empty,
and the next `insert` computes `k % _buckets.size()` with a zero divisor.  (`find`
returns before `_get_bucket` while `_size == 0`, which from construction it always is.)

**Proved here.**

    one thread, complete calls from construction  ⟹  Coherent               (`solo_fresh_coherent`)
    reserve(0); insert(v) from construction faults in _get_bucket           (`reserve_zero_then_insert_faults`)
    a one-bucket map with n empty slots, or one entry and n empty slots,
    is Coherent                                       (`Map.coherent_withSlots`, `Map.coherent_withEntry`)
-/
import ConcurrentUnorderedMap.Capacity

namespace ConcurrentUnorderedMap

section
variable {K V : Type} {tr : Traits K}

/-! ## Coherent states -/

/-- A slot of bucket `bi` is unlocked, and null with hash `0` or pointing at a value whose
key hashes to its cached hash and to bucket `bi`. -/
def Slot.Coherent (tr : Traits K) (m : Map K V) (bi : Nat) (sl : Slot) : Prop :=
  sl.locked = false ∧
    match sl.ptr with
    | none => sl.hash = 0
    | some a => ∃ bl k x, m.block? a = some bl ∧ bl.value = some (k, x) ∧
        sl.hash = tr.hasher k ∧ bi = tr.hasher k % m.buckets.length

/-- The state an operation is meant to leave the map in. -/
structure Coherent (tr : Traits K) (m : Map K V) : Prop where
  /-- Every bucket has `entered == exited` and `resize_lock` free. -/
  atRest : m.AtRest
  /-- Every slot is unlocked and coherent. -/
  slots : ∀ bi bk, m.bucket? bi = some bk → ∀ sl ∈ bk.items.getD [], sl.Coherent tr m bi

/-- Threads between calls are counted nowhere and hold no lock. -/
theorem quiet_of_idle {s : Sys K V} (hi : ∀ th ∈ s.threads, th.pc = .idle) : Quiet s := fun b => by
  simp only [inflight, holders, List.countP_eq_zero]
  exact ⟨fun th hth => by simp [hi th hth], fun th hth => by simp [hi th hth]⟩

/-- Buckets without slots have no incoherent slot. -/
theorem Unfilled.coherent {s : Sys K V} (hu : Unfilled s) (hr : s.map.AtRest) : Coherent tr s.map where
  atRest := hr
  slots bi bk hb sl hsl := by
    have hc := Map.count_of_bucket? hu.slots hb
    simp only [Bucket.count, List.length_eq_zero] at hc
    simp [hc] at hsl

theorem solo_fresh_coherent {n : Nat} {calls : List (Call K V)} {s : Sys K V}
    (h : Steps tr (Sys.init (Map.init n) [calls]) s) (hi : ∀ th ∈ s.threads, th.pc = .idle) :
    Coherent tr s.map :=
  have hb := h.balanced_of_solo rfl (balanced_init n [calls])
  (h.unfilled (unfilled_init n [calls])).coherent (hb.atRest (quiet_of_idle hi))

/-- A `find`, a `reserve(4)`, and an `insert` whose `resize(0)` fails with `bad_alloc`. -/
theorem find_reserve_failed_insert_coherent :
    ∃ s, run intTraits (Sys.init (Map.init 2) [[.find 3, .reserve 4, .insert 7 7]])
        (List.replicate 14 (0, true) ++ [(0, false), (0, true)]) = some s ∧
      (∀ th ∈ s.threads, th.pc = .idle) ∧ Coherent intTraits s.map := by
  have hr : run intTraits (Sys.init (Map.init 2) [[.find 3, .reserve 4, .insert 7 7]])
      (List.replicate 14 (0, true) ++ [(0, false), (0, true)]) =
      some ⟨⟨0, [Bucket.init, Bucket.init, Bucket.init, ⟨2, 2, false, none⟩], []⟩,
        [⟨[], .idle, [.iter ⟨2, 0⟩, .unit, .thrown .badAlloc]⟩]⟩ := by
    decide
  have hi : ∀ th ∈ [(⟨[], .idle, [.iter ⟨2, 0⟩, .unit, .thrown .badAlloc]⟩ : Thread Nat Nat)],
      th.pc = .idle := by decide
  exact ⟨_, hr, hi, solo_fresh_coherent (Steps.of_run _ hr) hi⟩

/-- A one-bucket map whose bucket has `n` empty slots, at rest: a fresh map after a
`resize(n)`.  The code's own growth never gets there (`fresh_map_never_inserts`); it is
the start that shows what the rest of the code does once a bucket has slots. -/
def Map.withSlots (n : Nat) : Map K V := ⟨0, [⟨0, 0, false, some (List.replicate n Slot.zero)⟩], []⟩

theorem Map.coherent_withSlots (n : Nat) : Coherent tr (Map.withSlots n : Map K V) where
  atRest b := by
    cases b <;> simp [Map.withSlots, Map.bucketD, Map.bucket?, Bucket.init]
  slots bi bk hb sl hsl := by
    cases bi <;> simp only [Map.withSlots, Map.bucket?, List.get?_cons_zero, List.get?_cons_succ,
      List.get?_nil, Option.some.injEq, reduceCtorEq] at hb
    subst hb
    obtain rfl := List.eq_of_mem_replicate hsl
    exact ⟨rfl, rfl⟩

/-- A one-bucket map whose slot 0 holds the key `k` with value `x`, unlocked, before `n`
empty slots; the value is the allocator's block 0, allocated with count 1.  Like
`withSlots`, a start the code's own inserts never produce: they leave the slot locked. -/
def Map.withEntry (tr : Traits K) (k : K) (x : V) (n : Nat) : Map K V :=
  ⟨1, [⟨0, 0, false, some (⟨some 0, false, tr.hasher k⟩ :: List.replicate n Slot.zero)⟩],
    [⟨1, some (k, x), 0, []⟩]⟩

theorem Map.coherent_withEntry (k : K) (x : V) (n : Nat) : Coherent tr (Map.withEntry tr k x n) where
  atRest b := by
    cases b <;> simp [Map.withEntry, Map.bucketD, Map.bucket?, Bucket.init]
  slots bi bk hb sl hsl := by
    cases bi <;> simp only [Map.withEntry, Map.bucket?, List.get?_cons_zero, List.get?_cons_succ,
      List.get?_nil, Option.some.injEq, reduceCtorEq] at hb
    subst hb
    rcases List.mem_cons.mp hsl with rfl | hsl
    · exact ⟨rfl, _, k, x, rfl, rfl, rfl, (Nat.mod_one _).symm⟩
    · obtain rfl := List.eq_of_mem_replicate hsl
      exact ⟨rfl, rfl⟩

/-! ## The empty bucket vector -/

/-- `_get_bucket(k)` takes a remainder by zero exactly when the bucket vector is empty. -/
theorem Map.getBucket_eq_none {m : Map K V} {k : Nat} : m.getBucket k = none ↔ m.buckets = [] := by
  simp [Map.getBucket]

theorem reserve_zero_then_insert_faults (n : Nat) (k : K) (x : V) (rest : List (Call K V))
    (c c' : Bool) :
    run tr (Sys.init (Map.init n) [.reserve 0 :: .insert k x :: rest]) [(0, c), (0, c')] =
      some ⟨⟨0, [], []⟩, [⟨rest, .fault .idle, [.unit, .fault]⟩]⟩ := by
  simp [run, step, threadStep, callStep, Sys.init, Map.init, Map.resizeBuckets, Map.getBucket,
    destroyBuckets_of_heap_nil, Thread.after]

end

/-! ## Two runs from construction

The runs the results about reached states are shown on. -/

/-- Three threads on a fresh one-bucket map: an insert of `5` and then a lookup of it, a
second insert of `5`, and an erase at `(0, 0)`. -/
def freshRace : List (List (Call Nat Nat)) := [[.insert 5 5, .find 5], [.insert 5 6], [.erase ⟨0, 0⟩]]

/-- The first thread goes once round the claim-or-grow loop, the erase then faults at
the slot lock inside its `using_` scope, and the second insert reaches `resize`. -/
def freshRaceSchedule : List (Nat × Bool) :=
  List.replicate 14 (0, true) ++ List.replicate 4 (2, true) ++ List.replicate 12 (1, true)

/-- The second insert's `resize` waits for counters that the faulted erase keeps apart. -/
theorem freshRace_run :
    run intTraits (Sys.init (Map.init 1) freshRace) freshRaceSchedule =
      some ⟨⟨0, [⟨5, 4, true, some []⟩], []⟩,
        [⟨[.find 5], .bucketInsert 5 5 0 0 (.claimEnter .inc), []⟩,
          ⟨[], .bucketInsert 5 6 0 0 (.resize none 0 .first), []⟩,
          ⟨[], .fault (.erase ⟨0, 0⟩ .lock), [.fault]⟩]⟩ := by
  decide

/-- One thread on a fresh one-bucket map: an insert of `5`, then a lookup of it; the
first `resize(0)` succeeds and the second fails. -/
def freshThrowSchedule : List (Nat × Bool) := List.replicate 22 (0, true) ++ [(0, false), (0, true)]

/-- The insert has thrown `bad_alloc`, and the lookup is next. -/
theorem freshThrow_run :
    run intTraits (Sys.init (Map.init 1) [[.insert 5 5, .find 5]]) freshThrowSchedule =
      some ⟨⟨0, [⟨3, 3, false, some []⟩], []⟩, [⟨[.find 5], .idle, [.thrown .badAlloc]⟩]⟩ := by
  decide

end ConcurrentUnorderedMap
