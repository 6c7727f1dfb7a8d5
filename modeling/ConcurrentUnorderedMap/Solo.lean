/-
# `ConcurrentUnorderedMap.Solo` — what `find`, `insert`, `erase` and `clear` do on one thread

The contracts of three of the map's calls when one thread runs alone, for every map, every
hasher and every argument, as exact runs: after so many steps of that thread the call
has returned, with this result, and the map is this one.

**`find(k)`**, on a map with `_size != 0` whose bucket for `k` has its array and a free
`resize_lock`, enters the bucket, and `bucket_type::find` scans its slots from offset 0
for one whose cached hash is `h = hasher(k)`; it locks that slot, rechecks it, and `find`
compares the key under the lock.  When no slot's cached hash is `h`, `find` returns
`end()` after `count + 6` steps; when the first slot whose cached hash is `h` is unlocked
and holds a key equal to `k`, it returns that slot after `j + 10` steps.  Either way only
the bucket's `entered` and `exited` change, one up each.  When that first slot is empty
or holds another key, `find` never returns: the lookup locks, rechecks and unlocks it, or
compares it and resumes from it, for ever.  With those two, every unlocked bucket at rest
is covered.  The scan is an induction on the slots it skips.

**`clear()`** runs `bucket_type::clear` on every bucket in turn: five steps a bucket at
rest, then `_size=0`.  Every bucket loses its array and keeps its counters, and the
allocator is as `destroy` leaves it after every slot of every bucket, in order.  The loop
is an induction on the buckets left.  On a map where the allocator's invariant holds
(`Owned`), that destruction gives back, once, exactly the blocks the slots point at.

**`insert(v)`** of a key whose hash no slot of its bucket caches runs the lookup, which
records the first empty slot as `emptyidx`, then `bucket_type::insert`: it claims that
slot, resizes the bucket to `count + count/2` whether or not it found one, allocates and
constructs the value, and publishes it with `i->set`.  After `count + 23` steps it returns
`(⟨b, e⟩, true)` with `e` the first empty slot, which points at the new block and, as the
code leaves it, stays locked.  The lookup is the same induction as `find`'s, run twice:
before and after the slot it records.

**`erase(it)`** at an unlocked slot empties it and, when it pointed at a block, destroys
and deallocates that block; it returns the position after `it`.

**From construction.**  `_size` stays `0` and no bucket has a slot: `find` returns
`end()` in one step, `insert`'s lookup is over within six, and `bucket_type::find` has
no slot to scan, so none of the loops above can go round.

**Two calls in a row.**  On a map with `_size != 0`, an erase and then a lookup of the
erased key find nothing, when no other slot caches the key's hash and that hash is not 0.  An insert and then a lookup
of the inserted key never return: the lookup stops at the slot the insert left locked and
waits there, the only thread, for good.

**Proved here.**

    one thread's step inside a call                                        (`run_solo_go`)
    the scan skips every slot whose cached hash is not h                    (`find_scan_run`)
    find returns end() when no cached hash is h, and the first slot with
    hash h when it is unlocked and holds an equal key                       (`find_solo`)
    find never returns when that slot is empty or holds another key         (`find_solo_spins`)
    one bucket of clear, and the loop over the buckets                      (`clear_bucket_run`, `clear_loop_run`)
    clear returns with every array gone and every slot destroyed            (`clear_solo`)
    destroying every slot frees exactly the blocks slots point at, once     (`destroy_slots_frees_each_once`)
    erase empties the slot and frees its block                             (`erase_solo`)
    insert's lookup, and insert of an absent key                            (`insert_scan_run`, `insert_solo`)
    insert's lookup on a bucket without slots                               (`insert_lookup_unfilled`)
    from construction the lookups of find and insert end, and
    bucket_type::find returns no slot                                       (`fresh_lookups_end`)
    erase, then find of the erased key, returns end()                       (`erase_then_find_misses`)
    insert, then find of the inserted key, waits for ever                   (`insert_then_find_blocks`)
-/
import ConcurrentUnorderedMap.Ownership
import ConcurrentUnorderedMap.Termination

namespace ConcurrentUnorderedMap

/-! ## Slots and buckets written back as they were -/

/-- Writing back the element a list holds changes nothing. -/
theorem List.set_of_getElem? {α : Type} {l : List α} {i : Nat} {a : α} (h : l[i]? = some a) :
    l.set i a = l :=
  List.ext_getElem? fun j => by
    rw [List.getElem?_set]
    split
    · subst_vars; rw [h, if_pos (List.getElem?_eq_some_iff.mp h).1]
    · rfl

@[simp] theorem Slot.lock_ptr (sl : Slot) : sl.lock.ptr = sl.ptr := rfl

@[simp] theorem Slot.lock_hash (sl : Slot) : sl.lock.hash = sl.hash := rfl

@[simp] theorem Slot.unlock_lock {sl : Slot} (h : sl.locked = false) : sl.lock.unlock = sl := by
  cases sl; simp_all [Slot.lock, Slot.unlock]

namespace Bucket

@[simp] theorem setSlot_setSlot (b : Bucket) (j : Nat) (sl sl' : Slot) :
    (b.setSlot j sl).setSlot j sl' = b.setSlot j sl' := by
  cases h : b.items <;> simp [setSlot, h, List.set_set]

/-- Writing a slot back as it is changes nothing. -/
theorem setSlot_self {b : Bucket} {j : Nat} {sl : Slot} (h : b.slot? j = some sl) :
    b.setSlot j sl = b := by
  obtain ⟨e, x, r, _ | l⟩ := b
  · simp [slot?] at h
  · simp only [slot?, Option.some_bind, List.get?_eq_getElem?] at h
    simp [setSlot, List.set_of_getElem? h]

end Bucket

section
variable {K V : Type} {tr : Traits K}

theorem Map.bucket?_setBucket_self {m : Map K V} {bi : Nat} {bk bk' : Bucket}
    (hb : m.bucket? bi = some bk) : (m.setBucket bi bk').bucket? bi = some bk' := by
  have hl : bi < m.buckets.length := by
    by_contra hc; simp [Map.bucket?, List.getElem?_eq_none (not_lt.mp hc)] at hb
  simp [Map.bucket?, Map.setBucket, hl]

@[simp] theorem Map.setBucket_setBucket (m : Map K V) (bi : Nat) (bk bk' : Bucket) :
    (m.setBucket bi bk).setBucket bi bk' = m.setBucket bi bk' := by
  simp [Map.setBucket, List.set_set]

/-- Writing back the bucket a map holds changes nothing. -/
theorem Map.setBucket_self {m : Map K V} {bi : Nat} {bk : Bucket} (hb : m.bucket? bi = some bk) :
    m.setBucket bi bk = m := by
  simp only [Map.bucket?, List.get?_eq_getElem?] at hb
  simp [Map.setBucket, List.set_of_getElem? hb]

@[simp] theorem Map.setBucket_endIter (m : Map K V) (bi : Nat) (bk : Bucket) :
    (m.setBucket bi bk).endIter = m.endIter := by
  simp [Map.setBucket, Map.endIter]

@[simp] theorem Map.setBucket_heap (m : Map K V) (bi : Nat) (bk : Bucket) :
    (m.setBucket bi bk).heap = m.heap := rfl

@[simp] theorem Map.setBucket_size (m : Map K V) (bi : Nat) (bk : Bucket) :
    (m.setBucket bi bk).size = m.size := rfl

@[simp] theorem Map.length_setBucket (m : Map K V) (bi : Nat) (bk : Bucket) :
    (m.setBucket bi bk).buckets.length = m.buckets.length := List.length_set ..

@[simp] theorem Map.block?_setBucket (m : Map K V) (bi : Nat) (bk : Bucket) (a : Nat) :
    (m.setBucket bi bk).block? a = m.block? a := rfl

/-! ## One thread alone -/

theorem threadStep_busy {c : Bool} {m : Map K V} (th : Thread K V) (hpc : th.pc ≠ .idle) :
    threadStep tr c m th = (pcStep tr c m th.pc).map fun r => (r.1, th.after th.calls r.2) := by
  unfold threadStep
  split
  · simp_all
  · simp_all
  · rfl

/-- One step of the only thread, inside a call. -/
theorem run_solo_go {c : Bool} {m m' : Map K V} {pc pc' : Pc K V} {calls : List (Call K V)}
    {log : List Ret} (hpc : pc ≠ .idle) (h : pcStep tr c m pc = some (m', .go pc'))
    (rest : List (Nat × Bool)) :
    run tr ⟨m, [⟨calls, pc, log⟩]⟩ ((0, c) :: rest) = run tr ⟨m', [⟨calls, pc', log⟩]⟩ rest := by
  simp [run, step, threadStep_busy ⟨calls, pc, log⟩ hpc, h, Thread.after]

/-- One thread, with the calls it has to make. -/
theorem Sys.init_solo (m : Map K V) (cs : List (Call K V)) : Sys.init m [cs] = ⟨m, [⟨cs, .idle, []⟩]⟩ :=
  rfl

/-! ## `find` -/

variable {m : Map K V} {k : K} {bi : Nat} {bk : Bucket} {calls : List (Call K V)} {log : List Ret}

/-- `find`'s first four steps: `_get_bucket`, `using_`'s constructor with `resize_lock`
free, and the read of `items` and `count`. -/
theorem find_prefix {l : List Slot} (hs : m.size ≠ 0) (hg : m.getBucket (tr.hasher k) = some bi)
    (hb : m.bucket? bi = some bk) (hl : bk.resizeLock = false) (hi : bk.items = some l) :
    run tr ⟨m, [⟨.find k :: calls, .idle, log⟩]⟩ (List.replicate 4 (0, true)) =
      some ⟨m.setBucket bi { bk with entered := bk.entered + 1 },
        [⟨calls, .find k bi (.probe (.scan 0 l.length false)), log⟩]⟩ := by
  simp [run, step, threadStep, callStep, hs, hg, pcStep, findStep, onBucket, hb, enter,
    usingStep, Map.bucket?_setBucket_self hb, hl, hi, Bucket.count, Thread.after]

/-- One round of the scan past a slot whose cached hash is not `h`. -/
theorem find_scan_step {c : Bool} {i stop : Nat} {sl : Slot} (hb : m.bucket? bi = some bk)
    (hi : i < stop) (hsl : bk.slot? i = some sl) (hh : sl.hash ≠ tr.hasher k) :
    pcStep tr c m (.find k bi (.probe (.scan i stop false))) =
      some (m, .go (.find k bi (.probe (.scan (i + 1) stop false)))) := by
  simp [pcStep, findStep, onBucket, hb, bucketFindStep, hi, hsl, hh, Map.setBucket_self hb]

/-- The round of the scan at a slot whose cached hash is `h`: the inner loop stops there,
and `lock` is next. -/
theorem find_scan_match {c : Bool} {i stop : Nat} {sl : Slot} (hb : m.bucket? bi = some bk)
    (hi : i < stop) (hsl : bk.slot? i = some sl) (hh : sl.hash = tr.hasher k) :
    pcStep tr c m (.find k bi (.probe (.scan i stop false))) =
      some (m, .go (.find k bi (.probe (.lock i stop false)))) := by
  simp [pcStep, findStep, onBucket, hb, bucketFindStep, hi, hsl, hh, Map.setBucket_self hb]

/-- The scan skips every slot whose cached hash is not `h`, one step each. -/
theorem find_scan_run {stop : Nat} (hb : m.bucket? bi = some bk) :
    ∀ d i, i + d ≤ stop → (∀ i', i ≤ i' → i' < i + d → ∃ sl, bk.slot? i' = some sl ∧ sl.hash ≠ tr.hasher k) →
      run tr ⟨m, [⟨calls, .find k bi (.probe (.scan i stop false)), log⟩]⟩ (List.replicate d (0, true)) =
        some ⟨m, [⟨calls, .find k bi (.probe (.scan (i + d) stop false)), log⟩]⟩
  | 0, _, _, _ => rfl
  | d + 1, i, hd, hs => by
    obtain ⟨sl, hsl, hh⟩ := hs i le_rfl (by omega)
    rw [List.replicate_succ, run_solo_go (by simp) (find_scan_step hb (by omega) hsl hh),
      find_scan_run hb d (i + 1) (by omega) fun i' h₁ h₂ => hs i' (by omega) (by omega),
      show i + 1 + d = i + (d + 1) by omega]

/-- At the end of the array: `nullptr`, `end()`, and `~using_`. -/
theorem find_miss_suffix {stop : Nat} (hb : m.bucket? bi = some bk) :
    run tr ⟨m, [⟨calls, .find k bi (.probe (.scan stop stop false)), log⟩]⟩ (List.replicate 2 (0, true)) =
      some ⟨m.setBucket bi bk.leave, [⟨calls, .idle, log ++ [.iter m.endIter]⟩]⟩ := by
  simp [run, step, threadStep, pcStep, findStep, onBucket, hb, bucketFindStep, Map.setBucket_self hb,
    Thread.after]

/-- At a slot whose cached hash is `h`, unlocked and holding an equal key: `lock`, the
recheck, the key comparison under the lock, `unlock`, and `~using_`. -/
theorem find_hit_suffix {j stop a : Nat} {sl : Slot} {bl : Block K V} {k' : K} {v' : V}
    (hb : m.bucket? bi = some bk) (hj : j < stop) (hsl : bk.slot? j = some sl)
    (hh : sl.hash = tr.hasher k) (hlk : sl.locked = false) (hp : sl.ptr = some a)
    (hbl : m.block? a = some bl) (hv : bl.value = some (k', v')) (hk : tr.keyEqual k k' = true) :
    run tr ⟨m, [⟨calls, .find k bi (.probe (.scan j stop false)), log⟩]⟩ (List.replicate 6 (0, true)) =
      some ⟨m.setBucket bi bk.leave, [⟨calls, .idle, log ++ [.iter ⟨bi, j⟩]⟩]⟩ := by
  simp [run, step, threadStep, pcStep, findStep, onBucket, hb, bucketFindStep, hj, hsl, hh, hlk,
    Bucket.slot?_setSlot, Map.bucket?_setBucket_self hb, keyAt, hp, hbl, hv, hk, Bucket.setSlot_self hsl,
    Thread.after]

/-- `find` reaches slot `j` of the scan after `4 + j` steps when no slot before it caches
`hasher(k)`. -/
theorem find_reaches {l : List Slot} {j : Nat} (hs : m.size ≠ 0) (hg : m.getBucket (tr.hasher k) = some bi)
    (hb : m.bucket? bi = some bk) (hl : bk.resizeLock = false) (hi : bk.items = some l)
    (hj : j ≤ l.length) (hbefore : ∀ i < j, ∀ sl', l[i]? = some sl' → sl'.hash ≠ tr.hasher k) :
    run tr ⟨m, [⟨.find k :: calls, .idle, log⟩]⟩ (List.replicate (4 + j) (0, true)) =
      some ⟨m.setBucket bi { bk with entered := bk.entered + 1 },
        [⟨calls, .find k bi (.probe (.scan j l.length false)), log⟩]⟩ := by
  have hb₁ : (m.setBucket bi { bk with entered := bk.entered + 1 }).bucket? bi =
      some { bk with entered := bk.entered + 1 } := Map.bucket?_setBucket_self hb
  rw [List.replicate_add, run_append, find_prefix hs hg hb hl hi, Option.some_bind,
    find_scan_run hb₁ j 0 (by omega), Nat.zero_add]
  intro i _ h'
  have hi' : i < l.length := by omega
  exact ⟨l[i], by simp [Bucket.slot?, hi, hi'], hbefore i (by omega) _ (List.getElem?_eq_getElem hi')⟩

/-- `find(k)` alone, on a map whose bucket for `k` is free of `resize`.  When no slot's
cached hash is `hasher(k)`, it returns `end()` after `count + 6` steps; when the first slot
whose cached hash is `hasher(k)` is unlocked and holds a key equal to `k`, it returns that
slot after `j + 10` steps.  Either way the map changes only in the bucket's `entered` and
`exited`, one up each. -/
theorem find_solo {l : List Slot} (hs : m.size ≠ 0) (hg : m.getBucket (tr.hasher k) = some bi)
    (hb : m.bucket? bi = some bk) (hl : bk.resizeLock = false) (hi : bk.items = some l) :
    ((∀ sl ∈ l, sl.hash ≠ tr.hasher k) →
      run tr (Sys.init m [[.find k]]) (List.replicate (l.length + 6) (0, true)) =
        some ⟨m.setBucket bi { bk with entered := bk.entered + 1, exited := bk.exited + 1 },
          [⟨[], .idle, [.iter m.endIter]⟩]⟩) ∧
    (∀ j sl a bl k' v', l[j]? = some sl → (∀ i < j, ∀ sl', l[i]? = some sl' → sl'.hash ≠ tr.hasher k) →
      sl.hash = tr.hasher k → sl.locked = false → sl.ptr = some a → m.block? a = some bl →
      bl.value = some (k', v') → tr.keyEqual k k' = true →
      run tr (Sys.init m [[.find k]]) (List.replicate (j + 10) (0, true)) =
        some ⟨m.setBucket bi { bk with entered := bk.entered + 1, exited := bk.exited + 1 },
          [⟨[], .idle, [.iter ⟨bi, j⟩]⟩]⟩) := by
  have hb₁ : (m.setBucket bi { bk with entered := bk.entered + 1 }).bucket? bi =
      some { bk with entered := bk.entered + 1 } := Map.bucket?_setBucket_self hb
  rw [Sys.init_solo]
  constructor
  · intro hmiss
    rw [show l.length + 6 = (4 + l.length) + 2 by omega, List.replicate_add, run_append,
      find_reaches hs hg hb hl hi le_rfl fun i _ sl' h => hmiss sl' (List.getElem?_mem h),
      Option.some_bind, find_miss_suffix hb₁]
    simp [Bucket.leave]
  · intro j sl a bl k' v' hj hbefore hh hlk hp hbl hv hk
    have hjl : j < l.length := (List.getElem?_eq_some_iff.mp hj).1
    rw [show j + 10 = (4 + j) + 6 by omega, List.replicate_add, run_append,
      find_reaches hs hg hb hl hi hjl.le hbefore, Option.some_bind,
      find_hit_suffix hb₁ hjl (by simpa [Bucket.slot?, hi] using hj) hh hlk hp hbl hv hk]
    simp [Bucket.leave]

end

/-- `find` alone on a one-bucket map whose slots are an empty one and `5 ↦ 5`: `find(5)`
skips the empty slot and returns the second, `find(7)` returns `end()`. -/
theorem find_solo_second_slot :
    let m : Map Nat Nat := ⟨1, [⟨0, 0, false, some [Slot.zero, ⟨some 0, false, 5⟩]⟩], [⟨1, some (5, 5), 0, []⟩]⟩
    let m' : Map Nat Nat := m.setBucket 0 ⟨1, 1, false, some [Slot.zero, ⟨some 0, false, 5⟩]⟩
    run intTraits (Sys.init m [[.find 5]]) (List.replicate 11 (0, true)) =
        some ⟨m', [⟨[], .idle, [.iter ⟨0, 1⟩]⟩]⟩ ∧
      run intTraits (Sys.init m [[.find 7]]) (List.replicate 8 (0, true)) =
        some ⟨m', [⟨[], .idle, [.iter ⟨1, 0⟩]⟩]⟩ := by
  intro m m'
  have hs : m.size ≠ 0 := by decide
  have hb : m.bucket? 0 = some ⟨0, 0, false, some [Slot.zero, ⟨some 0, false, 5⟩]⟩ := by decide
  have hbl : m.block? 0 = some ⟨1, some (5, 5), 0, []⟩ := by decide
  exact ⟨(find_solo hs (by decide : m.getBucket (intTraits.hasher 5) = some 0) hb rfl rfl).2 1 _ 0 _ 5 5
      rfl (fun i hi _ hsl => by obtain rfl : i = 0 := (by omega); cases hsl; decide) rfl rfl rfl hbl rfl rfl,
    (find_solo hs (by decide : m.getBucket (intTraits.hasher 7) = some 0) hb rfl rfl).1 (by decide)⟩

section
variable {K V : Type} {tr : Traits K} {m : Map K V} {k : K} {bi : Nat} {bk : Bucket}
  {calls : List (Call K V)} {log : List Ret}

/-! ## When `find` never returns -/

/-- The cycle of `bucket_type::find` at an empty unlocked slot whose cached hash is `h`:
`lock`; the recheck, which fails on the null pointer; `unlock`; and the inner loop, which
stops at the same slot again.  Four steps, and the map is as it was. -/
theorem find_empty_cycle {j stop : Nat} {sl : Slot} (hb : m.bucket? bi = some bk) (hj : j < stop)
    (hsl : bk.slot? j = some sl) (hh : sl.hash = tr.hasher k) (hp : sl.ptr = none)
    (hlk : sl.locked = false) :
    run tr ⟨m, [⟨calls, .find k bi (.probe (.scan j stop false)), log⟩]⟩ (List.replicate 4 (0, true)) =
      some ⟨m, [⟨calls, .find k bi (.probe (.scan j stop false)), log⟩]⟩ := by
  simp [run, step, threadStep, pcStep, findStep, onBucket, hb, bucketFindStep, hj, hsl, hh, hp, hlk,
    Bucket.slot?_setSlot, Map.bucket?_setBucket_self hb, Bucket.setSlot_self hsl, Map.setBucket_self hb,
    Thread.after]

/-- The cycle of `find` at an unlocked slot whose cached hash is `h` and whose key is not
equal to `k`: `lock`, the recheck, the comparison, `unlock`, and `itb->find(i, h)` resumed
from that same slot.  Six steps, and the map is as it was. -/
theorem find_collide_cycle {j a : Nat} {sl : Slot} {bl : Block K V} {k' : K} {v' : V}
    (hb : m.bucket? bi = some bk) (hj : j < bk.count) (hsl : bk.slot? j = some sl)
    (hh : sl.hash = tr.hasher k) (hlk : sl.locked = false) (hp : sl.ptr = some a)
    (hbl : m.block? a = some bl) (hv : bl.value = some (k', v')) (hk : tr.keyEqual k k' = false) :
    run tr ⟨m, [⟨calls, .find k bi (.probe (.scan j bk.count false)), log⟩]⟩ (List.replicate 6 (0, true)) =
      some ⟨m, [⟨calls, .find k bi (.probe (.scan j bk.count false)), log⟩]⟩ := by
  obtain ⟨l, hi⟩ : ∃ l, bk.items = some l := by
    cases h : bk.items <;> simp_all [Bucket.slot?]
  simp [run, step, threadStep, pcStep, findStep, onBucket, hb, bucketFindStep, hj, hsl, hh, hlk,
    Bucket.slot?_setSlot, Map.bucket?_setBucket_self hb, keyAt, hp, hbl, hv, hk, Bucket.setSlot_self hsl,
    Map.setBucket_self hb, hi, Thread.after]

/-- `find(k)` alone never returns when the first slot whose cached hash is `hasher(k)` is
unlocked and is either empty or holds a key not equal to `k`.  From step `4 + j` on the
thread is back at that slot every 4 steps (empty) or every 6 (another key), for ever.  An
empty slot has such a hash when `hasher(k)` is 0: `resize` zeroes the slots it adds and
`detach` sets `hash=0`. -/
theorem find_solo_spins {l : List Slot} {j : Nat} {sl : Slot} (hs : m.size ≠ 0)
    (hg : m.getBucket (tr.hasher k) = some bi) (hb : m.bucket? bi = some bk)
    (hl : bk.resizeLock = false) (hi : bk.items = some l) (hj : l[j]? = some sl)
    (hbefore : ∀ i < j, ∀ sl', l[i]? = some sl' → sl'.hash ≠ tr.hasher k)
    (hh : sl.hash = tr.hasher k) (hlk : sl.locked = false) :
    (sl.ptr = none → ∀ N, run tr (Sys.init m [[.find k]]) (List.replicate (4 + j + 4 * N) (0, true)) =
      some ⟨m.setBucket bi { bk with entered := bk.entered + 1 },
        [⟨[], .find k bi (.probe (.scan j l.length false)), []⟩]⟩) ∧
    (∀ a bl k' v', sl.ptr = some a → m.block? a = some bl → bl.value = some (k', v') →
      tr.keyEqual k k' = false → ∀ N, run tr (Sys.init m [[.find k]]) (List.replicate (4 + j + 6 * N) (0, true)) =
      some ⟨m.setBucket bi { bk with entered := bk.entered + 1 },
        [⟨[], .find k bi (.probe (.scan j l.length false)), []⟩]⟩) := by
  rw [Sys.init_solo]
  have hb₁ : (m.setBucket bi { bk with entered := bk.entered + 1 }).bucket? bi =
      some { bk with entered := bk.entered + 1 } := Map.bucket?_setBucket_self hb
  have hjl : j < l.length := (List.getElem?_eq_some_iff.mp hj).1
  have hsl : ({ bk with entered := bk.entered + 1 } : Bucket).slot? j = some sl := by
    simpa [Bucket.slot?, hi] using hj
  have hreach := @find_reaches _ _ tr m k bi bk [] [] l j hs hg hb hl hi hjl.le hbefore
  refine ⟨fun hp => run_rounds tr (f := fun _ => _) hreach fun _ => find_empty_cycle hb₁ hjl hsl hh hp hlk,
    fun a bl k' v' hp hbl hv hk => run_rounds tr (f := fun _ => _) hreach fun _ => ?_⟩
  have hc : ({ bk with entered := bk.entered + 1 } : Bucket).count = l.length := by simp [Bucket.count, hi]
  rw [← hc]
  exact find_collide_cycle hb₁ (by rw [hc]; exact hjl) hsl hh hlk hp hbl hv hk

end

/-- A user `Hash` under which keys of one parity collide; `Pred`-equal keys still hash
equally. -/
def parityTraits : Traits Nat := ⟨(· % 2), (· == ·), 8⟩

/-- `find(0)` beside an empty slot, and `find(7)` under `parityTraits` at a slot holding
`5`, are still inside `find` after 13 and after 16 steps. -/
theorem find_solo_spins_withEntry :
    run intTraits (Sys.init (Map.withEntry intTraits 5 5 1) [[.find 0]]) (List.replicate 13 (0, true)) =
        some ⟨(Map.withEntry intTraits 5 5 1).setBucket 0 ⟨1, 0, false, some [⟨some 0, false, 5⟩, Slot.zero]⟩,
          [⟨[], .find 0 0 (.probe (.scan 1 2 false)), []⟩]⟩ ∧
      run parityTraits (Sys.init (Map.withEntry parityTraits 5 5 0) [[.find 7]]) (List.replicate 16 (0, true)) =
        some ⟨(Map.withEntry parityTraits 5 5 0).setBucket 0 ⟨1, 0, false, some [⟨some 0, false, 1⟩]⟩,
          [⟨[], .find 7 0 (.probe (.scan 0 1 false)), []⟩]⟩ :=
  ⟨(@find_solo_spins _ _ intTraits (Map.withEntry intTraits 5 5 1) 0 0 _ [⟨some 0, false, 5⟩, Slot.zero] 1
      Slot.zero (by decide) (by decide) rfl rfl rfl rfl
      (fun i hi _ h => by obtain rfl : i = 0 := (by omega); cases h; decide) rfl rfl).1 rfl 2,
    (@find_solo_spins _ _ parityTraits (Map.withEntry parityTraits 5 5 0) 7 0 _ [⟨some 0, false, 1⟩] 0
      ⟨some 0, false, 1⟩ (by decide) (by decide) rfl rfl rfl rfl (fun i hi => absurd hi (Nat.not_lt_zero i))
      rfl rfl).2 0 _ 5 5 rfl rfl rfl rfl 2⟩

section
variable {K V : Type} {tr : Traits K} {m : Map K V} {bi : Nat} {bk : Bucket} {calls : List (Call K V)}
  {log : List Ret}

/-! ## `clear` -/

/-- Every slot of every bucket, bucket by bucket: what `clear` destroys, in order. -/
def Map.slots (m : Map K V) : List Slot := m.buckets.flatMap fun b => b.items.getD []

/-- `destroyItem` writes only the allocator, so it commutes with a write of a bucket. -/
theorem destroyItem_setBucket (m : Map K V) (bi : Nat) (b : Bucket) (sl : Slot) :
    destroyItem tr (m.setBucket bi b) sl = (destroyItem tr m sl).setBucket bi b := by
  unfold destroyItem
  split
  · rfl
  · rw [Map.block?_setBucket]; split <;> rfl

theorem foldl_destroyItem_setBucket (l : List Slot) (m : Map K V) (bi : Nat) (b : Bucket) :
    l.foldl (destroyItem tr) (m.setBucket bi b) = (l.foldl (destroyItem tr) m).setBucket bi b := by
  induction l generalizing m with
  | nil => rfl
  | cons sl l ih => rw [List.foldl_cons, destroyItem_setBucket, ih]; rfl

@[simp] theorem foldl_destroyItem_size (l : List Slot) (m : Map K V) :
    (l.foldl (destroyItem tr) m).size = m.size := by
  rw [foldl_destroyItem_eq]

/-- One bucket of `clear`'s loop, at rest: `lock`, the two loads of the wait, the
destruction of every slot with `free(items)`, and the `lock_guard`'s destructor. -/
theorem clear_bucket_run (hb : m.bucket? bi = some bk) (he : bk.entered = bk.exited)
    (hl : bk.resizeLock = false) :
    run tr ⟨m, [⟨calls, .clear bi (.drain .lock), log⟩]⟩ (List.replicate 5 (0, true)) =
      some ⟨((bk.items.getD []).foldl (destroyItem tr) m).setBucket bi { bk with items := none },
        [⟨calls, if bi + 1 < m.buckets.length then .clear (bi + 1) (.drain .lock) else .clearSize,
          log⟩]⟩ := by
  have hb' : ∀ l : List Slot, (l.foldl (destroyItem tr) m).bucket? bi = some bk := fun l => by
    rw [Map.bucket?, foldl_destroyItem_buckets]; exact hb
  cases hi : bk.items <;>
  simp [run, step, threadStep, pcStep, clearStep, onBucket, drain, drainStep, hb, hl, he,
    Map.bucket?_setBucket_self hb, hi, foldl_destroyItem_setBucket, Map.bucket?_setBucket_self (hb' _),
    foldl_destroyItem_buckets, Thread.after]

/-- `clear`'s loop from bucket `pre.length` to the end, every bucket left at rest: five
steps a bucket, each bucket's slots destroyed in order and its `items` null. -/
theorem clear_loop_run : ∀ (rest pre : List Bucket) (m : Map K V), m.buckets = pre ++ rest →
    rest ≠ [] → (∀ b ∈ rest, b.entered = b.exited ∧ b.resizeLock = false) →
    run tr ⟨m, [⟨calls, .clear pre.length (.drain .lock), log⟩]⟩ (List.replicate (5 * rest.length) (0, true)) =
      some ⟨⟨m.size, pre ++ rest.map fun b => { b with items := none },
          ((rest.flatMap fun b => b.items.getD []).foldl (destroyItem tr) m).heap⟩,
        [⟨calls, .clearSize, log⟩]⟩
  | [], _, _, _, h, _ => absurd rfl h
  | bk :: rest, pre, m, hm, _, hq => by
    have hb : m.bucket? pre.length = some bk := by
      rw [Map.bucket?, hm, List.get?_eq_getElem?, List.getElem?_append_right le_rfl]; simp
    have hm₁ : (((bk.items.getD []).foldl (destroyItem tr) m).setBucket pre.length
        { bk with items := none }).buckets = (pre ++ [{ bk with items := none }]) ++ rest := by
      simp [Map.setBucket, foldl_destroyItem_buckets, hm]
    rw [show 5 * (bk :: rest).length = 5 + 5 * rest.length by simp [Nat.mul_succ, Nat.add_comm],
      List.replicate_add, run_append, clear_bucket_run hb (hq bk (.head _)).1 (hq bk (.head _)).2,
      Option.some_bind]
    cases rest with
    | nil =>
      simp [hm, Map.setBucket, foldl_destroyItem_buckets, run]
    | cons bk' rest =>
      have hlen : pre.length + 1 < m.buckets.length := by simp [hm]
      rw [if_pos hlen, show pre.length + 1 = (pre ++ [{ bk with items := none }]).length by simp,
        clear_loop_run (bk' :: rest) _ _ hm₁ (List.cons_ne_nil _ _) fun b hb => hq b (.tail _ hb)]
      simp [foldl_destroyItem_setBucket]

/-- `clear()` as the next call of the only thread; see `clear_solo`. -/
theorem clear_run (hm : m.AtRest) :
    run tr ⟨m, [⟨.clear :: calls, .idle, log⟩]⟩ (List.replicate (5 * m.buckets.length + 2) (0, true)) =
      some ⟨⟨0, m.buckets.map fun b => { b with items := none }, (m.slots.foldl (destroyItem tr) m).heap⟩,
        [⟨calls, .idle, log ++ [.unit]⟩]⟩ := by
  have hq : ∀ b ∈ m.buckets, b.entered = b.exited ∧ b.resizeLock = false := fun b hb => by
    obtain ⟨j, hj, rfl⟩ := List.getElem_of_mem hb
    simpa [Map.bucketD, Map.bucket?, hj] using hm j
  cases hbs : m.buckets with
  | nil => simp [run, step, threadStep, callStep, hbs, pcStep, Thread.after, Map.slots]
  | cons bk rest =>
    have hcall : run tr ⟨m, [⟨.clear :: calls, .idle, log⟩]⟩ (List.replicate 1 (0, true)) =
        some ⟨m, [⟨calls, .clear 0 (.drain .lock), log⟩]⟩ := by
      simp [run, step, threadStep, callStep, hbs, Thread.after]
    have hloop := @clear_loop_run K V tr calls log (bk :: rest) [] m (by simp [hbs])
      (List.cons_ne_nil _ _) (hbs ▸ hq)
    simp only [List.length_nil, List.nil_append] at hloop
    rw [show 5 * (bk :: rest).length + 2 = (1 + 5 * (bk :: rest).length) + 1 by omega,
      List.replicate_add, List.replicate_add, run_append, run_append, hcall, Option.some_bind, hloop,
      Option.some_bind]
    simp [run, step, threadStep, pcStep, Thread.after, Map.slots, hbs]

/-- `clear()` alone, on a map whose buckets are all at rest: after `5 · n + 2` steps, for
`n` buckets, it returns with `_size` zero, every bucket's `items` null (its counters and
`resize_lock` as they were), and the allocator as `destroy` leaves it after every slot
of every bucket, in order. -/
theorem clear_solo (hm : m.AtRest) :
    run tr (Sys.init m [[.clear]]) (List.replicate (5 * m.buckets.length + 2) (0, true)) =
      some ⟨⟨0, m.buckets.map fun b => { b with items := none }, (m.slots.foldl (destroyItem tr) m).heap⟩,
        [⟨[], .idle, [.unit]⟩]⟩ := by
  rw [Sys.init_solo]; exact clear_run hm

end

/-- `clear()` alone on the map holding `5 ↦ 5` in the first of two slots: seven steps,
and block 0 is destroyed and given back with `sizeof(value_type)`. -/
theorem clear_solo_withEntry :
    run intTraits (Sys.init (Map.withEntry intTraits 5 5 1) [[.clear]]) (List.replicate 7 (0, true)) =
      some ⟨⟨0, [⟨0, 0, false, none⟩], [⟨1, none, 1, [8]⟩]⟩, [⟨[], .idle, [.unit]⟩]⟩ :=
  clear_solo fun b => by cases b <;> simp [Map.withEntry, Map.bucketD, Map.bucket?, Bucket.init]

section
variable {K V : Type} {tr : Traits K} {m : Map K V}

/-! ## What `clear` frees -/

theorem Map.ptrAt_eq (m : Map K V) (b i : Nat) :
    m.ptrAt b i = (m.buckets[b]?.bind (Bucket.slot? · i)).bind Slot.ptr := by
  simp only [Map.ptrAt, Map.bucketD, Map.bucket?, List.get?_eq_getElem?]
  cases m.buckets[b]? <;> rfl

theorem mem_flatMap_ptrs {a : Nat} : ∀ L : List Bucket,
    a ∈ (L.flatMap fun bk => bk.items.getD []).filterMap Slot.ptr ↔
      ∃ b i : Nat, (L[b]?.bind (Bucket.slot? · i)).bind Slot.ptr = some a
  | [] => by simp
  | bk :: L => by
    rw [List.flatMap_cons, List.filterMap_append, List.mem_append, Bucket.mem_ptrs,
      mem_flatMap_ptrs L]
    constructor
    · rintro (⟨i, h⟩ | ⟨b, i, h⟩)
      · exact ⟨0, i, by simpa using h⟩
      · exact ⟨b + 1, i, by simpa using h⟩
    · rintro ⟨_ | b, i, h⟩
      · exact .inl ⟨i, by simpa using h⟩
      · exact .inr ⟨b, i, by simpa using h⟩

/-- The pointers of all the slots of a list of buckets are distinct when no two positions
hold one. -/
theorem nodup_flatMap_ptrs : ∀ L : List Bucket,
    (∀ b i b' i' a : Nat, (L[b]?.bind (Bucket.slot? · i)).bind Slot.ptr = some a →
      (L[b']?.bind (Bucket.slot? · i')).bind Slot.ptr = some a → b = b' ∧ i = i') →
    ((L.flatMap fun bk => bk.items.getD []).filterMap Slot.ptr).Nodup
  | [], _ => by simp
  | bk :: L, h => by
    rw [List.flatMap_cons, List.filterMap_append, List.Nodup, List.pairwise_append]
    refine ⟨?_, nodup_flatMap_ptrs L fun b i b' i' a hb hb' => ?_, fun a ha a' ha' he => ?_⟩
    · rcases bk with ⟨e, x, r, _ | l⟩
      · simp
      · exact nodup_filterMap_ptr fun i j a hi hj =>
          (h 0 i 0 j a (by simpa [Bucket.slot?] using hi) (by simpa [Bucket.slot?] using hj)).2
    · obtain ⟨hbb, hii⟩ := h (b + 1) i (b' + 1) i' a (by simpa using hb) (by simpa using hb')
      exact ⟨Nat.succ.inj hbb, hii⟩
    · subst he
      obtain ⟨i, hi⟩ := Bucket.mem_ptrs.mp ha
      obtain ⟨b, i', hb⟩ := (mem_flatMap_ptrs L).mp ha'
      exact absurd (h 0 i (b + 1) i' a (by simpa using hi) (by simpa using hb)).1
        (Nat.succ_ne_zero b).symm

theorem Map.mem_slots_ptrs {m : Map K V} {a : Nat} :
    a ∈ m.slots.filterMap Slot.ptr ↔ ∃ b i, m.ptrAt b i = some a := by
  simp only [Map.slots, mem_flatMap_ptrs, Map.ptrAt_eq]

/-- `clear`'s destruction of every slot of every bucket, on a map where the allocator's
invariant holds: each block some slot points at goes from holding a value to given back,
destroyed and deallocated once; every other block is as it was. -/
theorem destroy_slots_frees_each_once {hs : List (Option (Nat × Life))} (ho : Owned m hs) :
    (∀ b i a, m.ptrAt b i = some a → (m.slots.foldl (destroyItem tr) m).life a = some .freed) ∧
    ∀ a, (∀ b i, m.ptrAt b i ≠ some a) → (m.slots.foldl (destroyItem tr) m).life a = m.life a := by
  have hnd : (m.slots.filterMap Slot.ptr).Nodup := nodup_flatMap_ptrs m.buckets
    fun b i b' i' a h h' => ho.unique b i b' i' a (by rwa [Map.ptrAt_eq]) (by rwa [Map.ptrAt_eq])
  refine ⟨fun b i a hp => ?_, fun a h => ?_⟩
  · obtain ⟨bl, hbl, hlive⟩ := Option.bind_eq_some.mp (ho.slots b i a hp)
    rw [Map.life, foldl_destroyItem_block? _ hnd, if_pos (Map.mem_slots_ptrs.mpr ⟨b, i, hp⟩), hbl]
    exact Block.life_kill hlive _
  · rw [Map.life, foldl_destroyItem_block? _ hnd, if_neg fun hm => ?_]
    · rfl
    · obtain ⟨b, i, hp⟩ := Map.mem_slots_ptrs.mp hm
      exact h b i hp

end

/-- On the map holding `5 ↦ 5`, the destruction of every slot gives block 0 back. -/
theorem destroy_slots_withEntry :
    ((Map.withEntry intTraits 5 5 1).slots.foldl (destroyItem intTraits)
      (Map.withEntry intTraits 5 5 1)).life 0 = some .freed :=
  (destroy_slots_frees_each_once (Sys.owned_withEntry intTraits 5 5 1 [])).1 0 0 0 rfl

section
variable {K V : Type} {tr : Traits K} {m : Map K V} {bk : Bucket} {it : Iter} {sl : Slot}
  {calls : List (Call K V)} {log : List Ret}

/-! ## `erase` -/

@[simp] theorem Map.bucket?_setBlock (m : Map K V) (a : Nat) (bl : Block K V) (bi : Nat) :
    (m.setBlock a bl).bucket? bi = m.bucket? bi := rfl

/-- Bumping a bucket's counters leaves its slots. -/
@[simp] theorem Bucket.slot?_mk (e x : Nat) (r : Bool) (b : Bucket) (i : Nat) :
    (Bucket.mk e x r b.items).slot? i = b.slot? i := rfl

@[simp] theorem Bucket.setSlot_mk (e x : Nat) (r : Bool) (b : Bucket) (i : Nat) (sl : Slot) :
    (Bucket.mk e x r b.items).setSlot i sl = Bucket.mk e x r (b.setSlot i sl).items := rfl

@[simp] theorem Bucket.count_mk (e x : Nat) (r : Bool) (b : Bucket) :
    (Bucket.mk e x r b.items).count = b.count := rfl

@[simp] theorem Slot.moveOut_ptr (sl : Slot) : sl.moveOut.ptr = none := rfl

@[simp] theorem Slot.moveOut_locked (sl : Slot) : sl.moveOut.locked = false := rfl

@[simp] theorem Map.setBlock_setBlock (m : Map K V) (a : Nat) (bl bl' : Block K V) :
    (m.setBlock a bl).setBlock a bl' = m.setBlock a bl' := by
  simp [Map.setBlock, List.set_set]

/-- Writes of a bucket and of a block commute; `simp` puts the block's outside. -/
@[simp] theorem Map.setBucket_setBlock (m : Map K V) (a : Nat) (bl : Block K V) (bi : Nat) (b : Bucket) :
    (m.setBlock a bl).setBucket bi b = (m.setBucket bi b).setBlock a bl := rfl

theorem Slot.moveOut_lock {sl : Slot} (hp : sl.ptr = none) (hlk : sl.locked = false) :
    sl.lock.moveOut = sl := by
  cases sl; simp_all [Slot.lock, Slot.moveOut]

/-- `erase(it)` as the next call of the only thread; see `erase_solo`. -/
theorem erase_run (hb : m.bucket? it.bucket = some bk) (hl : bk.resizeLock = false)
    (hsl : bk.slot? it.offset = some sl) (hlk : sl.locked = false) :
    (sl.ptr = none →
      run tr ⟨m, [⟨.erase it :: calls, .idle, log⟩]⟩ (List.replicate 8 (0, true)) =
        some ⟨m.setBucket it.bucket { bk with entered := bk.entered + 1, exited := bk.exited + 1 },
          [⟨calls, .idle, log ++ [.iter (it.succ bk)]⟩]⟩) ∧
    (∀ a bl, sl.ptr = some a → m.block? a = some bl →
      run tr ⟨m, [⟨.erase it :: calls, .idle, log⟩]⟩ (List.replicate 10 (0, true)) =
        some ⟨(m.setBucket it.bucket
            (({ bk with entered := bk.entered + 1, exited := bk.exited + 1 } : Bucket).setSlot it.offset
              Slot.zero)).setBlock a
            { bl with value := none, destroyed := bl.destroyed + 1, freed := bl.freed ++ [tr.valueSize] },
          [⟨calls, .idle, log ++ [.iter (it.succ bk)]⟩]⟩) := by
  have hlt : it.bucket < m.buckets.length := by
    by_contra hc; simp [Map.bucket?, List.getElem?_eq_none (not_lt.mp hc)] at hb
  constructor
  · intro hp
    simp [run, step, threadStep, callStep, hlt, pcStep, eraseStep, onBucket, hb, enter,
      usingStep, Map.bucket?_setBucket_self hb, hl, Bucket.slot?_setSlot, hsl, hlk, Thread.after,
      Slot.moveOut_lock hp hlk, Bucket.setSlot_self hsl, hp, Bucket.leave, Iter.succ]
  · intro a bl hp hbl
    simp [run, step, threadStep, callStep, hlt, pcStep, eraseStep, onBucket, hb, enter,
      usingStep, Map.bucket?_setBucket_self hb, hl, Bucket.slot?_setSlot, hsl, hlk, hp, hbl, Thread.after,
      Map.block?_setBlock, Bucket.leave, Iter.succ, Slot.zero]

/-- `erase(it)` alone, at a slot no thread has locked in a bucket free of `resize`.  When
the slot is empty, `remove` moves nothing out: after eight steps the bucket is as it was
but for `entered` and `exited`, one up each.  When it points at block `a`, after ten
steps the slot is empty, unlocked and of hash 0, and block `a` is destroyed and given
back.  Either way `erase` returns the iterator after `it`. -/
theorem erase_solo (hb : m.bucket? it.bucket = some bk) (hl : bk.resizeLock = false)
    (hsl : bk.slot? it.offset = some sl) (hlk : sl.locked = false) :
    (sl.ptr = none →
      run tr (Sys.init m [[.erase it]]) (List.replicate 8 (0, true)) =
        some ⟨m.setBucket it.bucket { bk with entered := bk.entered + 1, exited := bk.exited + 1 },
          [⟨[], .idle, [.iter (it.succ bk)]⟩]⟩) ∧
    (∀ a bl, sl.ptr = some a → m.block? a = some bl →
      run tr (Sys.init m [[.erase it]]) (List.replicate 10 (0, true)) =
        some ⟨(m.setBucket it.bucket
            (({ bk with entered := bk.entered + 1, exited := bk.exited + 1 } : Bucket).setSlot it.offset
              Slot.zero)).setBlock a
            { bl with value := none, destroyed := bl.destroyed + 1, freed := bl.freed ++ [tr.valueSize] },
          [⟨[], .idle, [.iter (it.succ bk)]⟩]⟩) := by
  rw [Sys.init_solo]
  exact erase_run hb hl hsl hlk

end

/-- `erase` alone on the map holding `5 ↦ 5` in the first of two slots: erasing the entry
empties its slot and gives block 0 back, erasing the empty slot after it only bumps the
counters; each returns the next position. -/
theorem erase_solo_withEntry :
    run intTraits (Sys.init (Map.withEntry intTraits 5 5 1) [[.erase ⟨0, 0⟩]]) (List.replicate 10 (0, true)) =
        some ⟨⟨1, [⟨1, 1, false, some [Slot.zero, Slot.zero]⟩], [⟨1, none, 1, [8]⟩]⟩,
          [⟨[], .idle, [.iter ⟨0, 1⟩]⟩]⟩ ∧
      run intTraits (Sys.init (Map.withEntry intTraits 5 5 1) [[.erase ⟨0, 1⟩]]) (List.replicate 8 (0, true)) =
        some ⟨⟨1, [⟨1, 1, false, some [⟨some 0, false, 5⟩, Slot.zero]⟩], [⟨1, some (5, 5), 0, []⟩]⟩,
          [⟨[], .idle, [.iter ⟨1, 0⟩]⟩]⟩ :=
  ⟨(@erase_solo _ _ intTraits (Map.withEntry intTraits 5 5 1) _ ⟨0, 0⟩ _ rfl rfl rfl rfl).2 0 _ rfl rfl,
    (@erase_solo _ _ intTraits (Map.withEntry intTraits 5 5 1) _ ⟨0, 1⟩ _ rfl rfl rfl rfl).1 rfl⟩

section
variable {K V : Type} {tr : Traits K} {m : Map K V} {k : K} {x : V} {bi : Nat} {bk : Bucket}
  {calls : List (Call K V)} {log : List Ret}

/-! ## `insert` -/

/-- A map built from another's buckets reads them as the other does. -/
@[simp] theorem Map.bucket?_mk (s : Nat) (b : Map K V) (h : List (Block K V)) (i : Nat) :
    (Map.mk s b.buckets h).bucket? i = b.bucket? i := rfl

@[simp] theorem Map.setBucket_mk (s : Nat) (b : Map K V) (h : List (Block K V)) (i : Nat) (bk : Bucket) :
    (Map.mk s b.buckets h).setBucket i bk = Map.mk s (b.setBucket i bk).buckets h := rfl

/-- `insert`'s first four steps: `_get_bucket`, `using_`'s constructor, and the read of
`items` and `count`; `emptyidx` starts at 0, so the lookup asks for an empty slot. -/
theorem insert_prefix {l : List Slot} (hg : m.getBucket (tr.hasher k) = some bi)
    (hb : m.bucket? bi = some bk) (hl : bk.resizeLock = false) (hi : bk.items = some l) :
    run tr ⟨m, [⟨.insert k x :: calls, .idle, log⟩]⟩ (List.replicate 4 (0, true)) =
      some ⟨m.setBucket bi { bk with entered := bk.entered + 1 },
        [⟨calls, .insert k x bi 0 (.probe (.scan 0 l.length true)), log⟩]⟩ := by
  simp [run, step, threadStep, callStep, hg, pcStep, insertStep, onBucket, hb, enter,
    usingStep, Map.bucket?_setBucket_self hb, hl, hi, Bucket.count, Thread.after]

/-- One round of the lookup past a slot whose cached hash is not `h`, recording nothing:
the slot is full, or `empty` is no longer asked for. -/
theorem insert_scan_skip {c rec : Bool} {i stop hint : Nat} {sl : Slot} (hb : m.bucket? bi = some bk)
    (hi : i < stop) (hsl : bk.slot? i = some sl) (hh : sl.hash ≠ tr.hasher k)
    (hr : rec = true → sl.ptr.isSome = true) :
    pcStep tr c m (.insert k x bi hint (.probe (.scan i stop rec))) =
      some (m, .go (.insert k x bi hint (.probe (.scan (i + 1) stop rec)))) := by
  have hn : (rec && sl.ptr.isNone) = false := by
    cases rec <;> cases hp : sl.ptr <;> simp_all
  simp [pcStep, insertStep, onBucket, hb, bucketFindStep, hi, hsl, hh, hn, Map.setBucket_self hb]

/-- The round at the first empty slot: it becomes `emptyidx`. -/
theorem insert_scan_record {c : Bool} {i stop hint : Nat} {sl : Slot} (hb : m.bucket? bi = some bk)
    (hi : i < stop) (hsl : bk.slot? i = some sl) (hh : sl.hash ≠ tr.hasher k) (hp : sl.ptr = none) :
    pcStep tr c m (.insert k x bi hint (.probe (.scan i stop true))) =
      some (m, .go (.insert k x bi i (.probe (.scan (i + 1) stop false)))) := by
  simp [pcStep, insertStep, onBucket, hb, bucketFindStep, hi, hsl, hh, hp, Map.setBucket_self hb]

/-- The lookup skips every slot whose cached hash is not `h`, one step each, recording
nothing while the slots it passes are full or `empty` is no longer asked for. -/
theorem insert_scan_run {stop hint : Nat} {rec : Bool} (hb : m.bucket? bi = some bk) :
    ∀ d i, i + d ≤ stop → (∀ i', i ≤ i' → i' < i + d →
        ∃ sl, bk.slot? i' = some sl ∧ sl.hash ≠ tr.hasher k ∧ (rec = true → sl.ptr.isSome = true)) →
      run tr ⟨m, [⟨calls, .insert k x bi hint (.probe (.scan i stop rec)), log⟩]⟩ (List.replicate d (0, true)) =
        some ⟨m, [⟨calls, .insert k x bi hint (.probe (.scan (i + d) stop rec)), log⟩]⟩
  | 0, _, _, _ => rfl
  | d + 1, i, hd, hs => by
    obtain ⟨sl, hsl, hh, hr⟩ := hs i le_rfl (by omega)
    rw [List.replicate_succ, run_solo_go (by simp) (insert_scan_skip hb (by omega) hsl hh hr),
      insert_scan_run hb d (i + 1) (by omega) fun i' h₁ h₂ => hs i' (by omega) (by omega),
      show i + 1 + d = i + (d + 1) by omega]

/-- From the end of the lookup, `emptyidx` an empty unlocked slot `e`: the miss and
`~using_`; the claim of `e` under a new `using_`; `resize` to `count + count/2` once the
wait sees the bucket empty; `allocate`, `construct`, and `i->set(ret, hash)` under a third
`using_`; and `++_size`. -/
theorem insert_suffix {l : List Slot} {e : Nat} {sl : Slot} (hb : m.bucket? bi = some bk)
    (hl : bk.resizeLock = false) (hr : bk.entered = bk.exited + 1) (hi : bk.items = some l)
    (hsl : l[e]? = some sl) (hp : sl.ptr = none) (hlk : sl.locked = false) :
    run tr ⟨m, [⟨calls, .insert k x bi e (.probe (.scan l.length l.length false)), log⟩]⟩
        (List.replicate 19 (0, true)) =
      some ⟨Map.setBucket ⟨m.size + 1, m.buckets, m.heap ++ [⟨1, some (k, x), 0, []⟩]⟩ bi
          ⟨bk.entered + 2, bk.exited + 3, false,
            some ((l ++ List.replicate (l.length / 2) Slot.zero).set e ⟨some m.heap.length, true, tr.hasher k⟩)⟩,
        [⟨calls, .idle, log ++ [.pair ⟨bi, e⟩ true]⟩]⟩ := by
  have he : e < l.length := (List.getElem?_eq_some_iff.mp hsl).1
  simp [run, step, threadStep, pcStep, insertStep, bucketInsertStep, onBucket, hb, bucketFindStep, enter,
    usingStep, drain, drainStep, Map.bucket?_setBucket_self hb, hl, hr, hi, Bucket.count, Bucket.slot?,
    hsl, hp, hlk, he, Slot.vacant, Thread.after, Bucket.leave, Bucket.setSlot, Bucket.resized,
    Slot.lock, Slot.set, List.take_of_length_le, Map.block?, Map.setBlock, List.getElem?_append_left]

/-- `insert((k, x))` as the next call of the only thread; see `insert_solo`. -/
theorem insert_run {l : List Slot} {e : Nat} {sl : Slot} (hg : m.getBucket (tr.hasher k) = some bi)
    (hb : m.bucket? bi = some bk) (hr : bk.entered = bk.exited) (hl : bk.resizeLock = false)
    (hi : bk.items = some l) (hh : ∀ sl ∈ l, sl.hash ≠ tr.hasher k) (he : l[e]? = some sl)
    (hp : sl.ptr = none) (hlk : sl.locked = false)
    (hfull : ∀ i < e, ∀ sl', l[i]? = some sl' → sl'.ptr.isSome = true) :
    run tr ⟨m, [⟨.insert k x :: calls, .idle, log⟩]⟩ (List.replicate (l.length + 23) (0, true)) =
      some ⟨Map.setBucket ⟨m.size + 1, m.buckets, m.heap ++ [⟨1, some (k, x), 0, []⟩]⟩ bi
          ⟨bk.entered + 3, bk.exited + 3, false,
            some ((l ++ List.replicate (l.length / 2) Slot.zero).set e ⟨some m.heap.length, true, tr.hasher k⟩)⟩,
        [⟨calls, .idle, log ++ [.pair ⟨bi, e⟩ true]⟩]⟩ := by
  have hel : e < l.length := (List.getElem?_eq_some_iff.mp he).1
  have hb₁ : (m.setBucket bi { bk with entered := bk.entered + 1 }).bucket? bi =
      some { bk with entered := bk.entered + 1 } := Map.bucket?_setBucket_self hb
  have hsl : ∀ i, ({ bk with entered := bk.entered + 1 } : Bucket).slot? i = l[i]? := by
    simp [Bucket.slot?, hi]
  have hslot : ∀ i, i < l.length → ∃ sl', ({ bk with entered := bk.entered + 1 } : Bucket).slot? i = some sl' ∧
      l[i]? = some sl' ∧ sl'.hash ≠ tr.hasher k := fun i hi' =>
    ⟨l[i], by rw [hsl]; simp [hi'], by simp [hi'], hh _ (List.getElem_mem _)⟩
  rw [show l.length + 23 = 4 + (e + ((l.length - (e + 1) + 19) + 1)) by omega, List.replicate_add,
    run_append, insert_prefix hg hb hl hi, Option.some_bind, List.replicate_add, run_append,
    insert_scan_run hb₁ e 0 (by omega) ?_, Option.some_bind, Nat.zero_add, List.replicate_succ,
    run_solo_go (by simp) (insert_scan_record hb₁ hel (by rw [hsl, he]) (hh sl (List.getElem?_mem he)) hp),
    List.replicate_add, run_append, insert_scan_run hb₁ (l.length - (e + 1)) (e + 1) (by omega) ?_,
    Option.some_bind, show e + 1 + (l.length - (e + 1)) = l.length by omega,
    insert_suffix hb₁ hl (by simp [hr]) hi he hp hlk]
  · simp
  · intro i _ _
    obtain ⟨sl', h₁, _, h₃⟩ := hslot i (by omega)
    exact ⟨sl', h₁, h₃, nofun⟩
  · intro i _ h'
    obtain ⟨sl', h₁, h₂, h₃⟩ := hslot i (by omega)
    exact ⟨sl', h₁, h₃, fun _ => hfull i (by omega) sl' h₂⟩

/-- `insert((k, x))` alone, for a key whose hash no slot of its bucket caches, in a bucket
at rest that has an empty unlocked slot: after `count + 23` steps it returns
`(⟨bi, e⟩, true)`, `e` the bucket's first empty slot.  The value is in a new block at the
end of the allocator; slot `e` points at it with `k`'s hash and stays locked; the bucket
has grown by half its count, with zeroed slots; its counters are three up each; and
`_size` is one up. -/
theorem insert_solo {l : List Slot} {e : Nat} {sl : Slot} (hg : m.getBucket (tr.hasher k) = some bi)
    (hb : m.bucket? bi = some bk) (hr : bk.entered = bk.exited) (hl : bk.resizeLock = false)
    (hi : bk.items = some l) (hh : ∀ sl ∈ l, sl.hash ≠ tr.hasher k) (he : l[e]? = some sl)
    (hp : sl.ptr = none) (hlk : sl.locked = false)
    (hfull : ∀ i < e, ∀ sl', l[i]? = some sl' → sl'.ptr.isSome = true) :
    run tr (Sys.init m [[.insert k x]]) (List.replicate (l.length + 23) (0, true)) =
      some ⟨Map.setBucket ⟨m.size + 1, m.buckets, m.heap ++ [⟨1, some (k, x), 0, []⟩]⟩ bi
          ⟨bk.entered + 3, bk.exited + 3, false,
            some ((l ++ List.replicate (l.length / 2) Slot.zero).set e ⟨some m.heap.length, true, tr.hasher k⟩)⟩,
        [⟨[], .idle, [.pair ⟨bi, e⟩ true]⟩]⟩ := by
  rw [Sys.init_solo]
  exact insert_run hg hb hr hl hi hh he hp hlk hfull

end

/-- `insert((7, 7))` alone on the map holding `5 ↦ 5` in the first of two slots: 25 steps,
slot 1 gets block 1 and stays locked, and the bucket grows to three slots. -/
theorem insert_solo_withEntry :
    run intTraits (Sys.init (Map.withEntry intTraits 5 5 1) [[.insert 7 7]]) (List.replicate 25 (0, true)) =
      some ⟨⟨2, [⟨3, 3, false, some [⟨some 0, false, 5⟩, ⟨some 1, true, 7⟩, Slot.zero]⟩],
          [⟨1, some (5, 5), 0, []⟩, ⟨1, some (7, 7), 0, []⟩]⟩, [⟨[], .idle, [.pair ⟨0, 1⟩ true]⟩]⟩ :=
  @insert_solo _ _ intTraits (Map.withEntry intTraits 5 5 1) 7 7 0 _ [⟨some 0, false, 5⟩, Slot.zero] 1 Slot.zero
    (by decide) rfl rfl rfl rfl
    (by decide) rfl rfl rfl fun i hi _ h => by obtain rfl : i = 0 := (by omega); cases h; rfl

/-! ## The lookups from construction -/

section
variable {K V : Type} {tr : Traits K} {m : Map K V} {k : K} {x : V} {bi : Nat} {bk : Bucket}
  {calls : List (Call K V)} {log : List Ret}

theorem Map.bucket?_of_getBucket {h : Nat} (hg : m.getBucket h = some bi) :
    ∃ b, m.bucket? bi = some b := by
  unfold Map.getBucket at hg
  split at hg
  · cases hg
  · cases hg
    rw [Map.bucket?, List.get?_eq_getElem?]
    exact ⟨_, List.getElem?_eq_getElem (Nat.mod_lt _ (Nat.pos_of_ne_zero ‹_›))⟩

/-- `insert`'s lookup on a bucket free of `resize_lock` and without slots: `_get_bucket`,
`using_`, the read of `items`, a scan that ends at once where there is an array, and
`~using_`.  `bucket_type::insert` is next, after five steps with a null `items` and six
with an empty array. -/
theorem insert_lookup_unfilled (c : Bool) (hg : m.getBucket (tr.hasher k) = some bi)
    (hb : m.bucket? bi = some bk) (hl : bk.resizeLock = false) (hc : bk.count = 0) :
    ∃ d ≤ 6, run tr ⟨m, [⟨.insert k x :: calls, .idle, log⟩]⟩ (List.replicate d (0, c)) =
      some ⟨m.setBucket bi { bk with entered := bk.entered + 1, exited := bk.exited + 1 },
        [⟨calls, .bucketInsert k x bi 0 (.claimEnter .inc), log⟩]⟩ := by
  cases hi : bk.items with
  | none =>
    exact ⟨5, by omega, by simp [run, step, threadStep, callStep, hg, pcStep, insertStep, onBucket,
      hb, enter, usingStep, Map.bucket?_setBucket_self hb, hl, hi, Thread.after, Bucket.leave]⟩
  | some l =>
    obtain rfl : l = [] := List.eq_nil_of_length_eq_zero (by simpa [Bucket.count, hi] using hc)
    exact ⟨6, by omega, by simp [run, step, threadStep, callStep, hg, pcStep, insertStep, onBucket,
      hb, enter, usingStep, Map.bucket?_setBucket_self hb, hl, hi, bucketFindStep, Bucket.count,
      Thread.after, Bucket.leave]⟩

/-- From construction, one thread between calls, whatever its calls.  `find(k)` returns
`end()` in one step, since `_size` is `0`.  The lookup of `insert` is over within six
steps: the thread is in `bucket_type::insert`, or `_get_bucket` faulted on an empty bucket
vector.  And `bucket_type::find`, from the start of any bucket and for every hash,
returns `nullptr` at once, and no step of it ever returns a slot. -/
theorem fresh_lookups_end {n : Nat} {cs : List (Call K V)} {s : Sys K V}
    (h : Steps tr (Sys.init (Map.init n) [calls]) s) (hs : s.threads = [⟨cs, .idle, log⟩])
    (c : Bool) :
    (∀ k rest, cs = .find k :: rest →
      step tr s 0 c = some ⟨s.map, [⟨rest, .idle, log ++ [.iter s.map.endIter]⟩]⟩) ∧
    (∀ k x rest, cs = .insert k x :: rest → ∃ d ≤ 6, ∃ s', run tr s (List.replicate d (0, c)) = some s' ∧
      ((∃ bi, s'.threads = [⟨rest, .bucketInsert k x bi 0 (.claimEnter .inc), log⟩]) ∨
        s'.threads = [⟨rest, .fault .idle, log ++ [.fault]⟩])) ∧
    ∀ b hk, (∀ rec, bucketFindStep hk (s.map.bucketD b) (.scan 0 (s.map.bucketD b).count rec) = .miss) ∧
      ∀ p i, bucketFindStep hk (s.map.bucketD b) p ≠ .found i := by
  have hu := h.unfilled (unfilled_init n [calls])
  have hr := (h.balanced_of_solo rfl (balanced_init n _)).atRest (quiet_of_solo_idle hs rfl)
  obtain ⟨m, ths⟩ := s
  subst hs
  refine ⟨fun k rest hc => ?_, fun k x rest hc => ?_, fun b _ => bucketFindStep_of_count_zero (hu.slots b)⟩
  · subst hc
    have hz : m.size = 0 := hu.size
    simp [step, threadStep, callStep, hz, Thread.after]
  · subst hc
    cases hg : m.getBucket (tr.hasher k) with
    | none =>
      exact ⟨1, by omega, ⟨m, [⟨rest, .fault .idle, log ++ [.fault]⟩]⟩,
        by simp [run, step, threadStep, callStep, hg, Thread.after], .inr rfl⟩
    | some bi =>
      obtain ⟨bk, hb⟩ := Map.bucket?_of_getBucket hg
      have hbk : m.bucketD bi = bk := by simp [Map.bucketD, hb]
      obtain ⟨d, hd, hrun⟩ := insert_lookup_unfilled c hg hb (hbk ▸ (hr bi).2) (hbk ▸ hu.slots bi)
      exact ⟨d, hd, _, hrun, .inl ⟨bi, rfl⟩⟩

end

/-- One thread on a fresh one-bucket map whose insert has thrown `bad_alloc`: the lookup
of `5` that is its next call returns `end()` in one step. -/
theorem fresh_throw_find_returns :
    ∃ s, run intTraits (Sys.init (Map.init 1) [[.insert 5 5, .find 5]]) freshThrowSchedule = some s ∧
      step intTraits s 0 true = some ⟨s.map, [⟨[], .idle, [.thrown .badAlloc, .iter s.map.endIter]⟩]⟩ :=
  ⟨_, freshThrow_run, (fresh_lookups_end (Steps.of_run _ freshThrow_run) rfl true).1 5 [] rfl⟩

/-! ## Two calls in a row -/

section
variable {K V : Type} {tr : Traits K} {m : Map K V} {k : K} {x : V} {bi : Nat} {bk : Bucket}

@[simp] theorem Map.getBucket_setBucket (m : Map K V) (i : Nat) (b : Bucket) (h : Nat) :
    (m.setBucket i b).getBucket h = m.getBucket h := by
  simp [Map.getBucket]

@[simp] theorem Map.getBucket_setBlock (m : Map K V) (a : Nat) (bl : Block K V) (h : Nat) :
    (m.setBlock a bl).getBucket h = m.getBucket h := rfl

@[simp] theorem Map.setBlock_size (m : Map K V) (a : Nat) (bl : Block K V) :
    (m.setBlock a bl).size = m.size := rfl

@[simp] theorem Map.setBlock_endIter (m : Map K V) (a : Nat) (bl : Block K V) :
    (m.setBlock a bl).endIter = m.endIter := rfl

/-- `erase(it)` of the entry at slot `j` and then `find` of its key, on one thread: when no
other slot of the bucket caches the key's hash, and that hash is not 0 (the hash `detach`
leaves), `find` returns `end()`.  The key is gone, and its block has been given back. -/
theorem erase_then_find_misses {l : List Slot} {j a : Nat} {sl : Slot} {bl : Block K V}
    (hs : m.size ≠ 0) (hg : m.getBucket (tr.hasher k) = some bi) (hb : m.bucket? bi = some bk)
    (hl : bk.resizeLock = false) (hi : bk.items = some l) (hj : l[j]? = some sl)
    (hlk : sl.locked = false) (hp : sl.ptr = some a) (hbl : m.block? a = some bl)
    (honly : ∀ i sl', i ≠ j → l[i]? = some sl' → sl'.hash ≠ tr.hasher k) (hz : tr.hasher k ≠ 0) :
    run tr (Sys.init m [[.erase ⟨bi, j⟩, .find k]]) (List.replicate (l.length + 16) (0, true)) =
      some ⟨(m.setBucket bi { bk with
            entered := bk.entered + 2, exited := bk.exited + 2, items := some (l.set j Slot.zero) }).setBlock a
          { bl with value := none, destroyed := bl.destroyed + 1, freed := bl.freed ++ [tr.valueSize] },
        [⟨[], .idle, [.iter (Iter.succ ⟨bi, j⟩ bk), .iter m.endIter]⟩]⟩ := by
  have hjl : j < l.length := (List.getElem?_eq_some_iff.mp hj).1
  have hsl : bk.slot? j = some sl := by simpa [Bucket.slot?, hi] using hj
  have hb₁ : ∀ bl' : Block K V,
      ((m.setBucket bi (({ bk with entered := bk.entered + 1, exited := bk.exited + 1 } : Bucket).setSlot j
        Slot.zero)).setBlock a bl').bucket? bi =
      some (({ bk with entered := bk.entered + 1, exited := bk.exited + 1 } : Bucket).setSlot j Slot.zero) :=
    fun _ => by rw [Map.bucket?_setBlock]; exact Map.bucket?_setBucket_self hb
  rw [Sys.init_solo, show l.length + 16 = 10 + ((4 + (l.set j Slot.zero).length) + 2) by simp; omega,
    List.replicate_add, run_append, (@erase_run K V tr m bk ⟨bi, j⟩ sl [.find k] [] hb hl hsl hlk).2 a bl hp hbl,
    Option.some_bind, List.replicate_add, run_append,
    find_reaches (by simpa using hs) (by simpa using hg) (hb₁ _) (by simpa using hl) (by simp [Bucket.setSlot, hi])
      le_rfl ?_, Option.some_bind, find_miss_suffix (Map.bucket?_setBucket_self (hb₁ _))]
  · simp [Bucket.leave, Bucket.setSlot, hi]
  · intro i _ sl' h'
    rcases eq_or_ne i j with rfl | hij
    · rw [List.getElem?_set_self hjl] at h'
      cases h'
      exact Ne.symm hz
    · rw [List.getElem?_set_ne (Ne.symm hij)] at h'
      exact honly i sl' hij h'

end

/-- On the map holding `5 ↦ 5`: erasing slot 0 and then looking up `5` finds nothing, and
block 0 is given back. -/
theorem erase_then_find_withEntry :
    run intTraits (Sys.init (Map.withEntry intTraits 5 5 1) [[.erase ⟨0, 0⟩, .find 5]])
        (List.replicate 18 (0, true)) =
      some ⟨⟨1, [⟨2, 2, false, some [Slot.zero, Slot.zero]⟩], [⟨1, none, 1, [8]⟩]⟩,
        [⟨[], .idle, [.iter ⟨0, 1⟩, .iter ⟨1, 0⟩]⟩]⟩ :=
  @erase_then_find_misses _ _ intTraits (Map.withEntry intTraits 5 5 1) 5 0 _ [⟨some 0, false, 5⟩, Slot.zero]
    0 0 ⟨some 0, false, 5⟩ ⟨1, some (5, 5), 0, []⟩ (by decide) (by decide) rfl rfl rfl rfl rfl rfl rfl
    (fun i _ hi h => by
      obtain rfl : i = 1 := by
        have := (List.getElem?_eq_some_iff.mp h).1; simp at this; omega
      cases h; decide)
    (by decide)

section
variable {K V : Type} {tr : Traits K} {m : Map K V} {k : K} {x : V} {bi : Nat} {bk : Bucket}

/-- `insert((k, x))` and then `find(k)` on one thread, under `insert_solo`'s conditions: the
insert returns `(⟨bi, e⟩, true)`; `find` scans up to slot `e`, which the insert left
locked, and waits there for good.  No step of the system is possible any more. -/
theorem insert_then_find_blocks {l : List Slot} {e : Nat} {sl : Slot}
    (hg : m.getBucket (tr.hasher k) = some bi) (hb : m.bucket? bi = some bk)
    (hr : bk.entered = bk.exited) (hl : bk.resizeLock = false) (hi : bk.items = some l)
    (hh : ∀ sl ∈ l, sl.hash ≠ tr.hasher k) (he : l[e]? = some sl) (hp : sl.ptr = none)
    (hlk : sl.locked = false) (hfull : ∀ i < e, ∀ sl', l[i]? = some sl' → sl'.ptr.isSome = true) :
    ∃ s, run tr (Sys.init m [[.insert k x, .find k]]) (List.replicate (l.length + e + 28) (0, true)) = some s ∧
      s.threads = [⟨[], .find k bi (.probe (.lock e (l.length + l.length / 2) false)), [.pair ⟨bi, e⟩ true]⟩] ∧
      ∀ t c, step tr s t c = none := by
  have hel : e < l.length := (List.getElem?_eq_some_iff.mp he).1
  have hb₂ : ∀ items, (Map.setBucket ⟨m.size + 1, m.buckets, m.heap ++ [⟨1, some (k, x), 0, []⟩]⟩ bi
      ⟨bk.entered + 3, bk.exited + 3, false, some items⟩).bucket? bi =
      some ⟨bk.entered + 3, bk.exited + 3, false, some items⟩ := fun _ => Map.bucket?_setBucket_self hb
  have hset : ((l ++ List.replicate (l.length / 2) Slot.zero).set e
      ⟨some m.heap.length, true, tr.hasher k⟩)[e]? = some ⟨some m.heap.length, true, tr.hasher k⟩ :=
    List.getElem?_set_self (by simp; omega)
  have hpre : ∀ i < e, ((l ++ List.replicate (l.length / 2) Slot.zero).set e
      ⟨some m.heap.length, true, tr.hasher k⟩)[i]? = l[i]? := fun i hi' => by
    rw [List.getElem?_set_ne (by omega), List.getElem?_append_left (by omega)]
  rw [Sys.init_solo, show l.length + e + 28 = (l.length + 23) + ((4 + e) + 1) by omega, List.replicate_add,
    run_append, insert_run hg hb hr hl hi hh he hp hlk hfull, Option.some_bind, List.replicate_add,
    run_append, find_reaches (by simp) (by rw [Map.getBucket_setBucket]; exact hg) (hb₂ _) rfl rfl
      (by simp; omega) fun i h sl' h' => hh sl' (List.getElem?_mem (by rwa [hpre i h] at h')),
    Option.some_bind, List.replicate_one, run_solo_go (by simp)
      (find_scan_match (Map.bucket?_setBucket_self (hb₂ _)) (by simp; omega)
        (by simp only [Bucket.slot?, Option.some_bind, List.get?_eq_getElem?]; exact hset) rfl)]
  refine ⟨_, rfl, by simp, fun t c => ?_⟩
  rcases t with _ | t
  · simp [step, threadStep, pcStep, findStep, onBucket, Map.bucket?_setBucket_self hb, bucketFindStep,
      Bucket.slot?, hset]
  · rfl

end

/-- On the map holding `5 ↦ 5` in the first of two slots: `insert((7, 7))` returns slot 1,
and the `find(7)` after it waits at slot 1 for good, 31 steps in. -/
theorem insert_then_find_withEntry :
    ∃ s, run intTraits (Sys.init (Map.withEntry intTraits 5 5 1) [[.insert 7 7, .find 7]])
        (List.replicate 31 (0, true)) = some s ∧
      s.threads = [⟨[], .find 7 0 (.probe (.lock 1 3 false)), [.pair ⟨0, 1⟩ true]⟩] ∧
      ∀ t c, step intTraits s t c = none :=
  @insert_then_find_blocks _ _ intTraits (Map.withEntry intTraits 5 5 1) 7 7 0 _ [⟨some 0, false, 5⟩, Slot.zero]
    1 Slot.zero (by decide) rfl rfl rfl rfl (by decide) rfl rfl rfl
    fun i hi _ h => by obtain rfl : i = 0 := (by omega); cases h; rfl

end ConcurrentUnorderedMap
