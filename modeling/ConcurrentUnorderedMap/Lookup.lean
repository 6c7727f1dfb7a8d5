/-
# `ConcurrentUnorderedMap.Lookup` — lookups side by side

`find` writes to the map: `using_` moves its bucket's counters and `resize_lock`, and
`bucket_type::find` locks the slot its scan stops at and unlocks it again.  None of that
touches what the map stores (`Map.stored`): `_size`, the allocator, and each slot's
pointer and cached hash.  So threads that only look keys up, any number of them in any
interleaving, leave the stored content as it was, and every one of them reads the same
content at each of its steps.

What `find(k)` returns is then fixed by that content (`FindAnswer`): `end()` when
`_size` is 0 or no slot of `k`'s bucket caches `hasher(k)`, and otherwise the first slot
that caches it, when that slot holds a key equal to `k` (when it does not, the call
spins: `find_solo_spins`).  It faults only where the map is broken: it has no bucket,
or that first slot points at no value.  Behind this is one predicate per point of
`find` (`FindOk`), which each of its steps keeps whatever the other threads do in
between, because they change nothing it reads.

What the answers mean for the map the code stands for is in `Abstract`.

**Proved here.**

    a step of find's loop keeps what the bucket stores, and takes FindOk on
    to FindOk, to the slot to compare, or to a miss                            (`bucketFindStep_lookup`)
    a step of find keeps the stored content, and goes on to FindOk or returns
    a right answer                                                             (`findStep_lookup`)
    in every interleaving of threads that only call find, the stored content
    stays, and each thread's results answer its first calls one by one        (`Steps.lookups_answer`)
    and none of them faults on a map with a bucket whose slots all point at
    values                                                                     (`Steps.lookups_never_fault`)
-/
import Mathlib.Data.List.Forall2
import ConcurrentUnorderedMap.Solo
import ConcurrentUnorderedMap.Iterator

namespace ConcurrentUnorderedMap

/-! ## What the map stores -/

namespace Slot

/-- A slot as the map stores it, its lock bit aside: the pointer and the cached hash. -/
def stored (sl : Slot) : Option Nat × Nat := (sl.ptr, sl.hash)

@[simp] theorem stored_lock (sl : Slot) : sl.lock.stored = sl.stored := rfl

@[simp] theorem stored_unlock (sl : Slot) : sl.unlock.stored = sl.stored := rfl

end Slot

namespace Bucket

/-- A bucket's array as the map stores it; the counters and `resize_lock` aside. -/
def stored (b : Bucket) : Option (List (Option Nat × Nat)) := b.items.map (·.map Slot.stored)

theorem stored_of_items {b b' : Bucket} (h : b'.items = b.items) : b'.stored = b.stored := by
  simp [stored, h]

/-- Rewriting a slot with one that stores the same keeps what the bucket stores. -/
theorem stored_setSlot {b : Bucket} {j : Nat} {sl sl' : Slot} (hj : b.slot? j = some sl)
    (h : sl'.stored = sl.stored) : (b.setSlot j sl').stored = b.stored := by
  cases hb : b.items with
  | none => simp [stored, setSlot, hb]
  | some l =>
    simp only [slot?, hb, Option.some_bind, List.get?_eq_getElem?] at hj
    simp only [stored, setSlot, hb, Option.map_some', List.map_set, h]
    exact congrArg some (List.set_of_getElem? (by simp [hj]))

/-- Two buckets that store the same array have, slot for slot, the same pointers and
hashes. -/
theorem slot?_of_stored {b b' : Bucket} (h : b.stored = b'.stored) (i : Nat) :
    (b.slot? i).map Slot.hash = (b'.slot? i).map Slot.hash ∧
      (b.slot? i).bind Slot.ptr = (b'.slot? i).bind Slot.ptr := by
  have hs : (b.slot? i).map Slot.stored = (b'.slot? i).map Slot.stored := by
    cases hb : b.items <;> cases hb' : b'.items <;> simp_all [stored, slot?]
    rw [← List.getElem?_map, ← List.getElem?_map, h]
  revert hs
  cases b.slot? i <;> cases b'.slot? i <;> simp [Slot.stored]
  exact fun hp hh => ⟨hh, hp⟩

theorem count_of_stored {b b' : Bucket} (h : b.stored = b'.stored) : b.count = b'.count := by
  cases hb : b.items <;> cases hb' : b'.items <;> simp_all [stored, count]
  rw [← List.length_map _ Slot.stored, h, List.length_map]

theorem lt_count_of_slot? {b : Bucket} {i : Nat} {sl : Slot} (h : b.slot? i = some sl) :
    i < b.count := by
  cases hb : b.items <;> simp_all [slot?, count, List.getElem?_eq_some_iff]
  exact h.1

theorem slot?_of_lt_count {b : Bucket} {i : Nat} (h : i < b.count) : ∃ sl, b.slot? i = some sl := by
  cases hb : b.items <;> simp_all [slot?, count]

end Bucket

section
variable {K V : Type} (tr : Traits K)

/-- What a map stores: `_size`, the allocator, and each bucket's array of pointers and
cached hashes; the buckets' counters and every lock bit aside. -/
def Map.stored (m : Map K V) : Nat × List (Block K V) × List (Option (List (Option Nat × Nat))) :=
  (m.size, m.heap, m.buckets.map Bucket.stored)

variable {tr} {m m₀ : Map K V} {bi : Nat} {b b' : Bucket}

theorem Map.stored_setBucket (hb : m.bucket? bi = some b) (h : b'.stored = b.stored) :
    (m.setBucket bi b').stored = m.stored := by
  simp only [Map.bucket?, List.get?_eq_getElem?] at hb
  simp only [Map.stored, Map.setBucket, List.map_set, h]
  rw [List.set_of_getElem? (by simp [hb])]

/-- A step on bucket `bi`, when that bucket exists, stores what its body makes of it. -/
theorem onBucket_of_bucket? {f : Bucket → Option (Bucket × Next K V)} {m' : Map K V}
    {n : Next K V} (hb : m.bucket? bi = some b) (h : onBucket m bi f = some (m', n)) :
    ∃ b', f b = some (b', n) ∧ m' = m.setBucket bi b' := by
  unfold onBucket at h
  rw [hb] at h
  obtain ⟨⟨b', n'⟩, hf, he⟩ := Option.map_eq_some'.mp h
  cases he
  exact ⟨b', hf, rfl⟩

/-! ### Reading through the stored content -/

/-- `i->p->first` follows the slot's pointer to its block's value. -/
theorem keyAt_eq (m : Map K V) (b : Bucket) (i : Nat) :
    keyAt m b i = ((b.slot? i).bind Slot.ptr).bind fun a =>
      (m.block? a).bind fun bl => bl.value.map Prod.fst := by
  simp only [keyAt]
  cases b.slot? i <;> simp
  rename_i sl
  cases sl.ptr <;> simp
  rename_i a
  cases m.block? a <;> simp
  rename_i bl
  cases bl.value <;> rfl

section Reads
variable (hst : m.stored = m₀.stored)
include hst

theorem Map.size_of_stored : m.size = m₀.size := congrArg Prod.fst hst

theorem Map.heap_of_stored : m.heap = m₀.heap := congrArg (·.2.1) hst

theorem Map.length_of_stored : m.buckets.length = m₀.buckets.length := by
  simpa [Map.stored] using congrArg (·.2.2.length) hst

theorem Map.endIter_of_stored : m.endIter = m₀.endIter := by
  simp [Map.endIter, Map.length_of_stored hst]

theorem Map.getBucket_of_stored (h : Nat) : m.getBucket h = m₀.getBucket h := by
  unfold Map.getBucket
  rw [Map.length_of_stored hst]

/-- A bucket of the map stores what the same bucket of `m₀` stores. -/
theorem Map.bucket?_of_stored (hb : m.bucket? bi = some b) : b.stored = (m₀.bucketD bi).stored := by
  have h := congrArg (·.2.2[bi]?) hst
  simp only [Map.stored, List.getElem?_map] at h
  simp only [Map.bucket?, List.get?_eq_getElem?] at hb
  rw [hb] at h
  cases hb₀ : m₀.buckets[bi]? <;> simp_all [Map.bucketD, Map.bucket?]

/-- `i->p->first` reads the same key in both. -/
theorem keyAt_of_stored {b₀ : Bucket} (hsb : b.stored = b₀.stored) (i : Nat) :
    keyAt m b i = keyAt m₀ b₀ i := by
  simp only [keyAt_eq, (Bucket.slot?_of_stored hsb i).2, Map.block?, Map.heap_of_stored hst]

end Reads

/-! ## Where `find` may be, and what it may return -/

variable (tr)

/-- No slot of bucket `bi` before slot `i` caches the hash `h`. -/
def Map.NoHashBefore (m : Map K V) (bi h i : Nat) : Prop := ∀ j < i, m.hashAt bi j ≠ some h

/-- Slot `i` is the first slot of bucket `bi` that caches `h`: where a scan for `h` stops. -/
def Map.FirstHash (m : Map K V) (bi h i : Nat) : Prop :=
  m.NoHashBefore bi h i ∧ m.hashAt bi i = some h

/-- Slot `i` of bucket `bi` points at a value whose key `_key_equal` takes for `k`. -/
def HoldsKey (m : Map K V) (k : K) (bi i : Nat) : Prop :=
  ∃ k', keyAt m (m.bucketD bi) i = some k' ∧ tr.keyEqual k k' = true

/-- What the lookup of `k` in bucket `bi` may leave with: `end()` when no slot of the
bucket caches `hasher(k)`, or the first slot that caches it when that slot holds a key
equal to `k`. -/
def FindResult (m : Map K V) (k : K) (bi : Nat) (r : Iter) : Prop :=
  r = m.endIter ∧ m.NoHashBefore bi (tr.hasher k) (m.bucketD bi).count ∨
    ∃ i, r = ⟨bi, i⟩ ∧ m.FirstHash bi (tr.hasher k) i ∧ HoldsKey tr m k bi i

/-- Where `find(k)` on bucket `bi` may be, on a map that stores what `m` stores: what it
has read agrees with the map.  `stop` is the `end` it computed, and the scan has passed
only slots that do not cache `hasher(k)`. -/
def FindOk (m : Map K V) (k : K) (bi : Nat) : FindSt → Prop
  | .enter _ => True
  | .call start => ∀ i ∈ start, m.FirstHash bi (tr.hasher k) i
  | .probe (.scan i stop _) =>
    stop = (m.bucketD bi).count ∧ i ≤ stop ∧ m.NoHashBefore bi (tr.hasher k) i
  | .probe (.lock i stop _) | .probe (.recheck i stop _) | .probe (.unlock i stop _) =>
    stop = (m.bucketD bi).count ∧ m.FirstHash bi (tr.hasher k) i
  | .compare i => m.FirstHash bi (tr.hasher k) i ∧ (m.ptrAt bi i).isSome
  | .release i hit => m.FirstHash bi (tr.hasher k) i ∧ (hit = true → HoldsKey tr m k bi i)
  | .leave r => FindResult tr m k bi r

/-- What `find(k)` may return on a map that stores what `m` stores: `end()` at once when
`_size` is 0; otherwise what the lookup in `k`'s bucket leaves with, or a fault where the
map is broken: it has no bucket, or the first slot caching `hasher(k)` points at no
value. -/
def FindAnswer (m : Map K V) (k : K) : Ret → Prop
  | .iter r => m.size = 0 ∧ r = m.endIter ∨
      m.size ≠ 0 ∧ ∃ bi, m.getBucket (tr.hasher k) = some bi ∧ FindResult tr m k bi r
  | .fault => m.size ≠ 0 ∧ (m.getBucket (tr.hasher k) = none ∨
      ∃ bi i, m.getBucket (tr.hasher k) = some bi ∧ m.FirstHash bi (tr.hasher k) i ∧
        (m.ptrAt bi i).isSome ∧ keyAt m (m.bucketD bi) i = none)
  | _ => False

/-- Where a step of `bucket_type::find`'s loop may go from a point `FindOk` holds at. -/
def ProbeNext (m : Map K V) (k : K) (bi : Nat) (b : Bucket) : Probed → Prop
  | .next b' p _ => b'.stored = b.stored ∧ FindOk tr m k bi (.probe p)
  | .found i => FindOk tr m k bi (.compare i)
  | .miss => m.NoHashBefore bi (tr.hasher k) (m.bucketD bi).count
  | .blocked => True
  | .fault => False

/-- Where a step of `find(k)` on bucket `bi` may take its thread. -/
def FindNext (m : Map K V) (k : K) (bi : Nat) : Next K V → Prop
  | .go pc => ∃ st, pc = .find k bi st ∧ FindOk tr m k bi st
  | .ret r => FindAnswer tr m k r
  | .fault => FindAnswer tr m k .fault

variable {tr} {k : K}

theorem Map.noHashBefore_succ {h i : Nat} (hno : m.NoHashBefore bi h i)
    (hi : m.hashAt bi i ≠ some h) : m.NoHashBefore bi h (i + 1) := fun j hj => by
  rcases Nat.lt_succ_iff_lt_or_eq.mp hj with hj | rfl
  exacts [hno j hj, hi]

/-! ## One step of a lookup -/

section Step
variable {b : Bucket} (hsb : b.stored = (m₀.bucketD bi).stored)
include hsb

/-- The slot a scan stopped at is there, in every bucket that stores what `m₀`'s does. -/
theorem slot?_of_firstHash {h i : Nat} (hf : m₀.FirstHash bi h i) :
    ∃ sl, b.slot? i = some sl ∧ sl.hash = h := by
  have hh : (b.slot? i).map Slot.hash = some h := ((Bucket.slot?_of_stored hsb i).1).trans hf.2
  obtain ⟨sl, hsl, rfl⟩ := Option.map_eq_some'.mp hh
  exact ⟨sl, hsl, rfl⟩

/-- A step of `bucket_type::find`'s loop from a point `FindOk` holds at: it never
faults, keeps what the bucket stores, and reaches a point `FindOk` holds at, the slot
to compare, or a miss after a scan past every slot. -/
theorem bucketFindStep_lookup {p : Probe} (hok : FindOk tr m₀ k bi (.probe p)) :
    ProbeNext tr m₀ k bi b (bucketFindStep (tr.hasher k) b p) := by
  have hcount := Bucket.count_of_stored hsb
  have hhash i := (Bucket.slot?_of_stored hsb i).1
  cases p with
  | scan i stop rec =>
    obtain ⟨rfl, hle, hno⟩ := hok
    simp only [bucketFindStep]
    split
    case isTrue hlt =>
      obtain ⟨sl, hsl⟩ := Bucket.slot?_of_lt_count (hcount ▸ hlt)
      have hi : m₀.hashAt bi i = some sl.hash := by rw [Map.hashAt, ← hhash, hsl]; rfl
      simp only [hsl]
      split
      case isTrue hne =>
        have hno' := Map.noHashBefore_succ hno (by rw [hi]; exact fun h => hne (Option.some.inj h))
        split <;> exact ⟨rfl, rfl, hlt, hno'⟩
      case isFalse heq => exact ⟨rfl, rfl, hno, hi.trans (congrArg some (not_not.mp heq))⟩
    case isFalse hge =>
      split
      case isTrue heq => simpa only [ProbeNext, ← heq] using hno
      case isFalse hne => omega
  | lock i stop rec =>
    obtain ⟨sl, hsl, -⟩ := slot?_of_firstHash hsb hok.2
    simp only [bucketFindStep, hsl]
    split
    · trivial
    · exact ⟨Bucket.stored_setSlot hsl rfl, hok⟩
  | recheck i stop rec =>
    obtain ⟨sl, hsl, -⟩ := slot?_of_firstHash hsb hok.2
    simp only [bucketFindStep, hsl]
    split
    case isTrue hp =>
      refine ⟨hok.2, ?_⟩
      rw [Map.ptrAt, ← (Bucket.slot?_of_stored hsb i).2, hsl]
      exact hp.2
    case isFalse => exact ⟨rfl, hok⟩
  | unlock i stop rec =>
    obtain ⟨rfl, hf⟩ := hok
    obtain ⟨sl, hsl, -⟩ := slot?_of_firstHash hsb hf
    simp only [bucketFindStep, hsl]
    have hlt := Bucket.lt_count_of_slot? hsl
    exact ⟨Bucket.stored_setSlot hsl rfl, rfl, by omega, hf.1⟩

end Step

/-- A step of `find(k)` on bucket `bi`, on a map that stores what `m₀` stores, from a
point `FindOk` holds at: the map still stores what `m₀` stores, and the thread is at a
point `FindOk` holds at, or has returned a right answer.  The other threads' steps in
between need not be looked at: they change nothing `FindOk` reads. -/
theorem findStep_lookup {m' : Map K V} {st : FindSt} {n : Next K V}
    (hst : m.stored = m₀.stored) (hs0 : m₀.size ≠ 0) (hg : m₀.getBucket (tr.hasher k) = some bi)
    (hok : FindOk tr m₀ k bi st) (h : findStep tr m k bi st = some (m', n)) :
    m'.stored = m₀.stored ∧ FindNext tr m₀ k bi n := by
  obtain ⟨b, hb⟩ := Map.bucket?_of_getBucket ((Map.getBucket_of_stored hst _).trans hg)
  have hsb := Map.bucket?_of_stored hst hb
  suffices hbody : ∃ b', (m' = m.setBucket bi b') ∧ b'.stored = b.stored ∧ FindNext tr m₀ k bi n by
    obtain ⟨b', rfl, hs, hn⟩ := hbody
    exact ⟨(Map.stored_setBucket hb hs).trans hst, hn⟩
  cases st with
  | enter e =>
    obtain ⟨b', hf, rfl⟩ := onBucket_of_bucket? hb h
    obtain ⟨hi, ⟨e', rfl⟩ | rfl⟩ := enter_eq hf
    · exact ⟨b', rfl, Bucket.stored_of_items hi, _, rfl, trivial⟩
    · exact ⟨b', rfl, Bucket.stored_of_items hi, _, rfl, fun _ h => nomatch h⟩
  | call start =>
    obtain ⟨b', hf, rfl⟩ := onBucket_of_bucket? hb h
    simp only [Option.some.injEq, Prod.mk.injEq] at hf
    obtain ⟨rfl, rfl⟩ := hf
    refine ⟨b, rfl, rfl, ?_⟩
    have hcount := Bucket.count_of_stored hsb
    split
    case h_1 hi =>
      have h0 : b.count = 0 := by simp [Bucket.count, hi]
      exact ⟨_, rfl, .inl ⟨Map.endIter_of_stored hst, fun j hj => by omega⟩⟩
    case h_2 =>
      refine ⟨_, rfl, hcount, ?_⟩
      cases start with
      | none => exact ⟨Nat.zero_le _, fun j hj => absurd hj (Nat.not_lt_zero j)⟩
      | some i =>
        obtain ⟨sl, hsl, -⟩ := slot?_of_firstHash hsb (hok i rfl)
        exact ⟨hcount ▸ (Bucket.lt_count_of_slot? hsl).le, (hok i rfl).1⟩
  | probe p =>
    obtain ⟨b', hf, rfl⟩ := onBucket_of_bucket? hb h
    have hp := bucketFindStep_lookup hsb hok
    generalize bucketFindStep (tr.hasher k) b p = r at hf hp
    cases r <;> simp only [Option.some.injEq, Prod.mk.injEq, reduceCtorEq] at hf
    case next => obtain ⟨rfl, rfl⟩ := hf; exact ⟨_, rfl, hp.1, _, rfl, hp.2⟩
    case found => obtain ⟨rfl, rfl⟩ := hf; exact ⟨_, rfl, rfl, _, rfl, hp⟩
    case miss =>
      obtain ⟨rfl, rfl⟩ := hf
      exact ⟨_, rfl, rfl, _, rfl, .inl ⟨Map.endIter_of_stored hst, hp⟩⟩
    case fault => exact hp.elim
  | compare i =>
    obtain ⟨b', hf, rfl⟩ := onBucket_of_bucket? hb h
    rw [keyAt_of_stored hst hsb] at hf
    split at hf <;> simp only [Option.some.injEq, Prod.mk.injEq] at hf
    case h_1 hk =>
      obtain ⟨rfl, rfl⟩ := hf
      exact ⟨b, rfl, rfl, hs0, .inr ⟨bi, i, hg, hok.1, hok.2, hk⟩⟩
    case h_2 k' hk =>
      obtain ⟨rfl, rfl⟩ := hf
      exact ⟨b, rfl, rfl, _, rfl, hok.1, fun hit => ⟨k', hk, hit⟩⟩
  | release i hit =>
    obtain ⟨b', hf, rfl⟩ := onBucket_of_bucket? hb h
    obtain ⟨sl, hsl, -⟩ := slot?_of_firstHash hsb hok.1
    simp only [hsl, Option.some.injEq, Prod.mk.injEq] at hf
    obtain ⟨rfl, rfl⟩ := hf
    refine ⟨_, rfl, Bucket.stored_setSlot hsl rfl, ?_⟩
    cases hit
    · exact ⟨_, rfl, fun j hj => by cases hj; exact hok.1⟩
    · exact ⟨_, rfl, .inr ⟨i, rfl, hok.1, hok.2 rfl⟩⟩
  | leave r =>
    obtain ⟨b', hf, rfl⟩ := onBucket_of_bucket? hb h
    simp only [Option.some.injEq, Prod.mk.injEq] at hf
    obtain ⟨rfl, rfl⟩ := hf
    exact ⟨_, rfl, Bucket.stored_of_items rfl, .inr ⟨hs0, bi, hg, hok⟩⟩

/-! ## Threads that only look up -/

variable (tr)

/-- The result `r` answers the call `c`: `c` is a lookup, and `r` is what it may return
on a map that stores what `m` stores. -/
def AnswersCall (m : Map K V) (c : Call K V) (r : Ret) : Prop :=
  ∃ k, c = .find k ∧ FindAnswer tr m k r

/-- Thread `th`, started idle with the calls `cs`, on a map that stores what `m` stores:
it has only lookups left, its results so far answer its first calls one by one, and the
lookup in progress, if there is one, is at a point `FindOk` holds at. -/
def LookupThread (m : Map K V) (cs : List (Call K V)) (th : Thread K V) : Prop :=
  (∀ c ∈ th.calls, ∃ k, c = .find k) ∧
    ∃ done, List.Forall₂ (AnswersCall tr m) done th.log ∧
      match th.pc with
      | .idle | .fault _ => cs = done ++ th.calls
      | .find k bi st => cs = done ++ .find k :: th.calls ∧ m.size ≠ 0 ∧
          m.getBucket (tr.hasher k) = some bi ∧ FindOk tr m k bi st
      | _ => False

/-- Every thread of `s`, the `t`-th started with the calls `css[t]`, only looks up on a
map that stores what `m` stores, and `s`'s map stores it. -/
structure Lookups (m : Map K V) (css : List (List (Call K V))) (s : Sys K V) : Prop where
  stored : s.map.stored = m.stored
  threads : ∀ t th, s.threads.get? t = some th →
    ∃ cs, css.get? t = some cs ∧ LookupThread tr m cs th

variable {tr}

/-- A thread that finishes a lookup with `r` answers one more of its calls. -/
theorem LookupThread.answered {cs done calls : List (Call K V)} {log : List Ret} {k : K}
    (r : Ret) (hcalls : ∀ c ∈ calls, ∃ k, c = .find k)
    (hdone : List.Forall₂ (AnswersCall tr m₀) done log) (hcs : cs = done ++ .find k :: calls)
    (hr : FindAnswer tr m₀ k r) (pc : Pc K V) (hpc : pc = .idle ∨ ∃ pc', pc = .fault pc') :
    LookupThread tr m₀ cs ⟨calls, pc, log ++ [r]⟩ := by
  refine ⟨hcalls, done ++ [.find k], List.rel_append hdone (.cons ⟨k, rfl, hr⟩ .nil), ?_⟩
  rcases hpc with rfl | ⟨pc', rfl⟩ <;> simpa using hcs

/-- A step of a thread that only looks up keeps the stored content, and keeps it a
thread that only looks up. -/
theorem threadStep_lookup {c : Bool} {m' : Map K V} {cs : List (Call K V)}
    {th th' : Thread K V} (hst : m.stored = m₀.stored) (hl : LookupThread tr m₀ cs th)
    (h : threadStep tr c m th = some (m', th')) :
    m'.stored = m₀.stored ∧ LookupThread tr m₀ cs th' := by
  obtain ⟨calls, pc, log⟩ := th
  obtain ⟨hcalls, done, hdone, hpc⟩ := hl
  cases pc
  case idle =>
    cases calls with
    | nil => cases h
    | cons call rest =>
      obtain ⟨k, rfl⟩ := hcalls call (List.mem_cons_self _ _)
      have hrest : ∀ c ∈ rest, ∃ k, c = .find k := fun c hc => hcalls c (List.mem_cons_of_mem _ hc)
      simp only [threadStep, Option.some.injEq, Prod.mk.injEq] at h
      obtain ⟨rfl, rfl⟩ := h
      simp only [callStep, Map.size_of_stored hst, Map.getBucket_of_stored hst]
      split
      case isTrue hs0 =>
        exact ⟨hst, LookupThread.answered (.iter m.endIter) hrest hdone hpc
          (.inl ⟨hs0, Map.endIter_of_stored hst⟩) _ (.inl rfl)⟩
      case isFalse hs0 =>
        split
        case h_1 hg =>
          exact ⟨hst, LookupThread.answered .fault hrest hdone hpc ⟨hs0, .inl hg⟩ _ (.inr ⟨_, rfl⟩)⟩
        case h_2 bi hg => exact ⟨hst, hrest, done, hdone, hpc, hs0, hg, trivial⟩
  case fault => cases h
  case find k bi st =>
    obtain ⟨hcs, hs0, hg, hok⟩ := hpc
    simp only [threadStep, pcStep, Option.map_eq_some'] at h
    obtain ⟨⟨m₁, n⟩, hf, he⟩ := h
    cases he
    obtain ⟨hst', hn⟩ := findStep_lookup hst hs0 hg hok hf
    refine ⟨hst', ?_⟩
    cases n with
    | go pc =>
      obtain ⟨st', rfl, hok'⟩ := hn
      exact ⟨hcalls, done, hdone, hcs, hs0, hg, hok'⟩
    | ret r => exact LookupThread.answered r hcalls hdone hcs hn _ (.inl rfl)
    | fault => exact LookupThread.answered .fault hcalls hdone hcs hn _ (.inr ⟨_, rfl⟩)
  all_goals exact hpc.elim

theorem Lookups.step {css : List (List (Call K V))} {s s' : Sys K V} {t : Nat} {c : Bool}
    (hl : Lookups tr m₀ css s) (h : step tr s t c = some s') : Lookups tr m₀ css s' := by
  obtain ⟨th, th', hth, hts, hthr⟩ := step_eq h
  obtain ⟨cs, hcs, hlt⟩ := hl.threads t th hth
  obtain ⟨hst, hlt'⟩ := threadStep_lookup hl.stored hlt hts
  refine ⟨hst, fun u thu hu => ?_⟩
  rw [hthr, List.get?_eq_getElem?, List.getElem?_set] at hu
  split at hu
  case isTrue htu =>
    subst htu
    split at hu <;> cases hu
    exact ⟨cs, hcs, hlt'⟩
  case isFalse => exact hl.threads u thu (by rwa [List.get?_eq_getElem?])

theorem Steps.lookups {css : List (List (Call K V))} {s s' : Sys K V} (h : Steps tr s s')
    (hl : Lookups tr m₀ css s) : Lookups tr m₀ css s' := by
  induction h with
  | refl => exact hl
  | step t c hs _ ih => exact ih (hl.step hs)

theorem lookups_init {css : List (List (Call K V))} (hf : ∀ cs ∈ css, ∀ c ∈ cs, ∃ k, c = Call.find k) :
    Lookups tr m css (Sys.init m css) := by
  refine ⟨rfl, fun t th ht => ?_⟩
  simp only [Sys.init, List.get?_eq_getElem?, List.getElem?_map] at ht
  obtain ⟨cs, hcs, rfl⟩ := Option.map_eq_some'.mp ht
  exact ⟨cs, by rwa [List.get?_eq_getElem?], hf cs (List.getElem?_mem hcs), [], .nil, rfl⟩

/-- A thread that only looks up has answered a prefix of its calls. -/
theorem LookupThread.prefix {cs : List (Call K V)} {th : Thread K V}
    (hl : LookupThread tr m cs th) :
    ∃ done, done <+: cs ∧ List.Forall₂ (AnswersCall tr m) done th.log := by
  obtain ⟨calls, pc, log⟩ := th
  obtain ⟨-, done, hdone, hpc⟩ := hl
  refine ⟨done, ?_, hdone⟩
  cases pc
  case idle | fault => exact hpc ▸ List.prefix_append _ _
  case find => exact hpc.1 ▸ List.prefix_append _ _
  all_goals exact hpc.elim

/-- Lookups side by side: in every interleaving of threads that only call `find`,
started idle on a map `m`, the map goes on storing what `m` stores, and each thread's
results answer its first calls one by one, each one what `find` may return on `m`. -/
theorem Steps.lookups_answer {css : List (List (Call K V))} {s : Sys K V}
    (hf : ∀ cs ∈ css, ∀ c ∈ cs, ∃ k, c = Call.find k) (h : Steps tr (Sys.init m css) s) :
    s.map.stored = m.stored ∧ ∀ t th, s.threads.get? t = some th →
      ∃ cs done, css.get? t = some cs ∧ done <+: cs ∧ List.Forall₂ (AnswersCall tr m) done th.log := by
  have hl := h.lookups (lookups_init hf)
  refine ⟨hl.stored, fun t th ht => ?_⟩
  obtain ⟨cs, hcs, hlt⟩ := hl.threads t th ht
  obtain ⟨done, hp, hdone⟩ := hlt.prefix
  exact ⟨cs, done, hcs, hp, hdone⟩

end

/-- `find(5)` and `find(7)` side by side, step for step, on a one-bucket map holding `5`
at slot 0: the first returns slot 0, the second `end()`. -/
theorem lookups_answer_interleaved :
    ∃ s, run intTraits (Sys.init (Map.withEntry intTraits 5 5 1) [[.find 5], [.find 7]])
        ((List.replicate 8 [(0, true), (1, true)]).flatten ++ List.replicate 2 (0, true)) = some s ∧
      s.threads.map Thread.log = [[.iter ⟨0, 0⟩], [.iter ⟨1, 0⟩]] ∧
      s.map.stored = (Map.withEntry intTraits 5 5 1 : Map Nat Nat).stored ∧
      ∀ t th, s.threads.get? t = some th → ∃ cs done, [[Call.find 5], [.find 7]].get? t = some cs ∧
        done <+: cs ∧ List.Forall₂ (AnswersCall intTraits (Map.withEntry intTraits 5 5 1)) done th.log := by
  have hr : run intTraits (Sys.init (Map.withEntry intTraits 5 5 1) [[.find 5], [.find 7]])
      ((List.replicate 8 [(0, true), (1, true)]).flatten ++ List.replicate 2 (0, true)) =
      some ⟨⟨1, [⟨2, 2, false, some [⟨some 0, false, 5⟩, Slot.zero]⟩], [⟨1, some (5, 5), 0, []⟩]⟩,
        [⟨[], .idle, [.iter ⟨0, 0⟩]⟩, ⟨[], .idle, [.iter ⟨1, 0⟩]⟩]⟩ := by
    decide
  exact ⟨_, hr, rfl, Steps.lookups_answer (by simp) (Steps.of_run _ hr)⟩

section
variable {K V : Type} {tr : Traits K} {m : Map K V}

/-! ## Faults -/

/-- `*it` reads through the slot's pointer; `none` past the buckets, past the array, or at
a null pointer. -/
theorem Map.deref?_eq (m : Map K V) (b o : Nat) :
    m.deref? ⟨b, o⟩ = ((m.ptrAt b o).bind m.block?).bind Block.value := by
  simp only [Map.deref?, Map.ptrAt, Map.bucketD]
  cases m.bucket? b <;> simp [Bucket.init, Bucket.slot?, Option.bind_assoc]

/-- `i->p->first` is the key of `*it`. -/
theorem keyAt_bucketD (m : Map K V) (b i : Nat) :
    keyAt m (m.bucketD b) i = (m.deref? ⟨b, i⟩).map Prod.fst := by
  rw [keyAt_eq, Map.deref?_eq, Map.ptrAt]
  cases ((m.bucketD b).slot? i).bind Slot.ptr <;> simp

theorem Block.value_of_live {bl : Block K V} (h : bl.life = some .live) : bl.value.isSome := by
  obtain ⟨c, v, d, f⟩ := bl
  unfold Block.life at h
  split at h <;> simp_all

theorem Map.value_of_live {a : Nat} (h : m.life a = some .live) :
    ((m.block? a).bind Block.value).isSome := by
  obtain ⟨bl, hbl, hl⟩ := Option.bind_eq_some.mp h
  simpa [hbl] using Block.value_of_live hl

/-- A lookup has returned a fault only on a map without buckets or with a slot that
points at no value. -/
theorem FindAnswer.ne_fault (hb : m.buckets ≠ [])
    (hv : ∀ b i a, m.ptrAt b i = some a → ((m.block? a).bind Block.value).isSome) (k : K) :
    ¬ FindAnswer tr m k .fault := by
  rintro ⟨-, hg | ⟨bi, i, -, -, hp, hk⟩⟩
  · exact hb (Map.getBucket_eq_none.mp hg)
  · obtain ⟨a, ha⟩ := Option.isSome_iff_exists.mp hp
    rw [keyAt_bucketD, Map.deref?_eq, ha, Option.some_bind, Option.map_eq_none'] at hk
    simpa [hk] using hv bi i a ha

/-- Lookups side by side never fault on a map that has a bucket and whose every slot
points at a block holding a value, as the allocator's invariant `Owned` has it. -/
theorem Steps.lookups_never_fault {css : List (List (Call K V))} {s : Sys K V}
    (hf : ∀ cs ∈ css, ∀ c ∈ cs, ∃ k, c = Call.find k) (hb : m.buckets ≠ [])
    (hv : ∀ b i a, m.ptrAt b i = some a → m.life a = some .live)
    (h : Steps tr (Sys.init m css) s) : ∀ th ∈ s.threads, Ret.fault ∉ th.log := by
  intro th hth hfault
  obtain ⟨t, ht⟩ := List.get?_of_mem hth
  obtain ⟨cs, -, hlt⟩ := (h.lookups (lookups_init hf)).threads t th ht
  obtain ⟨done, -, hdone⟩ := hlt.prefix
  generalize th.log = log at hdone hfault
  induction hdone with
  | nil => cases hfault
  | cons hr _ ih =>
    rcases List.mem_cons.mp hfault with rfl | hm
    · obtain ⟨k, -, hans⟩ := hr
      exact FindAnswer.ne_fault hb (fun b i a hp => Map.value_of_live (hv b i a hp)) k hans
    · exact ih hm

end

/-- The same two lookups side by side on the same map: neither faults. -/
theorem lookups_never_fault_interleaved :
    ∃ s, run intTraits (Sys.init (Map.withEntry intTraits 5 5 1) [[.find 5], [.find 7]])
        ((List.replicate 8 [(0, true), (1, true)]).flatten ++ List.replicate 2 (0, true)) = some s ∧
      s.threads.map Thread.log = [[.iter ⟨0, 0⟩], [.iter ⟨1, 0⟩]] ∧ ∀ th ∈ s.threads, Ret.fault ∉ th.log := by
  have hr : run intTraits (Sys.init (Map.withEntry intTraits 5 5 1) [[.find 5], [.find 7]])
      ((List.replicate 8 [(0, true), (1, true)]).flatten ++ List.replicate 2 (0, true)) =
      some ⟨⟨1, [⟨2, 2, false, some [⟨some 0, false, 5⟩, Slot.zero]⟩], [⟨1, some (5, 5), 0, []⟩]⟩,
        [⟨[], .idle, [.iter ⟨0, 0⟩]⟩, ⟨[], .idle, [.iter ⟨1, 0⟩]⟩]⟩ := by
    decide
  exact ⟨_, hr, rfl, Steps.lookups_never_fault (by simp) (by decide)
    (Sys.owned_withEntry intTraits 5 5 1 [[.find 5], [.find 7]]).slots (Steps.of_run _ hr)⟩

end ConcurrentUnorderedMap
