/-
# `ConcurrentUnorderedMap.Progress` — where a thread can stop, and why no run deadlocks

A thread inside a call can always take a step, except at the four places the code
waits on a lock that is held: `using_`'s back-off in `resize_lock.lock()`, the
`lock_guard` at the head of `resize` and `clear`, and the slot lock `lock()` of
`bucket_type::find` and of `remove`.  `Pc.spinsOn m pc` says the thread is at one of
them and the lock is held in `m`.  These, with having finished and being stopped by
undefined behaviour, are exactly the states in which a thread has no step, and a system
has no step at all exactly when each of its threads is in one of them.

**Deadlock.**  A deadlock is a state in which every unfinished thread is in a wait whose
exit condition is false: one of the four lock waits with the lock held, or the
`entered != exited` loop of `resize` and `clear` with the counters apart.  That loop
takes steps, so a deadlocked system need not be one without steps.

A slot can be waited on for ever: `bucket_type::insert` returns without unlocking the
slot it published, and a later `find` of the key waits on it (`insert_then_find_blocks`,
from a bucket that already has slots).  From construction no bucket ever has one
(`Unfilled`).  Then a thread waiting on `resize_lock` waits for the thread holding it,
which is in `resize` or `clear` and can wait only in the drain loop; the drain loop
waits for a thread counted on the bucket (`Balanced`); and a counted thread, inside a
`using_` scope, has only slot locks to wait on.  The chain ends at a thread in no wait.

**Proved here.**

    a thread has no step ⟺ it has finished, faulted, or waits on a held lock  (`threadStep_eq_none_iff`)
    no thread can step ⟺ every thread has finished, faulted, or waits         (`Sys.stuck_iff`)
    a Balanced system whose buckets have no slot is not deadlocked             (`Balanced.not_deadlocked`)
    from construction, with no reserve among the calls, no run deadlocks       (`fresh_map_never_deadlocks`)
-/
import ConcurrentUnorderedMap.Construction

namespace ConcurrentUnorderedMap

/-! ## The waits -/

/-- `using_`'s back-off spins in `resize_lock.lock()` while the lock is held. -/
def Entry.spins (b : Bucket) : Entry → Bool
  | .lock => b.resizeLock
  | _ => false

/-- The `lock_guard` of `resize` and `clear` spins while `resize_lock` is held. -/
def Drain.spins (b : Bucket) : Drain → Bool
  | .lock => b.resizeLock
  | _ => false

/-- `bucket_type::find`'s `i->p.lock()` spins while the slot is locked. -/
def Probe.spins (b : Bucket) : Probe → Bool
  | .lock i _ _ => (b.slot? i).any (·.locked)
  | _ => false

theorem Entry.spins_init (e : Entry) : e.spins Bucket.init = false := by cases e <;> rfl

theorem Drain.spins_init (d : Drain) : d.spins Bucket.init = false := by cases d <;> rfl

theorem Probe.spins_init (p : Probe) : p.spins Bucket.init = false := by cases p <;> rfl

theorem Entry.resizeLock_of_spins {b : Bucket} {e : Entry} (h : e.spins b) : b.resizeLock := by
  cases e <;> simp_all [Entry.spins]

theorem Drain.resizeLock_of_spins {b : Bucket} {d : Drain} (h : d.spins b) : b.resizeLock := by
  cases d <;> simp_all [Drain.spins]

/-- A thread counted on the bucket, or holding its lock, is past the back-off's wait. -/
theorem Entry.spins_of_counted {b : Bucket} {e : Entry} (h : e.counted ∨ e.holds) :
    e.spins b = false := by
  cases e <;> simp_all [Entry.spins]

/-- A thread holding `resize_lock` is past the `lock_guard`'s wait. -/
theorem Drain.spins_of_holds {b : Bucket} {d : Drain} (h : d.holds) : d.spins b = false := by
  cases d <;> simp_all [Drain.spins]

/-- Where a bucket has no slot, `bucket_type::find` has none to wait on. -/
theorem Probe.spins_of_slots {b : Bucket} (h : ∀ i, b.slot? i = none) (p : Probe) :
    p.spins b = false := by
  cases p <;> simp [Probe.spins, h]

section
variable {K V : Type} {tr : Traits K}

/-- The thread waits on a lock that is held in `m`. -/
def Pc.spinsOn (m : Map K V) : Pc K V → Bool
  | .find _ bi (.enter e) | .insert _ _ bi _ (.enter e) => e.spins (m.bucketD bi)
  | .find _ bi (.probe p) | .insert _ _ bi _ (.probe p) => p.spins (m.bucketD bi)
  | .bucketInsert _ _ bi _ (.claimEnter e) | .bucketInsert _ _ bi _ (.publishEnter e _ _)
  | .bucketInsert _ _ bi _ (.catchEnter e _ _) => e.spins (m.bucketD bi)
  | .bucketInsert _ _ bi _ (.resize _ _ d) | .clear bi (.drain d) => d.spins (m.bucketD bi)
  | .erase it (.enter e) => e.spins (m.bucketD it.bucket)
  | .erase it .lock => ((m.bucketD it.bucket).slot? it.offset).any (·.locked)
  | _ => false

/-- Stopped by undefined behaviour. -/
def Pc.isFault : Pc K V → Bool
  | .fault _ => true
  | _ => false

theorem usingStep_eq_none_iff {b : Bucket} {e : Entry} : usingStep b e = none ↔ e.spins b := by
  cases e <;> simp only [usingStep, Entry.spins, reduceCtorEq, Bool.false_eq_true]
  split <;> simp_all

theorem drainStep_eq_none_iff {c : Bool} {b : Bucket} {d : Drain} :
    drainStep c b d = none ↔ d.spins b := by
  cases d <;> simp only [drainStep, Drain.spins, reduceCtorEq, Bool.false_eq_true]
  split <;> simp_all

theorem bucketFindStep_blocked_iff {h : Nat} {b : Bucket} {p : Probe} :
    bucketFindStep h b p = .blocked ↔ p.spins b := by
  cases p <;> simp only [bucketFindStep, Probe.spins] <;> repeat' split
  all_goals simp_all

/-- A step on `_buckets[bi]` stops exactly where its body stops on that bucket. -/
theorem onBucket_eq_none_iff {m : Map K V} {bi : Nat} {f : Bucket → Option (Bucket × Next K V)}
    {P : Bucket → Bool} (hf : ∀ bk, f bk = none ↔ P bk) (hi : P Bucket.init = false) :
    onBucket m bi f = none ↔ P (m.bucketD bi) := by
  unfold onBucket Map.bucketD
  cases m.bucket? bi with
  | none => simp [hi]
  | some bk => simp [hf]

/-- A control inside a call has no step exactly when it waits on a held lock. -/
theorem pcStep_eq_none_iff_spins {c : Bool} {m : Map K V} {pc : Pc K V} (hi : pc ≠ .idle)
    (hf : pc.isFault = false) : pcStep tr c m pc = none ↔ pc.spinsOn m := by
  cases pc
  case idle => exact absurd rfl hi
  case fault => cases hf
  case clearSize => simp [pcStep, Pc.spinsOn]
  all_goals rename_i st; cases st
  all_goals simp only [pcStep, findStep, insertStep, bucketInsertStep, eraseStep, clearStep,
    Pc.spinsOn]
  case find.probe k _ p | insert.probe k _ _ _ p =>
    refine onBucket_eq_none_iff (P := fun bk => p.spins bk) (fun bk => ?_) (p.spins_init)
    rw [← bucketFindStep_blocked_iff (h := tr.hasher k)]
    cases bucketFindStep (tr.hasher k) bk p <;> simp
  case erase.lock it =>
    refine onBucket_eq_none_iff (P := fun bk => (bk.slot? it.offset).any (·.locked))
      (fun bk => ?_) rfl
    dsimp only
    cases bk.slot? it.offset <;> simp
  case find.enter | insert.enter | bucketInsert.claimEnter | bucketInsert.publishEnter |
      bucketInsert.catchEnter | erase.enter =>
    exact onBucket_eq_none_iff (P := fun bk => Entry.spins bk _)
      (fun _ => Option.map_eq_none'.trans usingStep_eq_none_iff) (Entry.spins_init _)
  case bucketInsert.resize | clear.drain =>
    exact onBucket_eq_none_iff (P := fun bk => Drain.spins bk _)
      (fun _ => Option.map_eq_none'.trans drainStep_eq_none_iff) (Drain.spins_init _)
  case insert.count | bucketInsert.allocate | bucketInsert.construct | bucketInsert.catchFree |
      erase.destroy | erase.free | clear.free =>
    (repeat' split) <;> simp
  all_goals exact onBucket_eq_none_iff (P := fun _ => false) (fun _ => by (repeat' split) <;> simp) rfl

/-- The states in which a thread has no step: between calls, stopped by undefined
behaviour, or waiting on a held lock. -/
theorem pcStep_eq_none_iff {c : Bool} {m : Map K V} {pc : Pc K V} :
    pcStep tr c m pc = none ↔ pc = .idle ∨ pc.isFault ∨ pc.spinsOn m := by
  by_cases hi : pc = .idle
  · subst hi; simp [pcStep]
  cases hf : pc.isFault
  · simpa [hi] using pcStep_eq_none_iff_spins hi hf
  · cases pc <;> simp_all [pcStep, Pc.isFault]

/-! ## Where the whole system stops -/

/-- A thread that has finished all its calls. -/
def Thread.done (th : Thread K V) : Bool :=
  match th.pc with
  | .idle => th.calls.isEmpty
  | _ => false

theorem Thread.pc_of_done {th : Thread K V} (h : th.done = true) : th.pc = .idle := by
  unfold Thread.done at h; split at h <;> simp_all

/-- A thread has no step exactly when it has finished, is stopped by undefined behaviour,
or waits on a held lock. -/
theorem threadStep_eq_none_iff {c : Bool} {m : Map K V} {th : Thread K V} :
    threadStep tr c m th = none ↔ th.done ∨ th.pc.isFault ∨ th.pc.spinsOn m := by
  obtain ⟨calls, pc, log⟩ := th
  unfold threadStep Thread.done
  split
  · simp_all
  · simp_all [Pc.isFault, Pc.spinsOn]
  · rename_i hne _
    have hi : pc ≠ .idle := fun h => by cases calls <;> simp_all
    simp [Option.map_eq_none', pcStep_eq_none_iff, hi]

/-- No thread can take a step, whatever the choice, exactly when every thread has
finished, is stopped by undefined behaviour, or waits on a held lock. -/
theorem Sys.stuck_iff {s : Sys K V} :
    (∀ t c, step tr s t c = none) ↔
      ∀ th ∈ s.threads, th.done ∨ th.pc.isFault ∨ th.pc.spinsOn s.map := by
  unfold step
  constructor
  · intro h th hth
    obtain ⟨t, ht⟩ := List.get?_of_mem hth
    have h := h t true
    rw [ht, Option.map_eq_none'] at h
    exact threadStep_eq_none_iff.mp h
  · intro h t c
    cases ht : s.threads.get? t with
    | none => rfl
    | some th =>
      exact Option.map_eq_none'.mpr (threadStep_eq_none_iff.mpr (h th (List.get?_mem ht)))

/-! ## Deadlock

The claim's waits are the three spins on a held lock and the `entered != exited` loop,
which takes steps but cannot leave while the counters are apart. -/

/-- `while(entered!=exited)` of `resize` and `clear`, with the two counters loading apart. -/
def Drain.drains (b : Bucket) : Drain → Bool
  | .lock => false
  | _ => Bucket.load b.entered != Bucket.load b.exited

theorem Drain.apart_of_drains {b : Bucket} {d : Drain} (h : d.drains b) :
    Bucket.load b.entered ≠ Bucket.load b.exited := by
  cases d <;> simp_all [Drain.drains]

/-- The thread is in the `entered != exited` loop of `resize` or `clear`, on a bucket whose
counters are apart in `m`. -/
def Pc.drainsOn (m : Map K V) : Pc K V → Bool
  | .bucketInsert _ _ bi _ (.resize _ _ d) | .clear bi (.drain d) => d.drains (m.bucketD bi)
  | _ => false

/-- The thread is in one of the code's waits, and its exit condition is false in `m`. -/
def Pc.waits (m : Map K V) (pc : Pc K V) : Bool := pc.spinsOn m || pc.drainsOn m

/-- Some thread has not finished, and every thread that has not is in a wait whose exit
condition is false. -/
def Sys.Deadlocked (s : Sys K V) : Prop :=
  (∃ th ∈ s.threads, th.done = false) ∧ ∀ th ∈ s.threads, th.done ∨ th.pc.waits s.map

/-- What C++ promises no run of find, insert and erase calls reaches. -/
def NoDeadlock (tr : Traits K) (s₀ : Sys K V) : Prop := ∀ s, Steps tr s₀ s → ¬ s.Deadlocked

/-! ### The chain of waits, on buckets without slots -/

/-- On buckets without slots, a thread spins only on a held `resize_lock`. -/
theorem Pc.spinsOn_resizeLock {m : Map K V} (hm : ∀ b, (m.bucketD b).count = 0) {pc : Pc K V}
    (hs : pc.spinsOn m) : ∃ b, (m.bucketD b).resizeLock = true := by
  have hn := fun b i => Bucket.slot?_eq_none_of_count (hm b) i
  unfold Pc.spinsOn at hs
  split at hs
  all_goals first
    | exact ⟨_, Entry.resizeLock_of_spins hs⟩
    | exact ⟨_, Drain.resizeLock_of_spins hs⟩
    | simp [Probe.spins_of_slots (hn _), hn] at hs

/-- A thread in the drain loop waits for counters that are apart. -/
theorem Pc.apart_of_drainsOn {m : Map K V} {pc : Pc K V} (hd : pc.drainsOn m) :
    ∃ b, Bucket.load (m.bucketD b).entered ≠ Bucket.load (m.bucketD b).exited := by
  unfold Pc.drainsOn at hd
  split at hd
  all_goals first
    | exact ⟨_, Drain.apart_of_drains hd⟩
    | cases hd

/-- A thread counted on a bucket, where no bucket has a slot, is in no wait: the only
waits inside a `using_` scope are on slot locks. -/
theorem Pc.waits_of_counted {m : Map K V} (hm : ∀ b, (m.bucketD b).count = 0) {pc : Pc K V}
    {b : Nat} (hc : pc.counted b) : pc.waits m = false := by
  have hn := fun b i => Bucket.slot?_eq_none_of_count (hm b) i
  cases pc <;> simp only [Pc.counted, Bool.false_eq_true] at hc
  case fault => rfl
  all_goals rename_i st; cases st
  all_goals simp only [Pc.waits, Pc.spinsOn, Pc.drainsOn, Bool.or_false, Probe.spins_of_slots (hn _),
    hn, Option.any_none]
  all_goals simp only [FindSt.counted, InsSt.counted, BInsSt.counted, EraseSt.counted,
    Bool.and_eq_true, Bool.false_eq_true, and_false] at hc
  all_goals exact Entry.spins_of_counted (.inl hc.2)

/-- A thread that holds `resize_lock` of bucket `b` and waits is in the drain loop of `b`. -/
theorem Pc.apart_of_holds {m : Map K V} {pc : Pc K V} {b : Nat} (hh : pc.holds b)
    (hw : pc.waits m) : Bucket.load (m.bucketD b).entered ≠ Bucket.load (m.bucketD b).exited := by
  cases pc <;> simp only [Pc.holds, Bool.false_eq_true] at hh
  case fault => simp [Pc.waits, Pc.spinsOn, Pc.drainsOn] at hw
  all_goals rename_i st; cases st
  all_goals simp only [FindSt.holds, InsSt.holds, BInsSt.holds, EraseSt.holds, ClearSt.holds,
    Bool.and_eq_true, beq_iff_eq, Bool.false_eq_true, and_false] at hh
  all_goals obtain ⟨rfl, hh⟩ := hh
  all_goals simp only [Pc.waits, Pc.spinsOn, Pc.drainsOn, Bool.or_false, Bool.false_or] at hw
  all_goals first
    | cases hw
    | (rw [Entry.spins_of_counted (.inr hh)] at hw; cases hw)
    | (rw [Drain.spins_of_holds hh, Bool.false_or] at hw; exact Drain.apart_of_drains hw)

/-- A `Balanced` system whose buckets have no slot is not deadlocked.  A thread waiting on
`resize_lock` waits for the thread that holds it; a holder that waits is in the drain
loop and waits for a thread counted on the bucket; and a counted thread is in no wait. -/
theorem Balanced.not_deadlocked {s : Sys K V} (hb : Balanced s)
    (hm : ∀ b, (s.map.bucketD b).count = 0) : ¬ s.Deadlocked := by
  rintro ⟨⟨th, hth, hnd⟩, hall⟩
  have busy : ∀ th ∈ s.threads, th.pc ≠ .idle → th.pc.waits s.map := fun th hth hi =>
    (hall th hth).resolve_left fun hd => hi (Thread.pc_of_done hd)
  have apart : ∀ b, Bucket.load (s.map.bucketD b).entered ≠ Bucket.load (s.map.bucketD b).exited →
      False := fun b hne => by
    have hpos : 0 < inflight s b :=
      Nat.pos_of_ne_zero fun h0 => hne (by rw [hb.counters b, h0, Nat.add_zero])
    obtain ⟨th', hth', hc⟩ := List.countP_pos_iff.mp hpos
    have hw := busy th' hth' fun hi => by simp [hi] at hc
    rw [Pc.waits_of_counted hm hc] at hw
    cases hw
  have held : ∀ b, (s.map.bucketD b).resizeLock = true → False := fun b hl => by
    obtain ⟨th', hth', hh⟩ := List.countP_pos_iff.mp ((hb.lock b).mp hl)
    exact apart b (Pc.apart_of_holds hh (busy th' hth' fun hi => by simp [hi] at hh))
  have hw := (hall th hth).resolve_left (by simp [hnd])
  simp only [Pc.waits, Bool.or_eq_true] at hw
  rcases hw with hs | hd
  · obtain ⟨b, hl⟩ := Pc.spinsOn_resizeLock hm hs
    exact held b hl
  · obtain ⟨b, hne⟩ := Pc.apart_of_drainsOn hd
    exact apart b hne

/-- From construction, with no `reserve` among the calls, no run deadlocks: no bucket ever
has a slot, so there is no slot lock to wait on, and the chain of waits on `resize_lock`
and the counters ends at a thread that can go on. -/
theorem fresh_map_never_deadlocks (n : Nat) {css : List (List (Call K V))}
    (hn : ∀ cs ∈ css, ∀ k, Call.reserve k ∉ cs) : NoDeadlock tr (Sys.init (Map.init n) css) :=
  fun _ h => by
    have hr : NoReserve (Sys.init (Map.init n) css : Sys K V) := fun th hth => by
      obtain ⟨cs, hcs, rfl⟩ := List.mem_map.mp hth
      exact hn cs hcs
    exact (h.balanced hr (balanced_init n css)).not_deadlocked
      (h.unfilled (unfilled_init n css)).slots

end

/-- The three threads of `freshRace` never deadlock, though the erase faults inside its
scope and the second insert's `resize` then waits for good (`freshRace_run`): the faulted
thread is in no wait. -/
theorem fresh_race_never_deadlocks :
    (∀ cs ∈ freshRace, ∀ k, Call.reserve k ∉ cs) ∧
      NoDeadlock intTraits (Sys.init (Map.init 1) freshRace) :=
  ⟨by simp [freshRace], fresh_map_never_deadlocks 1 (by simp [freshRace])⟩

end ConcurrentUnorderedMap
