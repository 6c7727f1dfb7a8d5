/-
# `ConcurrentUnorderedMap.Scope` — `using_` scopes, the counters and `resize_lock`

`bucket_type::using_` is the map's only protection for `items` and `count`: a
thread announces itself with `++entered`, and `resize` or `clear`, holding
`resize_lock`, waits until `entered == exited`.  This module says what the two
counters and the lock mean over every interleaving, and then shows that the wait
does not give the protection the code's comment ("Wait until present users have
exited") promises.

**What the counters count.**  `Pc.counted pc b`: the thread has made a `++entered`
on bucket `b` whose `++exited` it has not yet made.  `Pc.holds pc b`: it holds
`b`'s `resize_lock`.  `Balanced s`: for every bucket,

    entered = exited + #{threads counted on b}
    resize_lock set  ↔  some thread holds it,   and at most one does

`Balanced` holds initially and every step keeps it (`balanced_step`), except the one
that `reserve` would break by dropping a bucket others are still using; so it holds
on every run of threads that make no `reserve` call, and on every single-threaded
run (`Steps.balanced_of_noReserve`, `Steps.balanced_of_solo`).

**What the wait misses.**  `entered!=exited` is two loads.  If `entered` is loaded
first, a thread that enters *after* that load, sees the lock and backs off with
`++exited` evens the count for a thread that is still inside its scope.
`ScopesExcludeResize` is the property the comment promises; it fails on a fresh map
with three inserting threads (`scopes_exclude_resize_fails`), and holds with two
(`ConcurrentUnorderedMap.Exclusion`).
-/
import ConcurrentUnorderedMap.Step

namespace ConcurrentUnorderedMap

/-! ## Counted threads and lock holders -/

namespace Entry

/-- After the constructor's `++entered`, before its own `++exited` of the back-off. -/
def counted : Entry → Bool
  | .check | .back => true
  | _ => false

/-- Between the back-off's `resize_lock.lock()` and its `unlock()`. -/
def holds : Entry → Bool
  | .unlock => true
  | _ => false

end Entry

/-- Past the `lock_guard`'s `lock()`. -/
def Drain.holds : Drain → Bool
  | .lock => false
  | _ => true

/-- Counted in `find`: everywhere past the constructor's increment. -/
def FindSt.counted : FindSt → Bool
  | .enter e => e.counted
  | _ => true

/-- `find` holds `resize_lock` only in a back-off. -/
def FindSt.holds : FindSt → Bool
  | .enter e => e.holds
  | _ => false

/-- Counted in `insert`'s lookup, which ends at `leave`. -/
def InsSt.counted : InsSt → Bool
  | .enter e => e.counted
  | .count _ => false
  | _ => true

/-- `insert`'s lookup holds `resize_lock` only in a back-off. -/
def InsSt.holds : InsSt → Bool
  | .enter e => e.holds
  | _ => false

/-- Counted in `bucket_type::insert`: its three `using_` scopes. -/
def BInsSt.counted : BInsSt → Bool
  | .claimEnter e | .publishEnter e _ _ | .catchEnter e _ _ => e.counted
  | .resize .. | .realloc .. | .resized .. | .allocate _ | .construct .. => false
  | _ => true

/-- `bucket_type::insert` holds `resize_lock` in a back-off and inside `resize`. -/
def BInsSt.holds : BInsSt → Bool
  | .claimEnter e | .publishEnter e _ _ | .catchEnter e _ _ => e.holds
  | .resize _ _ d => d.holds
  | .realloc .. | .resized .. => true
  | _ => false

/-- Counted in `remove`: its one scope, up to `detach`'s return. -/
def EraseSt.counted : EraseSt → Bool
  | .enter e => e.counted
  | .lock | .detach | .reset _ | .leave _ => true
  | _ => false

/-- `remove` holds `resize_lock` only in a back-off. -/
def EraseSt.holds : EraseSt → Bool
  | .enter e => e.holds
  | _ => false

/-- `clear` holds `resize_lock` from its `lock_guard` to the end of the bucket. -/
def ClearSt.holds : ClearSt → Bool
  | .drain d => d.holds
  | _ => true

namespace Pc

variable {K V : Type}

/-- The thread has made a `++entered` on bucket `b` and not its `++exited`. -/
def counted (b : Nat) : Pc K V → Bool
  | .fault pc => pc.counted b
  | .find _ b' st => b' == b && st.counted
  | .insert _ _ b' _ st => b' == b && st.counted
  | .bucketInsert _ _ b' _ st => b' == b && st.counted
  | .erase it st => it.bucket == b && st.counted
  | _ => false

/-- The thread holds bucket `b`'s `resize_lock`. -/
def holds (b : Nat) : Pc K V → Bool
  | .fault pc => pc.holds b
  | .find _ b' st => b' == b && st.holds
  | .insert _ _ b' _ st => b' == b && st.holds
  | .bucketInsert _ _ b' _ st => b' == b && st.holds
  | .erase it st => it.bucket == b && st.holds
  | .clear b' st => b' == b && st.holds
  | _ => false

end Pc

attribute [simp] Entry.counted Entry.holds Drain.holds FindSt.counted FindSt.holds InsSt.counted
  InsSt.holds BInsSt.counted BInsSt.holds EraseSt.counted EraseSt.holds ClearSt.holds Pc.counted
  Pc.holds

/-! ## The invariant -/

section
variable {K V : Type} {tr : Traits K}

/-- `_buckets[b]`, or a fresh bucket past the vector. -/
def Map.bucketD (m : Map K V) (b : Nat) : Bucket := (m.bucket? b).getD Bucket.init

/-- The threads counted on bucket `b`. -/
def inflight (s : Sys K V) (b : Nat) : Nat := s.threads.countP (·.pc.counted b)

/-- The threads holding bucket `b`'s `resize_lock`. -/
def holders (s : Sys K V) (b : Nat) : Nat := s.threads.countP (·.pc.holds b)

/-- The counters count the threads in flight, and `resize_lock` is a lock; past the
bucket vector, no thread is in flight and none holds a lock. -/
structure Balanced (s : Sys K V) : Prop where
  counters : ∀ b, (s.map.bucketD b).entered = (s.map.bucketD b).exited + inflight s b
  lock : ∀ b, ((s.map.bucketD b).resizeLock = true ↔ 0 < holders s b)
  single : ∀ b, holders s b ≤ 1

/-- What one step may do to one bucket, seen from the thread taking it: `++entered`
exactly when the thread becomes counted and `++exited` exactly when it stops being
counted, and the lock is taken only when free and only by the thread that then holds it,
and dropped only by the thread that held it. -/
structure BucketMove (bk bk' : Bucket) (c c' h h' : Bool) : Prop where
  entered : bk'.entered = bk.entered + (!c && c').toNat
  exited : bk'.exited = bk.exited + (c && !c').toNat
  keep : h = h' → bk'.resizeLock = bk.resizeLock
  take : h = false → h' = true → bk.resizeLock = false ∧ bk'.resizeLock = true
  drop : h = true → h' = false → bk'.resizeLock = false

theorem BucketMove.counters {bk bk' : Bucket} {c c' h h' : Bool} (hm : BucketMove bk bk' c c' h h') :
    bk'.entered + bk.exited + c.toNat = bk.entered + bk'.exited + c'.toNat := by
  rw [hm.entered, hm.exited]; cases c <;> cases c' <;> simp <;> omega

/-- A step that keeps the thread's standing on the bucket leaves both counters as they were. -/
theorem BucketMove.counters_stay {bk bk' : Bucket} {c h h' : Bool} (hm : BucketMove bk bk' c c h h') :
    bk'.entered = bk.entered ∧ bk'.exited = bk.exited := by
  cases c <;> simpa using And.intro hm.entered hm.exited

theorem BucketMove.stay {bk : Bucket} {c h : Bool} : BucketMove bk bk c c h h :=
  ⟨by simp, by simp, fun _ => Eq.refl _, by rintro rfl ⟨⟩, by rintro rfl ⟨⟩⟩

/-- The control a thread has after a step: `idle` once the call returned, frozen where
it was on undefined behaviour. -/
def Pc.after (pc : Pc K V) : Next K V → Pc K V
  | .go pc' => pc'
  | .ret _ => .idle
  | .fault => .fault pc

attribute [simp] Pc.after

/-! ## One step of a sub-machine -/

theorem usingStep_move {b b' : Bucket} {e : Entry} {e' : Option Entry}
    (h : usingStep b e = some (b', e')) :
    BucketMove b b' e.counted (e'.elim true Entry.counted) e.holds (e'.elim false Entry.holds) := by
  cases e <;> simp only [usingStep] at h <;> (try split at h) <;>
    simp only [Option.some.injEq, Prod.mk.injEq, reduceCtorEq] at h <;>
    obtain ⟨rfl, rfl⟩ := h <;> constructor <;> simp_all [Entry.counted, Entry.holds]

theorem drainStep_move {c : Bool} {b b' : Bucket} {d : Drain} {d' : Option Drain}
    (h : drainStep c b d = some (b', d')) :
    BucketMove b b' false false d.holds (d'.elim true Drain.holds) := by
  cases d <;> simp only [drainStep] at h <;> (try split at h) <;>
    simp only [Option.some.injEq, Prod.mk.injEq, reduceCtorEq] at h <;>
    obtain ⟨rfl, rfl⟩ := h <;> constructor <;> (try split_ifs) <;> simp_all [Drain.holds]

/-- A step that leaves the counters and the lock alone keeps the move trivial. -/
theorem BucketMove.of_same {bk bk' : Bucket} {c h : Bool} (he : bk'.entered = bk.entered)
    (hx : bk'.exited = bk.exited) (hl : bk'.resizeLock = bk.resizeLock) :
    BucketMove bk bk' c c h h :=
  ⟨by simp [he], by simp [hx], fun _ => hl, by rintro rfl ⟨⟩, by rintro rfl ⟨⟩⟩

/-- `~using_`: one `++exited`, and the thread is no longer counted. -/
theorem BucketMove.leave {bk : Bucket} : BucketMove bk bk.leave true false false false :=
  ⟨by simp [Bucket.leave], by simp [Bucket.leave], fun _ => rfl, by rintro - ⟨⟩, by rintro ⟨⟩⟩

@[simp] theorem Bucket.setSlot_entered (b : Bucket) (i : Nat) (sl : Slot) :
    (b.setSlot i sl).entered = b.entered := rfl
@[simp] theorem Bucket.setSlot_exited (b : Bucket) (i : Nat) (sl : Slot) :
    (b.setSlot i sl).exited = b.exited := rfl
@[simp] theorem Bucket.setSlot_resizeLock (b : Bucket) (i : Nat) (sl : Slot) :
    (b.setSlot i sl).resizeLock = b.resizeLock := rfl

/-- The loop of `bucket_type::find` touches slots only. -/
theorem bucketFindStep_next {h : Nat} {b b' : Bucket} {p p' : Probe} {r : Option Nat}
    (hs : bucketFindStep h b p = .next b' p' r) :
    b'.entered = b.entered ∧ b'.exited = b.exited ∧ b'.resizeLock = b.resizeLock := by
  cases p <;> simp only [bucketFindStep] at hs <;> repeat' (first | split at hs | cases hs)
  all_goals simp

/-! ## One step of a function -/

/-- The thread's control counts and holds nothing outside bucket `bi`. -/
def Settled (bi : Nat) (pc : Pc K V) : Prop := ∀ b, b ≠ bi → pc.counted b = false ∧ pc.holds b = false

/-- The move a step made at the bucket `b`, for the thread at `pc` that made `n`. -/
def LocalMove (pc : Pc K V) (b : Nat) (bk bk' : Bucket) (n : Next K V) : Prop :=
  BucketMove bk bk' (pc.counted b) ((pc.after n).counted b) (pc.holds b) ((pc.after n).holds b)

theorem LocalMove.fault {pc : Pc K V} {b : Nat} {bk : Bucket} : LocalMove pc b bk bk .fault :=
  BucketMove.stay

theorem onBucket_eq {m m' : Map K V} {bi : Nat} {f : Bucket → Option (Bucket × Next K V)}
    {n : Next K V} (h : onBucket m bi f = some (m', n)) :
    (m' = m ∧ n = .fault) ∨
      ∃ bk bk', m.bucket? bi = some bk ∧ f bk = some (bk', n) ∧ m' = m.setBucket bi bk' := by
  unfold onBucket at h
  split at h
  · simp_all
  · obtain ⟨⟨bk', n'⟩, hf, he⟩ := Option.map_eq_some'.mp h
    cases he
    exact .inr ⟨_, bk', ‹_›, hf, rfl⟩

/-- A step of `using_`'s constructor inside a function. -/
theorem enter_move {pc : Pc K V} {bi : Nat} {b b' : Bucket} {e : Entry}
    {stay : Entry → Pc K V} {done : Pc K V} {n : Next K V}
    (h : enter b e stay done = some (b', n))
    (hc : pc.counted bi = e.counted) (hh : pc.holds bi = e.holds)
    (hs : ∀ e', (stay e').counted bi = e'.counted ∧ (stay e').holds bi = e'.holds)
    (hd : done.counted bi = true ∧ done.holds bi = false) :
    LocalMove pc bi b b' n := by
  unfold enter at h
  obtain ⟨⟨b₁, e'⟩, hu, he⟩ := Option.map_eq_some'.mp h
  cases he
  have hm := usingStep_move hu
  cases e' with
  | none => simpa [LocalMove, Pc.after, hc, hh, hd] using hm
  | some e' => simpa [LocalMove, Pc.after, hc, hh, hs e'] using hm

theorem LocalMove.of_same {pc : Pc K V} {b : Nat} {bk bk' : Bucket} {n : Next K V}
    (he : bk'.entered = bk.entered) (hx : bk'.exited = bk.exited)
    (hl : bk'.resizeLock = bk.resizeLock) (hc : (pc.after n).counted b = pc.counted b)
    (hh : (pc.after n).holds b = pc.holds b) : LocalMove pc b bk bk' n := by
  unfold LocalMove; rw [hc, hh]; exact BucketMove.of_same he hx hl

theorem LocalMove.leave {pc : Pc K V} {b : Nat} {bk : Bucket} {n : Next K V}
    (hc : pc.counted b = true) (hc' : (pc.after n).counted b = false)
    (hh : pc.holds b = false) (hh' : (pc.after n).holds b = false) :
    LocalMove pc b bk bk.leave n := by
  unfold LocalMove; rw [hc, hc', hh, hh']; exact BucketMove.leave

theorem Settled.fault {bi : Nat} {pc : Pc K V} (h : Settled bi pc) : Settled bi (.fault pc) := h

@[simp] theorem Settled.fault_iff {bi : Nat} {pc : Pc K V} : Settled bi (.fault pc) ↔ Settled bi pc :=
  Iff.rfl

@[simp] theorem Settled.idle {bi : Nat} : Settled bi (.idle : Pc K V) := fun _ _ => ⟨rfl, rfl⟩

@[simp] theorem Settled.find {bi : Nat} {k : K} {st : FindSt} : Settled bi (Pc.find (V := V) k bi st) := by
  intro b hb; simp [Ne.symm hb]

theorem Settled.after {bi : Nat} {pc : Pc K V} {n : Next K V} (h : Settled bi pc)
    (hn : ∀ pc', n = .go pc' → Settled bi pc') : Settled bi (pc.after n) := by
  cases n with
  | go pc' => exact hn pc' rfl
  | ret _ => exact Settled.idle
  | fault => exact h.fault

theorem drain_move {c : Bool} {pc : Pc K V} {bi : Nat} {b b' : Bucket} {d : Drain}
    {stay : Drain → Pc K V} {done : Pc K V} {n : Next K V}
    (h : drain c b d stay done = some (b', n))
    (hc : pc.counted bi = false) (hh : pc.holds bi = d.holds)
    (hs : ∀ d', (stay d').counted bi = false ∧ (stay d').holds bi = d'.holds)
    (hd : done.counted bi = false ∧ done.holds bi = true) :
    LocalMove pc bi b b' n := by
  unfold drain at h
  obtain ⟨⟨b₁, d'⟩, hu, he⟩ := Option.map_eq_some'.mp h
  cases he
  have hm := drainStep_move hu
  cases d' with
  | none => simpa [LocalMove, Pc.after, hc, hh, hd] using hm
  | some d' => simpa [LocalMove, Pc.after, hc, hh, hs d'] using hm

theorem enter_settled {pc : Pc K V} {bi : Nat} {b b' : Bucket} {e : Entry}
    {stay : Entry → Pc K V} {done : Pc K V} {n : Next K V}
    (h : enter b e stay done = some (b', n)) (hp : Settled bi pc)
    (hs : ∀ e', Settled bi (stay e')) (hd : Settled bi done) : Settled bi (pc.after n) := by
  unfold enter at h
  obtain ⟨⟨b₁, e'⟩, -, he⟩ := Option.map_eq_some'.mp h
  cases he
  exact hp.after fun _ hn => by cases hn; cases e' <;> simp only [hd, hs]

theorem drain_settled {c : Bool} {pc : Pc K V} {bi : Nat} {b b' : Bucket} {d : Drain}
    {stay : Drain → Pc K V} {done : Pc K V} {n : Next K V}
    (h : drain c b d stay done = some (b', n)) (hp : Settled bi pc)
    (hs : ∀ d', Settled bi (stay d')) (hd : Settled bi done) : Settled bi (pc.after n) := by
  unfold drain at h
  obtain ⟨⟨b₁, d'⟩, -, he⟩ := Option.map_eq_some'.mp h
  cases he
  exact hp.after fun _ hn => by cases hn; cases d' <;> simp only [hd, hs]

@[simp] theorem Settled.insert {bi : Nat} {k : K} {x : V} {hint : Nat} {st : InsSt} :
    Settled bi (Pc.insert k x bi hint st) := by
  intro b hb; simp [Ne.symm hb]

@[simp] theorem Settled.bucketInsert {bi : Nat} {k : K} {x : V} {hint : Nat} {st : BInsSt} :
    Settled bi (Pc.bucketInsert k x bi hint st) := by
  intro b hb; simp [Ne.symm hb]

@[simp] theorem Settled.erase {it : Iter} {st : EraseSt} : Settled it.bucket (Pc.erase (K := K) (V := V) it st) := by
  intro b hb; simp [Ne.symm hb]

@[simp] theorem Settled.clear {bi : Nat} {st : ClearSt} : Settled bi (Pc.clear (K := K) (V := V) bi st) := by
  intro b hb; simp [Ne.symm hb]

/-- `clear` moving on to the next bucket holds nothing there yet. -/
@[simp] theorem Settled.clearNext {bi : Nat} : Settled bi (Pc.clear (K := K) (V := V) (bi + 1) (.drain .lock)) := by
  intro b _; simp

@[simp] theorem Settled.clearSize {bi : Nat} : Settled bi (Pc.clearSize : Pc K V) := fun _ _ => ⟨rfl, rfl⟩

theorem Map.bucketD_setBucket {m : Map K V} {bi b : Nat} {bk bk' : Bucket}
    (hb : m.bucket? bi = some bk) :
    (m.setBucket bi bk').bucketD b = if b = bi then bk' else m.bucketD b := by
  have hl : bi < m.buckets.length := by
    by_contra hc
    simp [Map.bucket?, List.getElem?_eq_none (not_lt.mp hc)] at hb
  by_cases h : b = bi
  · subst h; simp [Map.bucketD, Map.bucket?, Map.setBucket, hl]
  · simp [Map.bucketD, Map.bucket?, Map.setBucket, h, Ne.symm h, List.getElem?_set]

/-- A move at the one bucket a step touches, by a thread settled there, is a move at every bucket. -/
theorem LocalMove.global {pc : Pc K V} {n : Next K V} {m m' : Map K V} {bi : Nat}
    {bk bk' : Bucket} (hb : m.bucket? bi = some bk) (hm : m'.buckets = (m.setBucket bi bk').buckets)
    (hl : LocalMove pc bi bk bk' n) (hs : Settled bi pc) (hs' : Settled bi (pc.after n)) (b : Nat) :
    LocalMove pc b (m.bucketD b) (m'.bucketD b) n := by
  have hD : m'.bucketD b = (m.setBucket bi bk').bucketD b := by
    simp [Map.bucketD, Map.bucket?, hm]
  rw [hD, Map.bucketD_setBucket hb]
  by_cases h : b = bi
  · subst h
    simpa [Map.bucketD, hb] using hl
  · rw [if_neg h]
    unfold LocalMove
    rw [(hs b h).1, (hs b h).2, (hs' b h).1, (hs' b h).2]
    exact BucketMove.stay

theorem LocalMove.unlock {pc : Pc K V} {b : Nat} {bk : Bucket} {n : Next K V}
    (hc : (pc.after n).counted b = pc.counted b) (hh : pc.holds b = true)
    (hh' : (pc.after n).holds b = false) : LocalMove pc b bk { bk with resizeLock := false } n := by
  unfold LocalMove; rw [hc, hh, hh']
  exact ⟨by simp, by simp, by rintro ⟨⟩, by rintro ⟨⟩, fun _ _ => rfl⟩

/-- A step that leaves every bucket alone and the thread's standing unchanged. -/
theorem LocalMove.heap {pc : Pc K V} {n : Next K V} {m m' : Map K V}
    (hm : m'.buckets = m.buckets) (hc : ∀ b, (pc.after n).counted b = pc.counted b)
    (hh : ∀ b, (pc.after n).holds b = pc.holds b) (b : Nat) :
    LocalMove pc b (m.bucketD b) (m'.bucketD b) n := by
  have hD : m'.bucketD b = m.bucketD b := by simp [Map.bucketD, Map.bucket?, hm]
  rw [hD]; unfold LocalMove; rw [hc, hh]; exact BucketMove.stay

@[simp] theorem Map.setBlock_buckets (m : Map K V) (a : Nat) (bl : Block K V) :
    (m.setBlock a bl).buckets = m.buckets := rfl

theorem destroyItem_buckets (m : Map K V) (sl : Slot) : (destroyItem tr m sl).buckets = m.buckets := by
  unfold destroyItem; split
  · rfl
  · split <;> rfl

theorem foldl_destroyItem_buckets (l : List Slot) (m : Map K V) :
    (l.foldl (destroyItem tr) m).buckets = m.buckets := by
  induction l generalizing m with
  | nil => rfl
  | cons sl l ih => simp [List.foldl, ih, destroyItem_buckets]

/-- A step on bucket `bi`, by a thread settled there before and after it, moves every
bucket as the thread's standing at `bi` says. -/
theorem onBucket_move {pc : Pc K V} {m m' : Map K V} {bi : Nat}
    {f : Bucket → Option (Bucket × Next K V)} {n : Next K V} (h : onBucket m bi f = some (m', n))
    (hs : Settled bi pc)
    (hf : ∀ bk bk', f bk = some (bk', n) → LocalMove pc bi bk bk' n ∧ Settled bi (pc.after n))
    (b : Nat) : LocalMove pc b (m.bucketD b) (m'.bucketD b) n := by
  rcases onBucket_eq h with ⟨rfl, rfl⟩ | ⟨bk, bk', hb, hf', rfl⟩
  · exact LocalMove.fault
  · exact LocalMove.global hb rfl (hf _ _ hf').1 hs (hf _ _ hf').2 b

/-- Every step inside a call moves every bucket as the thread's standing says. -/
theorem pcStep_move {c : Bool} {m m' : Map K V} {pc : Pc K V} {n : Next K V}
    (h : pcStep tr c m pc = some (m', n)) (b : Nat) :
    LocalMove pc b (m.bucketD b) (m'.bucketD b) n := by
  cases pc
  case idle | fault => cases h
  case clearSize => cases h; exact BucketMove.stay
  all_goals rename_i st; cases st
  all_goals simp only [pcStep, findStep, insertStep, bucketInsertStep, eraseStep, clearStep] at h
  case insert.count | bucketInsert.allocate | bucketInsert.construct | bucketInsert.catchFree |
      erase.destroy | erase.free =>
    (repeat' split at h) <;> cases h <;> exact LocalMove.heap rfl (fun _ => by simp) (fun _ => by simp) b
  case clear.free bi =>
    split at h
    · cases h; exact LocalMove.fault
    rename_i bk hb
    split at h <;> cases h
    · exact LocalMove.heap rfl (fun _ => rfl) (fun _ => rfl) b
    · exact LocalMove.global hb (show _ = (m.setBucket bi { bk with items := none }).buckets by
        simp [Map.setBucket, foldl_destroyItem_buckets]) (LocalMove.of_same rfl rfl rfl rfl rfl)
        Settled.clear (by simp) b
  case find.enter | insert.enter | bucketInsert.claimEnter | bucketInsert.publishEnter |
      bucketInsert.catchEnter | erase.enter =>
    exact onBucket_move h (by simp) (fun _ _ hf => ⟨enter_move hf (by simp) (by simp)
      (fun _ => by simp) (by simp), enter_settled hf (by simp) (fun _ => by simp) (by simp)⟩) b
  case bucketInsert.resize | clear.drain =>
    exact onBucket_move h (by simp) (fun _ _ hf => ⟨drain_move hf (by simp) (by simp)
      (fun _ => by simp) (by simp), drain_settled hf (by simp) (fun _ => by simp) (by simp)⟩) b
  all_goals refine onBucket_move h (by simp) (fun bk bk' hf => ?_) b
  all_goals (repeat' split at hf) <;> simp only [Option.some.injEq, Prod.mk.injEq, reduceCtorEq] at hf
  all_goals obtain ⟨rfl, rfl⟩ := hf
  all_goals refine ⟨?_, by simp⟩
  all_goals first
    | exact LocalMove.fault
    | exact LocalMove.of_same rfl rfl rfl (by simp) (by simp)
    | exact LocalMove.leave (by simp) (by simp) (by simp) (by simp)
    | exact LocalMove.unlock (by simp) (by simp) (by simp)
    | exact LocalMove.of_same (bucketFindStep_next ‹_›).1 (bucketFindStep_next ‹_›).2.1
        (bucketFindStep_next ‹_›).2.2 (by simp) (by simp)

/-- The first step of any call but `reserve` touches no bucket. -/
theorem callStep_move {m : Map K V} {call : Call K V} (hr : ∀ n, call ≠ .reserve n) (b : Nat) :
    LocalMove .idle b (m.bucketD b) ((callStep tr m call).1.bucketD b) (callStep tr m call).2 := by
  cases call
  case reserve n => exact absurd rfl (hr n)
  all_goals simp only [callStep]; repeat' split
  all_goals exact LocalMove.heap rfl (fun _ => by simp) (fun _ => by simp) b

@[simp] theorem Thread.after_pc (th : Thread K V) (calls : List (Call K V)) (n : Next K V) :
    (th.after calls n).pc = th.pc.after n := by
  cases n <;> rfl

@[simp] theorem Thread.after_calls (th : Thread K V) (calls : List (Call K V)) (n : Next K V) :
    (th.after calls n).calls = calls := by
  cases n <;> rfl

/-- A thread's step that starts no `reserve` moves every bucket as its standing says. -/
theorem threadStep_move {c : Bool} {m m' : Map K V} {th th' : Thread K V}
    (h : threadStep tr c m th = some (m', th'))
    (hr : ∀ n rest, th.pc = .idle → th.calls ≠ .reserve n :: rest) (b : Nat) :
    BucketMove (m.bucketD b) (m'.bucketD b) (th.pc.counted b) (th'.pc.counted b)
      (th.pc.holds b) (th'.pc.holds b) := by
  unfold threadStep at h
  split at h
  · cases h
  · rename_i call rest hpc hcalls
    simp only [Option.some.injEq, Prod.mk.injEq] at h
    obtain ⟨rfl, rfl⟩ := h
    have hm := @callStep_move K V tr m call (fun n hn => hr n rest hpc (by rw [hcalls, hn])) b
    simpa [LocalMove, hpc] using hm
  · obtain ⟨⟨m₁, n⟩, hs, he⟩ := Option.map_eq_some'.mp h
    cases he
    simpa [LocalMove] using pcStep_move hs b

/-! ## Every step keeps the counters honest -/

/-- Thread `t` of `s` does not stand at the start of a `reserve` call. -/
def NotReserving (s : Sys K V) (t : Nat) : Prop :=
  ∀ th, s.threads.get? t = some th → ∀ n rest, th.pc = .idle → th.calls ≠ .reserve n :: rest

theorem countP_step {l : List (Thread K V)} {t : Nat} {th : Thread K V}
    (hth : l.get? t = some th) (th' : Thread K V) (p : Thread K V → Bool) :
    (l.set t th').countP p = l.countP p - (if p th then 1 else 0) + (if p th' then 1 else 0) ∧
      (if p th then 1 else 0) ≤ l.countP p := by
  have ht : t < l.length := by
    by_contra hc; simp [List.getElem?_eq_none (not_lt.mp hc)] at hth
  have he : l[t] = th := by simpa [ht] using hth
  subst he
  exact ⟨List.countP_set p l t _ ht, List.boole_getElem_le_countP p l t ht⟩

/-- A move by one thread keeps `entered = exited + in flight`, the thread counted in
flight before the move as its `c` says and after it as its `c'` says. -/
theorem BucketMove.counters_balanced {bk bk' : Bucket} {c c' h h' : Bool} {N : Nat}
    (hm : BucketMove bk bk' c c' h h') (hi : bk.entered = bk.exited + N)
    (hle : (if c then 1 else 0) ≤ N) :
    bk'.entered = bk'.exited + (N - (if c then 1 else 0) + (if c' then 1 else 0)) := by
  have := hm.counters
  cases c <;> cases c' <;> simp only [Bool.toNat_true, Bool.toNat_false, ite_true, ite_false,
    Bool.false_eq_true] at this hle ⊢ <;> omega

/-- A move by one thread keeps `resize_lock` set exactly when one thread holds it. -/
theorem BucketMove.lock_balanced {bk bk' : Bucket} {c c' h h' : Bool} {N : Nat}
    (hm : BucketMove bk bk' c c' h h') (hl : bk.resizeLock = true ↔ 0 < N) (hs : N ≤ 1)
    (hle : (if h then 1 else 0) ≤ N) :
    (bk'.resizeLock = true ↔ 0 < N - (if h then 1 else 0) + (if h' then 1 else 0)) ∧
      N - (if h then 1 else 0) + (if h' then 1 else 0) ≤ 1 := by
  cases h <;> cases h' <;> simp only [ite_true, ite_false, Bool.false_eq_true] at hle ⊢
  case false.false => rw [hm.keep rfl]; exact ⟨hl, by omega⟩
  case true.true => rw [hm.keep rfl]; exact ⟨by rw [hl]; omega, by omega⟩
  case false.true =>
    obtain ⟨hfree, htaken⟩ := hm.take rfl rfl
    have : N = 0 := by rw [hfree] at hl; simpa using hl
    simp [htaken, this]
  case true.false => simp [hm.drop rfl rfl]; omega

theorem balanced_step {s s' : Sys K V} {t : Nat} {c : Bool} (hb : Balanced s)
    (h : step tr s t c = some s') (hr : NotReserving s t) : Balanced s' := by
  unfold step at h
  split at h
  · cases h
  rename_i th hth
  obtain ⟨⟨m', th'⟩, hs, he⟩ := Option.map_eq_some'.mp h
  cases he
  have hmove := threadStep_move hs (hr th hth)
  have hc := fun b => countP_step hth th' (·.pc.counted b)
  have hh := fun b => countP_step hth th' (·.pc.holds b)
  have hlock := fun b => (hmove b).lock_balanced (hb.lock b) (hb.single b) (hh b).2
  refine ⟨fun b => ?_, fun b => ?_, fun b => ?_⟩
  · simp only [inflight, (hc b).1]
    exact (hmove b).counters_balanced (hb.counters b) (hc b).2
  · simp only [holders, (hh b).1]; exact (hlock b).1
  · simp only [holders, (hh b).1]; exact (hlock b).2

/-- No thread is counted on or holds any bucket. -/
def Quiet (s : Sys K V) : Prop := ∀ b, inflight s b = 0 ∧ holders s b = 0

/-- Every bucket is at rest: `entered == exited` and `resize_lock` free. -/
def Map.AtRest (m : Map K V) : Prop :=
  ∀ b, (m.bucketD b).entered = (m.bucketD b).exited ∧ (m.bucketD b).resizeLock = false

theorem balanced_of_atRest {s : Sys K V} (hm : s.map.AtRest) (hq : Quiet s) : Balanced s :=
  ⟨fun b => by simp [(hm b).1, (hq b).1], fun b => by simp [(hm b).2, (hq b).2],
    fun b => by simp [(hq b).2]⟩

theorem Balanced.atRest {s : Sys K V} (hb : Balanced s) (hq : Quiet s) : s.map.AtRest :=
  fun b => ⟨by simpa [(hq b).1] using hb.counters b,
    by simpa [(hq b).2] using (hb.lock b).not.mpr (by simp [(hq b).2])⟩

/-- Every bucket of a freshly constructed map is a fresh bucket. -/
@[simp] theorem Map.bucketD_init (n b : Nat) : (Map.init n : Map K V).bucketD b = Bucket.init := by
  simp only [Map.bucketD, Map.bucket?, Map.init, List.get?_eq_getElem?, List.getElem?_replicate]
  repeat' split
  all_goals rfl

theorem Map.atRest_init (n : Nat) : (Map.init n : Map K V).AtRest := fun b => by
  rw [Map.bucketD_init]; exact ⟨rfl, rfl⟩

/-- `_buckets.resize(n)`: the first `n` buckets as they were, fresh ones after them. -/
theorem Map.bucketD_resizeBuckets (m : Map K V) (n b : Nat) (hp : List (Block K V)) :
    ({ m with buckets := m.resizeBuckets n, heap := hp } : Map K V).bucketD b =
      if b < n then m.bucketD b else Bucket.init := by
  simp only [Map.bucketD, Map.bucket?, Map.resizeBuckets, List.get?_eq_getElem?]
  rcases lt_or_ge b (min n m.buckets.length) with h | h
  · rw [List.getElem?_append_left (by simpa using h), List.getElem?_take_of_lt (by omega),
      if_pos (by omega)]
  · rw [List.getElem?_append_right (by simp; omega), List.getElem?_replicate]
    by_cases hn : b < n
    · rw [if_pos (by simp; omega), if_pos hn, List.getElem?_eq_none (by omega)]; rfl
    · rw [if_neg (by simp; omega), if_neg hn]; rfl

/-- So a map at rest stays at rest. -/
theorem Map.atRest_resizeBuckets {m : Map K V} (hm : m.AtRest) (n : Nat) (hp : List (Block K V)) :
    ({ m with buckets := m.resizeBuckets n, heap := hp } : Map K V).AtRest := fun b => by
  rw [Map.bucketD_resizeBuckets]
  split
  · exact hm b
  · exact ⟨rfl, rfl⟩

/-! ## Runs -/

theorem step_eq {s s' : Sys K V} {t : Nat} {c : Bool} (h : step tr s t c = some s') :
    ∃ th th', s.threads.get? t = some th ∧ threadStep tr c s.map th = some (s'.map, th') ∧
      s'.threads = s.threads.set t th' := by
  unfold step at h
  split at h
  · cases h
  · rename_i th hth
    obtain ⟨⟨m', th'⟩, hs, he⟩ := Option.map_eq_some'.mp h
    cases he
    exact ⟨th, th', hth, hs, rfl⟩

theorem threadStep_calls {c : Bool} {m m' : Map K V} {th th' : Thread K V}
    (h : threadStep tr c m th = some (m', th')) : ∀ call ∈ th'.calls, call ∈ th.calls := by
  unfold threadStep at h
  split at h
  · cases h
  · rename_i call rest _ hcalls
    simp only [Option.some.injEq, Prod.mk.injEq] at h
    obtain ⟨-, rfl⟩ := h
    intro x hx
    rw [hcalls]
    exact List.mem_cons_of_mem _ (by simpa using hx)
  · obtain ⟨⟨m₁, n⟩, -, he⟩ := Option.map_eq_some'.mp h
    cases he
    simp

/-- No thread has a `reserve` call left to make. -/
def NoReserve (s : Sys K V) : Prop := ∀ th ∈ s.threads, ∀ n, Call.reserve n ∉ th.calls

theorem NoReserve.step {s s' : Sys K V} {t : Nat} {c : Bool} (hn : NoReserve s)
    (h : step tr s t c = some s') : NoReserve s' := by
  obtain ⟨th, th', hth, hs, he⟩ := step_eq h
  intro x hx n hr
  rw [he] at hx
  rcases List.mem_or_eq_of_mem_set hx with hx | rfl
  · exact hn x hx n hr
  · exact hn th (List.get?_mem hth) n (threadStep_calls hs _ hr)

theorem NoReserve.notReserving {s : Sys K V} (hn : NoReserve s) (t : Nat) : NotReserving s t :=
  fun th hth n rest _ hc => hn th (List.get?_mem hth) n (by simp [hc])

theorem quiet_init (m : Map K V) (calls : List (List (Call K V))) : Quiet (Sys.init m calls) :=
  fun b => by simp [inflight, holders, Sys.init]

/-- A freshly constructed map, whatever threads start on it. -/
theorem balanced_init (n : Nat) (calls : List (List (Call K V))) :
    Balanced (Sys.init (Map.init n) calls : Sys K V) :=
  balanced_of_atRest (Map.atRest_init n) (quiet_init _ calls)

/-- Every step of a run without `reserve` keeps the counters honest. -/
theorem Steps.balanced {s s' : Sys K V} (h : Steps tr s s') (hn : NoReserve s) (hb : Balanced s) :
    Balanced s' := by
  induction h with
  | refl => exact hb
  | step t c hs _ ih => exact ih (hn.step hs) (balanced_step hb hs (hn.notReserving t))

theorem Steps.balanced_of_noReserve {s s' : Sys K V} (h : Steps tr s s') (hn : NoReserve s)
    (hb : Balanced s) : Balanced s' :=
  h.balanced hn hb

/-- Two inserts on a fresh one-bucket map, both past the `++entered` of their lookup's
`using_`: two threads in flight, `entered` at 2. -/
theorem two_inserts_in_flight_balanced :
    ∃ s, run intTraits (Sys.init (Map.init 1) [[.insert 1 1], [.insert 2 2]])
        [(0, true), (0, true), (1, true), (1, true)] = some s ∧ Balanced s ∧
      (s.map.bucketD 0).entered = 2 := by
  have hr : run intTraits (Sys.init (Map.init 1) [[.insert 1 1], [.insert 2 2]])
      [(0, true), (0, true), (1, true), (1, true)] =
      some ⟨⟨0, [⟨2, 0, false, none⟩], []⟩,
        [⟨[], .insert 1 1 0 0 (.enter .check), []⟩, ⟨[], .insert 2 2 0 0 (.enter .check), []⟩]⟩ := by
    decide
  exact ⟨_, hr, Steps.balanced_of_noReserve (Steps.of_run _ hr) (by simp [NoReserve, Sys.init])
    (balanced_init 1 _), rfl⟩

/-- A single thread between calls leaves every bucket unused. -/
theorem quiet_of_solo_idle {s : Sys K V} {th : Thread K V} (hs : s.threads = [th])
    (hi : th.pc = .idle) : Quiet s := fun b => by
  simp [inflight, holders, hs, hi]

theorem step_length {s s' : Sys K V} {t : Nat} {c : Bool} (h : step tr s t c = some s') :
    s'.threads.length = s.threads.length := by
  obtain ⟨_, _, -, -, he⟩ := step_eq h
  simp [he]

/-- On a single thread every step keeps the counters honest, `reserve` included: it is
made between calls, when nothing is in flight. -/
theorem balanced_step_solo {s s' : Sys K V} {t : Nat} {c : Bool} (hb : Balanced s)
    (h : step tr s t c = some s') (hl : s.threads.length = 1) : Balanced s' := by
  by_cases hr : NotReserving s t
  · exact balanced_step hb h hr
  simp only [NotReserving, not_forall, not_not] at hr
  obtain ⟨th, hth, n, rest, hi, hc⟩ := hr
  obtain ⟨th₀, th', hth₀, hs, he⟩ := step_eq h
  rw [hth] at hth₀; cases hth₀
  obtain ⟨x, hx⟩ : ∃ x, s.threads = [x] := List.length_eq_one.mp hl
  have ht : t = 0 ∧ x = th := by
    rw [hx] at hth; cases t <;> simp_all
  obtain ⟨rfl, rfl⟩ := ht
  have hrest := hb.atRest (quiet_of_solo_idle hx hi)
  simp only [threadStep, hi, hc, Option.some.injEq, Prod.mk.injEq] at hs
  obtain ⟨hm, rfl⟩ := hs
  have hs' : s'.threads = [x.after rest (callStep tr s.map (.reserve n)).2] := by rw [he, hx]; rfl
  refine balanced_of_atRest ?_ (quiet_of_solo_idle hs' ?_)
  · rw [← hm, callStep]
    split
    · exact hrest
    · exact Map.atRest_resizeBuckets hrest n _
  · simp only [callStep]; split <;> rfl

theorem Steps.balanced_of_solo {s s' : Sys K V} (h : Steps tr s s') (hl : s.threads.length = 1)
    (hb : Balanced s) : Balanced s' := by
  induction h with
  | refl => exact hb
  | step t c hs _ ih => exact ih (by rw [step_length hs, hl]) (balanced_step_solo hb hs hl)

/-! ## What the wait misses -/

/-- Inside a `using_` scope on bucket `b`: its constructor has returned and its
destructor's `++exited` has not run. -/
def Pc.inScope (b : Nat) : Pc K V → Bool
  | .find _ _ (.enter _) | .insert _ _ _ _ (.enter _) | .erase _ (.enter _) => false
  | .bucketInsert _ _ _ _ (.claimEnter _) | .bucketInsert _ _ _ _ (.publishEnter ..)
  | .bucketInsert _ _ _ _ (.catchEnter ..) => false
  | .fault _ => false
  | pc => pc.counted b

/-- About to reallocate bucket `b`'s `items` (`resize`) or free it (`clear`). -/
def Pc.rewritesItems (b : Nat) : Pc K V → Bool
  | .bucketInsert _ _ b' _ (.realloc ..) => b' == b
  | .clear b' .free => b' == b
  | _ => false

/-- Some thread is about to reallocate or free bucket `b`'s `items` while another is
inside a scope on `b`. -/
def Sys.rewritesInScope (s : Sys K V) (b : Nat) : Bool :=
  s.threads.any (·.pc.rewritesItems b) && s.threads.any (·.pc.inScope b)

/-- The protection `using_` is there for ("prevent resizes"): from `s₀`, no thread ever
reallocates or frees a bucket's `items` while another is inside a scope on it. -/
def ScopesExcludeResize (tr : Traits K) (s₀ : Sys K V) : Prop :=
  ∀ s b, Steps tr s₀ s → s.rewritesInScope b = false

/-- Three inserts on a fresh one-bucket map.  The first enters its scope; the second
misses, leaves, and in `resize(0)` loads `entered` (3); the third enters, sees
`resize_lock` and backs off with `++exited`, which makes `exited` 3 as well; the
second then loads `exited`, and goes on to `malloc` with the first still inside. -/
def raceSchedule : List (Nat × Bool) :=
  List.replicate 3 (0, true) ++ List.replicate 11 (1, true) ++ List.replicate 4 (2, true) ++
    [(1, true)]

theorem scopes_exclude_resize_fails :
    ¬ ScopesExcludeResize intTraits
      (Sys.init (Map.init 1) [[.insert 1 1], [.insert 2 2], [.insert 3 3]]) := fun h => by
  have hr : (run intTraits (Sys.init (Map.init 1) [[.insert 1 1], [.insert 2 2], [.insert 3 3]])
      raceSchedule).map (·.rewritesInScope 0) = some true := by decide
  obtain ⟨s, hs, he⟩ := Option.map_eq_some'.mp hr
  simp [h s 0 (Steps.of_run _ hs)] at he

end

end ConcurrentUnorderedMap
