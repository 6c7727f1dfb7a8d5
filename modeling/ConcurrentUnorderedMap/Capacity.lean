/-
# `ConcurrentUnorderedMap.Capacity` — a bucket's slot count, and why nothing is stored

`count` is the length of a bucket's slot array.  Two steps change it: the `realloc`
of `resize`, which sets it to the `newsize` its caller computed, and `clear`, which
frees the array.  `_size` changes only where an insert returns `second == true`, and
at the end of `clear`.

**Why nothing is stored.**  A fresh bucket has `count == 0`, and `bucket_type::insert`
grows a bucket with no free slot to `count + count/2`, which is `0` again: the claim
finds no slot, `resize(0)` succeeds or throws `bad_alloc`, and the loop goes round
again.  `Unfilled` (every bucket without slots, `_size == 0`, no thread past a claim,
no insert returned `true`) holds of a freshly constructed map, and every step keeps it
whatever the threads do, `reserve` included.

**Proved here.**

    a step changes count only by a realloc (to newsize) or in clear (to 0)    (`pcStep_count_cases`)
    a step changes _size only with a true return, or in clear                 (`pcStep_size`)
    Unfilled holds from construction and every step keeps it                  (`Unfilled.step`, `Steps.unfilled`)
    from construction, _size stays 0 and no insert returns true              (`fresh_map_never_inserts`)
-/
import ConcurrentUnorderedMap.Scope

namespace ConcurrentUnorderedMap

/-! ## What a step does to `count` -/

namespace Bucket

theorem count_eq_of_items {b b' : Bucket} (h : b'.items = b.items) : b'.count = b.count := by
  simp [count, h]

@[simp] theorem count_setSlot (b : Bucket) (i : Nat) (sl : Slot) :
    (b.setSlot i sl).count = b.count := by
  cases h : b.items <;> simp [count, setSlot, h]

@[simp] theorem count_leave (b : Bucket) : b.leave.count = b.count := rfl

@[simp] theorem length_resized (b : Bucket) (n : Nat) : (b.resized n).length = n := by
  simp only [resized, count, List.length_append, List.length_take, List.length_replicate]
  omega

theorem slot?_eq_none_of_count {b : Bucket} (h : b.count = 0) (i : Nat) : b.slot? i = none := by
  cases hb : b.items <;> simp_all [count, slot?]

end Bucket

section
variable {K V : Type} {tr : Traits K}

theorem usingStep_items {b b' : Bucket} {e : Entry} {e' : Option Entry}
    (h : usingStep b e = some (b', e')) : b'.items = b.items := by
  cases e <;> simp only [usingStep] at h <;> (try split at h) <;> cases h <;> rfl

theorem drainStep_items {c : Bool} {b b' : Bucket} {d : Drain} {d' : Option Drain}
    (h : drainStep c b d = some (b', d')) : b'.items = b.items := by
  cases d <;> simp only [drainStep] at h <;> (try split at h) <;> cases h <;> rfl

theorem bucketFindStep_count {h : Nat} {b b' : Bucket} {p p' : Probe} {r : Option Nat}
    (hs : bucketFindStep h b p = .next b' p' r) : b'.count = b.count := by
  cases p <;> simp only [bucketFindStep] at hs <;> repeat' (first | split at hs | cases hs)
  all_goals simp

/-- `using_`'s constructor inside a function: it leaves `items` alone, and goes on in
the constructor or past it. -/
theorem enter_eq {b b' : Bucket} {e : Entry} {stay : Entry → Pc K V} {done : Pc K V}
    {n : Next K V} (h : enter b e stay done = some (b', n)) :
    b'.items = b.items ∧ ((∃ e', n = .go (stay e')) ∨ n = .go done) := by
  unfold enter at h
  obtain ⟨⟨b₁, e'⟩, hu, he⟩ := Option.map_eq_some'.mp h
  cases he
  exact ⟨usingStep_items hu, by cases e' <;> simp⟩

/-- The head of `resize` and `clear` inside a function, likewise. -/
theorem drain_eq {c : Bool} {b b' : Bucket} {d : Drain} {stay : Drain → Pc K V}
    {done : Pc K V} {n : Next K V} (h : drain c b d stay done = some (b', n)) :
    b'.items = b.items ∧ ((∃ d', n = .go (stay d')) ∨ n = .go done) := by
  unfold drain at h
  obtain ⟨⟨b₁, d'⟩, hu, he⟩ := Option.map_eq_some'.mp h
  cases he
  exact ⟨drainStep_items hu, by cases d' <;> simp⟩

/-- A step on `_buckets[bi]` changes that bucket only, to what its body made of it. -/
theorem onBucket_bucketD {m m' : Map K V} {bi : Nat} {f : Bucket → Option (Bucket × Next K V)}
    {n : Next K V} (h : onBucket m bi f = some (m', n)) (b : Nat) :
    m'.bucketD b = m.bucketD b ∨
      ∃ bk', b = bi ∧ f (m.bucketD b) = some (bk', n) ∧ m'.bucketD b = bk' := by
  rcases onBucket_eq h with ⟨rfl, -⟩ | ⟨bk, bk', hb, hfb, rfl⟩
  · exact .inl rfl
  rw [Map.bucketD_setBucket hb]
  split
  · subst_vars; exact .inr ⟨bk', rfl, by simp [Map.bucketD, hb, hfb], rfl⟩
  · exact .inl rfl

/-- And it leaves the allocator and `_size` alone. -/
theorem onBucket_heap {m m' : Map K V} {bi : Nat} {f : Bucket → Option (Bucket × Next K V)}
    {n : Next K V} (h : onBucket m bi f = some (m', n)) : m'.heap = m.heap ∧ m'.size = m.size := by
  rcases onBucket_eq h with ⟨rfl, -⟩ | ⟨bk, bk', -, -, rfl⟩ <;> exact ⟨rfl, rfl⟩

theorem onBucket_counts {m m' : Map K V} {bi : Nat} {f : Bucket → Option (Bucket × Next K V)}
    {n : Next K V} (h : onBucket m bi f = some (m', n))
    (hf : ∀ bk bk' n, f bk = some (bk', n) → bk'.count = bk.count) (b : Nat) :
    (m'.bucketD b).count = (m.bucketD b).count := by
  rcases onBucket_bucketD h b with he | ⟨bk', -, hfb, he⟩
  · rw [he]
  · rw [he, hf _ _ _ hfb]

/-- Every control but a `resize`'s `realloc` and `clear`'s `free`. -/
def Pc.keepsCount : Pc K V → Prop
  | .bucketInsert _ _ _ _ (.realloc ..) | .clear _ .free => False
  | _ => True

/-- Every other step keeps every bucket's slot count. -/
theorem pcStep_counts {c : Bool} {m m' : Map K V} {pc : Pc K V} {n : Next K V}
    (h : pcStep tr c m pc = some (m', n)) (hk : pc.keepsCount) (b : Nat) :
    (m'.bucketD b).count = (m.bucketD b).count := by
  cases pc
  case idle | fault => cases h
  case clearSize => cases h; rfl
  all_goals rename_i st; cases st
  case bucketInsert.realloc | clear.free => exact (hk : False).elim
  all_goals simp only [pcStep, findStep, insertStep, bucketInsertStep, eraseStep, clearStep] at h
  case insert.count | bucketInsert.allocate | bucketInsert.construct | bucketInsert.catchFree |
      erase.destroy | erase.free =>
    (repeat' split at h) <;> cases h <;> rfl
  case find.enter | insert.enter | bucketInsert.claimEnter | bucketInsert.publishEnter |
      bucketInsert.catchEnter | erase.enter =>
    exact onBucket_counts h (fun _ _ _ hf => Bucket.count_eq_of_items (enter_eq hf).1) b
  case bucketInsert.resize | clear.drain =>
    exact onBucket_counts h (fun _ _ _ hf => Bucket.count_eq_of_items (drain_eq hf).1) b
  all_goals refine onBucket_counts h (fun bk bk' n hf => ?_) b
  all_goals (repeat' split at hf) <;> cases hf <;> first | rfl | exact bucketFindStep_count ‹_› | simp

theorem foldl_destroyItem_eq (l : List Slot) (m : Map K V) :
    l.foldl (destroyItem tr) m = { m with heap := (l.foldl (destroyItem tr) m).heap } := by
  induction l generalizing m with
  | nil => rfl
  | cons sl l ih =>
    rw [List.foldl_cons, ih]
    unfold destroyItem
    split
    · rfl
    · split <;> rfl

/-- With no block handed out, `item_type::destroy` finds nothing to destroy. -/
theorem destroyItem_of_heap_nil {m : Map K V} (hh : m.heap = []) (sl : Slot) :
    destroyItem tr m sl = m := by
  unfold destroyItem
  split
  · rfl
  · simp [Map.block?, hh]

/-- So the destructors `reserve` runs leave such a map as it is. -/
theorem destroyBuckets_of_heap_nil {m : Map K V} (hh : m.heap = []) (n : Nat) :
    destroyBuckets tr m n = m := by
  unfold destroyBuckets
  exact List.foldl_fixed' (fun b => List.foldl_fixed' (destroyItem_of_heap_nil hh) (b.items.getD [])) _

/-- `resize`'s `realloc` sets the count of its own bucket to `newsize`. -/
theorem realloc_counts {c : Bool} {m m' : Map K V} {k : K} {x : V} {bi hint : Nat}
    {off : Option Nat} {ns : Nat} {n : Next K V}
    (h : bucketInsertStep tr c m k x bi hint (.realloc off ns) = some (m', n)) (b : Nat) :
    (m'.bucketD b).count = (m.bucketD b).count ∨ (b = bi ∧ (m'.bucketD b).count = ns) := by
  simp only [bucketInsertStep] at h
  rcases onBucket_eq h with ⟨rfl, -⟩ | ⟨bk, bk', hb, hf, rfl⟩
  · exact .inl rfl
  rw [Map.bucketD_setBucket hb]
  by_cases hbi : b = bi
  · subst hbi
    split at hf <;> cases hf
    · exact .inr ⟨rfl, by simp [Bucket.count]⟩
    · exact .inl (by simp [Map.bucketD, hb])
  · exact .inl (by rw [if_neg hbi])

/-- `clear` frees the array of its own bucket. -/
theorem clearFree_counts {c : Bool} {m m' : Map K V} {bi : Nat} {n : Next K V}
    (h : clearStep tr c m bi .free = some (m', n)) (b : Nat) :
    (m'.bucketD b).count = (m.bucketD b).count ∨ (b = bi ∧ (m'.bucketD b).count = 0) := by
  simp only [clearStep] at h
  split at h
  · cases h; exact .inl rfl
  rename_i bk hb
  split at h <;> cases h
  · exact .inl rfl
  rename_i l _
  have hF : (l.foldl (destroyItem tr) m).buckets = m.buckets := foldl_destroyItem_buckets l m
  generalize l.foldl (destroyItem tr) m = F at hF
  have hb' : F.bucket? bi = some bk := by rw [Map.bucket?, hF]; exact hb
  rw [Map.bucketD_setBucket hb']
  split
  · exact .inr ⟨‹_›, rfl⟩
  · exact .inl (by simp [Map.bucketD, Map.bucket?, hF])

/-- What a step can do to a bucket's slot count: keep it, set it to the `newsize` of a
`realloc` on that bucket, or make it `0` in `clear` of that bucket. -/
theorem pcStep_count_cases {c : Bool} {m m' : Map K V} {pc : Pc K V} {n : Next K V}
    (h : pcStep tr c m pc = some (m', n)) (b : Nat) :
    (m'.bucketD b).count = (m.bucketD b).count ∨
      (∃ k x hint off, pc = .bucketInsert k x b hint (.realloc off (m'.bucketD b).count)) ∨
      (pc = .clear b .free ∧ (m'.bucketD b).count = 0) := by
  cases pc
  all_goals try exact .inl (pcStep_counts h trivial b)
  case bucketInsert k x bi hint st =>
    cases st
    all_goals try exact .inl (pcStep_counts h trivial b)
    case realloc off ns =>
      rcases realloc_counts (show bucketInsertStep tr c m k x bi hint _ = _ from h) b with hc | ⟨rfl, hc⟩
      · exact .inl hc
      · exact .inr (.inl ⟨k, x, hint, off, by rw [hc]⟩)
  case clear bi st =>
    cases st
    all_goals try exact .inl (pcStep_counts h trivial b)
    rcases clearFree_counts (show clearStep tr c m bi _ = _ from h) b with hc | ⟨rfl, hc⟩
    · exact .inl hc
    · exact .inr (.inr ⟨rfl, hc⟩)

/-! ## What a step does to `_size` -/

/-- A step on a bucket leaves `_size` alone, and returns an insertion only where its
body does. -/
theorem onBucket_size {m m' : Map K V} {bi : Nat} {f : Bucket → Option (Bucket × Next K V)}
    {n : Next K V} (h : onBucket m bi f = some (m', n))
    (hf : ∀ bk bk', f bk = some (bk', n) → ∀ it, n ≠ .ret (.pair it true)) :
    m'.size = m.size ∧ ∀ it, n ≠ .ret (.pair it true) := by
  rcases onBucket_eq h with ⟨rfl, rfl⟩ | ⟨bk, bk', -, hfb, rfl⟩
  · exact ⟨rfl, fun _ h => by cases h⟩
  · exact ⟨rfl, hf bk bk' hfb⟩

/-- What a step can do to `_size`: nothing, and then it returns no insertion; `++_size`
as `insert` returns `true`; or `_size=0` at the end of `clear`. -/
theorem pcStep_size {c : Bool} {m m' : Map K V} {pc : Pc K V} {n : Next K V}
    (h : pcStep tr c m pc = some (m', n)) :
    (m'.size = m.size ∧ ∀ it, n ≠ .ret (.pair it true)) ∨
      (∃ k x bi hint o, pc = .insert k x bi hint (.count o) ∧ m'.size = m.size + 1) ∨
      (pc = .clearSize ∧ m'.size = 0) := by
  cases pc
  case idle | fault => cases h
  case clearSize => cases h; exact .inr (.inr ⟨rfl, rfl⟩)
  all_goals rename_i st; cases st
  case insert.count k x bi hint o => cases h; exact .inr (.inl ⟨k, x, bi, hint, o, rfl, rfl⟩)
  all_goals refine .inl ?_
  all_goals simp only [pcStep, findStep, insertStep, bucketInsertStep, eraseStep, clearStep] at h
  case bucketInsert.allocate | bucketInsert.construct | bucketInsert.catchFree | erase.destroy |
      erase.free | clear.free =>
    (repeat' split at h) <;> cases h <;> (try rw [foldl_destroyItem_eq]) <;> exact ⟨rfl, by simp⟩
  case find.enter | insert.enter | bucketInsert.claimEnter | bucketInsert.publishEnter |
      bucketInsert.catchEnter | erase.enter =>
    exact onBucket_size h fun _ _ hf => by rcases (enter_eq hf).2 with ⟨_, rfl⟩ | rfl <;> simp
  case bucketInsert.resize | clear.drain =>
    exact onBucket_size h fun _ _ hf => by rcases (drain_eq hf).2 with ⟨_, rfl⟩ | rfl <;> simp
  all_goals refine onBucket_size h fun bk bk' hf => ?_
  all_goals (repeat' split at hf) <;> cases hf <;> simp

/-! ## From construction nothing is stored -/

/-- Where `bucket_type::insert` can be while it has claimed no slot and every `resize` it
starts is `resize(0)`. -/
def BInsSt.unclaimed : BInsSt → Prop
  | .claimEnter _ | .claimBegin | .claim .. => True
  | .claimLeave off | .resized off _ => off = none
  | .resize off n _ | .realloc off n => off = none ∧ n = 0
  | _ => False

/-- A control that has claimed no slot: nowhere past a claim in `bucket_type::insert`,
and not at `++_size`. -/
def Pc.unclaimed : Pc K V → Prop
  | .insert _ _ _ _ (.count _) => False
  | .bucketInsert _ _ _ _ st => st.unclaimed
  | _ => True

theorem Map.count_of_bucket? {m : Map K V} {bi : Nat} {bk : Bucket}
    (hm : ∀ b, (m.bucketD b).count = 0) (hb : m.bucket? bi = some bk) : bk.count = 0 := by
  simpa [Map.bucketD, hb] using hm bi

/-- Buckets without slots: every array of the vector is empty. -/
theorem Map.items_of_counts {m : Map K V} (hm : ∀ b, (m.bucketD b).count = 0) :
    ∀ bk ∈ m.buckets, bk.items.getD [] = [] := fun _ hbk =>
  have ⟨_, hi⟩ := List.get?_of_mem hbk
  List.eq_nil_of_length_eq_zero (Map.count_of_bucket? hm hi)

/-- On a bucket without slots, `bucket_type::find` from the start returns `nullptr` at
once, and no step of it returns a slot. -/
theorem bucketFindStep_of_count_zero {h : Nat} {b : Bucket} (hc : b.count = 0) :
    (∀ rec, bucketFindStep h b (.scan 0 b.count rec) = .miss) ∧
      ∀ p i, bucketFindStep h b p ≠ .found i := by
  refine ⟨fun rec => by simp [bucketFindStep, hc], fun p i => ?_⟩
  cases p <;> simp only [bucketFindStep, Bucket.slot?_eq_none_of_count hc] <;> (try split_ifs) <;> simp

/-- On buckets without slots, a control that has claimed nothing goes on to one that has
claimed nothing: the claim reads no slot, and `count + count/2` is `0`. -/
theorem pcStep_unclaimed {c : Bool} {m m' : Map K V} {pc pc' : Pc K V}
    (hm : ∀ b, (m.bucketD b).count = 0) (hp : pc.unclaimed)
    (h : pcStep tr c m pc = some (m', .go pc')) : pc'.unclaimed := by
  cases pc
  case idle | fault | clearSize => cases h
  all_goals rename_i st; cases st
  all_goals try exact (hp : False).elim
  all_goals simp only [pcStep, findStep, insertStep, bucketInsertStep, eraseStep, clearStep] at h
  case erase.destroy | erase.free | clear.free => (repeat' split at h) <;> cases h <;> trivial
  all_goals rcases onBucket_eq h with ⟨-, h'⟩ | ⟨bk, bk', hb, hf, -⟩
  all_goals try cases h'
  case bucketInsert.claim i stop =>
    rw [Bucket.slot?_eq_none_of_count (Map.count_of_bucket? hm hb)] at hf
    split at hf <;> cases hf
    exact rfl
  case bucketInsert.claimLeave => cases hf; exact ⟨hp, by simp [Map.count_of_bucket? hm hb]⟩
  case bucketInsert.resize => rcases (drain_eq hf).2 with ⟨_, h'⟩ | h' <;> cases h' <;> exact hp
  case bucketInsert.realloc => split at hf <;> cases hf <;> exact hp.1
  case bucketInsert.resized off _ =>
    obtain rfl : off = none := hp
    (repeat' split at hf) <;> cases hf <;> trivial
  case find.enter | insert.enter | bucketInsert.claimEnter | erase.enter =>
    rcases (enter_eq hf).2 with ⟨_, h'⟩ | h' <;> cases h' <;> trivial
  case clear.drain => rcases (drain_eq hf).2 with ⟨_, h'⟩ | h' <;> cases h' <;> trivial
  all_goals (repeat' split at hf) <;> cases hf <;> trivial

/-- The first step of a call on buckets without slots: `reserve` adds fresh buckets, and
no call starts past a claim. -/
theorem callStep_unfilled {m : Map K V} (call : Call K V) (hm : ∀ b, (m.bucketD b).count = 0) :
    (∀ b, ((callStep tr m call).1.bucketD b).count = 0) ∧
      (callStep tr m call).1.size = m.size ∧ (Pc.idle.after (callStep tr m call).2).unclaimed ∧
      ∀ it, (callStep tr m call).2 ≠ .ret (.pair it true) := by
  cases call <;> unfold callStep <;> (repeat' split) <;>
    refine ⟨?_, rfl, trivial, by simp⟩
  all_goals first
    | exact hm
    | (intro b; rw [Map.bucketD_resizeBuckets]; split
       · exact hm b
       · rfl)

/-- What a freshly constructed map keeps: no bucket has a slot, `_size` is `0`, no thread
has claimed a slot, and no insert has returned `true`. -/
structure Unfilled (s : Sys K V) : Prop where
  slots : ∀ b, (s.map.bucketD b).count = 0
  size : s.map.size = 0
  pcs : ∀ th ∈ s.threads, th.pc.unclaimed
  logs : ∀ th ∈ s.threads, ∀ it, Ret.pair it true ∉ th.log

theorem Thread.after_log {th : Thread K V} {calls : List (Call K V)} {n : Next K V}
    (hl : ∀ it, Ret.pair it true ∉ th.log) (hn : ∀ it, n ≠ .ret (.pair it true)) :
    ∀ it, Ret.pair it true ∉ (th.after calls n).log := by
  intro it
  cases n with
  | go _ => exact hl it
  | ret r => simpa [Thread.after, hl it] using fun h => hn it (by rw [h])
  | fault => simpa [Thread.after] using hl it

theorem threadStep_unfilled {c : Bool} {m m' : Map K V} {th th' : Thread K V}
    (hm : ∀ b, (m.bucketD b).count = 0) (hz : m.size = 0) (hp : th.pc.unclaimed)
    (hl : ∀ it, Ret.pair it true ∉ th.log) (h : threadStep tr c m th = some (m', th')) :
    (∀ b, (m'.bucketD b).count = 0) ∧ m'.size = 0 ∧ th'.pc.unclaimed ∧
      ∀ it, Ret.pair it true ∉ th'.log := by
  unfold threadStep at h
  split at h
  · cases h
  · rename_i call rest hi _
    cases h
    obtain ⟨hc, hs, hu, hr⟩ := @callStep_unfilled K V tr m call hm
    exact ⟨hc, hs.trans hz, by rw [Thread.after_pc, hi]; exact hu, Thread.after_log hl hr⟩
  · obtain ⟨⟨m₁, n⟩, hs, he⟩ := Option.map_eq_some'.mp h
    cases he
    refine ⟨fun b => ?_, ?_, ?_, Thread.after_log hl ?_⟩
    · rcases pcStep_count_cases hs b with hc | ⟨k, x, hint, off, hpc⟩ | ⟨-, hc⟩
      · rw [hc, hm b]
      · rw [hpc] at hp; exact (hp : _ ∧ _).2
      · exact hc
    · rcases pcStep_size hs with ⟨hs', -⟩ | ⟨k, x, bi, hint, o, hpc, -⟩ | ⟨-, hs'⟩
      · rw [hs', hz]
      · rw [hpc] at hp; exact (hp : False).elim
      · exact hs'
    · cases n with
      | go pc' => exact pcStep_unclaimed hm hp hs
      | ret _ | fault => trivial
    · rcases pcStep_size hs with ⟨-, hn⟩ | ⟨k, x, bi, hint, o, hpc, -⟩ | ⟨hpc, -⟩
      · exact hn
      · rw [hpc] at hp; exact (hp : False).elim
      · rw [hpc] at hs; cases hs; simp

theorem Unfilled.step {s s' : Sys K V} {t : Nat} {c : Bool} (hu : Unfilled s)
    (h : step tr s t c = some s') : Unfilled s' := by
  obtain ⟨th, th', hth, hs, he⟩ := step_eq h
  have hmem := List.get?_mem hth
  obtain ⟨hc, hz, hp, hl⟩ :=
    threadStep_unfilled hu.slots hu.size (hu.pcs th hmem) (hu.logs th hmem) hs
  refine ⟨hc, hz, fun x hx => ?_, fun x hx => ?_⟩ <;> rw [he] at hx <;>
    rcases List.mem_or_eq_of_mem_set hx with hx | rfl
  · exact hu.pcs x hx
  · exact hp
  · exact hu.logs x hx
  · exact hl

theorem Steps.unfilled {s s' : Sys K V} (h : Steps tr s s') (hu : Unfilled s) : Unfilled s' := by
  induction h with
  | refl => exact hu
  | step _ _ hs _ ih => exact ih (hu.step hs)

theorem unfilled_init (n : Nat) (calls : List (List (Call K V))) :
    Unfilled (Sys.init (Map.init n) calls : Sys K V) where
  slots b := by simp [Sys.init, Bucket.count, Bucket.init]
  size := rfl
  pcs th hth := by
    obtain ⟨cs, -, rfl⟩ := List.mem_map.mp hth; trivial
  logs th hth := by
    obtain ⟨cs, -, rfl⟩ := List.mem_map.mp hth; simp

theorem fresh_map_never_inserts {n : Nat} {calls : List (List (Call K V))} {s : Sys K V}
    (h : Steps tr (Sys.init (Map.init n) calls) s) :
    s.map.size = 0 ∧ ∀ th ∈ s.threads, ∀ it, Ret.pair it true ∉ th.log :=
  have hu := h.unfilled (unfilled_init n calls)
  ⟨hu.size, hu.logs⟩

/-- One insert on a fresh one-bucket map, 24 steps in: twice round the claim-or-grow loop
and back at its start, with nothing stored. -/
theorem fresh_insert_spins :
    ∃ s, run intTraits (Sys.init (Map.init 1) [[Call.insert 5 5]]) (List.replicate 24 (0, true)) =
        some s ∧ s.threads = [⟨[], .bucketInsert 5 5 0 0 (.claimEnter .inc), []⟩] ∧
      (s.map.size = 0 ∧ ∀ th ∈ s.threads, ∀ it, Ret.pair it true ∉ th.log) := by
  have hr : run intTraits (Sys.init (Map.init 1) [[Call.insert 5 5]]) (List.replicate 24 (0, true)) =
      some ⟨⟨0, [⟨3, 3, false, some []⟩], []⟩, [⟨[], .bucketInsert 5 5 0 0 (.claimEnter .inc), []⟩]⟩ := by
    decide
  exact ⟨_, hr, rfl, fresh_map_never_inserts (Steps.of_run _ hr)⟩

end

end ConcurrentUnorderedMap
