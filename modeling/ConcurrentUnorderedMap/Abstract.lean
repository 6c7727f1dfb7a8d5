/-
# `ConcurrentUnorderedMap.Abstract` — the map the code stands for

A `concurrent_unordered_map` stands for the pairs its live positions dereference to, in
the order the walk from `begin()` visits them (`Map.contents`): an association list, with
the hash table, its slots' locks and cached hashes, and the buckets' counters all
absent.  A lookup of `k` in it is right when it finds a pair whose key `_key_equal`
takes for `k`, or finds none and no pair held has such a key (`LookupSpec`).

The code keeps the two levels together through `Coherent`, the state every operation is
meant to leave: each bucket at rest, each slot unlocked, null with hash 0 or caching its
key's hash in its key's bucket.  On a coherent map, with a hasher that gives keys
`_key_equal` takes for equal one hash, every answer `find` may give (`FindAnswer`) is
the abstract lookup's, so every result that lookups side by side return is the answer
the abstract map gives.  `erase`, run alone, keeps a map coherent and removes from the
abstract map exactly the pair at its position, and `clear` keeps it coherent and empties
it.  (`insert` leaves the slot it fills locked, `insert_solo`, so it does not keep a map
coherent.)

**From construction** the abstract map stays empty, whatever the threads call: no insert
ever returns `true`, and a `find` returns `end()` at once.  So no entry an insert
reported is lost or brought back; there is none.

**Proved here.**

    on a coherent map, every answer find may give is the abstract lookup's     (`FindAnswer.spec`)
    in every interleaving of lookups on a coherent map, each result is the
    abstract lookup's answer for its key                                       (`Steps.lookups_refine`)
    a map that is a coherent one but for one slot zeroed and blocks no other
    slot points at is coherent, and holds its pairs but the one there          (`Coherent.erased`, `Map.contents_of_deref?`)
    erase(it) alone keeps the map coherent and removes the pair at it          (`erase_refines`)
    clear() alone keeps the map coherent and empties it                        (`clear_refines`)
    from construction no insert returns true, the abstract map is empty, and
    find returns end() at once                                                 (`fresh_map_finds_nothing`)
-/
import ConcurrentUnorderedMap.Lookup

namespace ConcurrentUnorderedMap

/-! ## The abstract map, and what lookups return in it -/

section
variable {K V : Type} (tr : Traits K)

/-- The abstract map a `Map` stands for: the pairs its live positions dereference to, in
the order the walk from `begin()` visits them. -/
def Map.contents (m : Map K V) : List (K × V) := m.livePositions.filterMap m.deref?

/-- The abstract lookup of `k` in what `m` holds: `it` is right when it is `end()` and no
pair held has a key equal to `k`, or when it dereferences to a pair held whose key is
equal to `k`. -/
def LookupSpec (m : Map K V) (k : K) (it : Iter) : Prop :=
  it = m.endIter ∧ (∀ kv ∈ m.contents, tr.keyEqual k kv.1 = false) ∨
    ∃ kv, m.deref? it = some kv ∧ kv ∈ m.contents ∧ tr.keyEqual k kv.1 = true

variable {tr} {m : Map K V}

theorem Map.mem_contents {kv : K × V} :
    kv ∈ m.contents ↔
      ∃ b o, b < m.buckets.length ∧ o < (m.bucketD b).count ∧ m.deref? ⟨b, o⟩ = some kv := by
  simp only [Map.contents, Map.livePositions, List.mem_filterMap, List.mem_flatMap, List.mem_map,
    List.mem_filter, List.mem_range]
  constructor
  · rintro ⟨_, ⟨b, hb, o, ⟨ho, -⟩, rfl⟩, hd⟩
    exact ⟨b, o, hb, ho, hd⟩
  · rintro ⟨b, o, hb, ho, hd⟩
    exact ⟨_, ⟨b, hb, o, ⟨ho, by simp [hd]⟩, rfl⟩, hd⟩

theorem Map.getBucket_eq_some {h bi : Nat} (hg : m.getBucket h = some bi) :
    bi = h % m.buckets.length ∧ bi < m.buckets.length := by
  unfold Map.getBucket at hg
  split at hg
  · cases hg
  · cases hg
    exact ⟨rfl, Nat.mod_lt _ (Nat.pos_of_ne_zero ‹_›)⟩

theorem Map.lt_count_of_hashAt {b i h : Nat} (hh : m.hashAt b i = some h) :
    i < (m.bucketD b).count := by
  obtain ⟨sl, hsl, -⟩ := Option.map_eq_some'.mp hh
  exact Bucket.lt_count_of_slot? hsl

theorem Bucket.mem_of_slot? {b : Bucket} {o : Nat} {sl : Slot} (h : b.slot? o = some sl) :
    sl ∈ b.items.getD [] := by
  cases hb : b.items <;> simp_all [Bucket.slot?]
  exact List.getElem?_mem h

/-- On a coherent map every slot there is, is coherent. -/
theorem Coherent.slot (hc : Coherent tr m) {b o : Nat} {sl : Slot}
    (hsl : (m.bucketD b).slot? o = some sl) : sl.Coherent tr m b := by
  cases hbk : m.bucket? b with
  | none => simp [Map.bucketD, hbk, Bucket.init, Bucket.slot?] at hsl
  | some bk =>
    simp only [Map.bucketD, hbk, Option.getD_some] at hsl
    exact hc.slots b bk hbk sl (Bucket.mem_of_slot? hsl)

/-- On a coherent map a slot's pointer leads to a pair whose key's hash the slot caches
and whose key's bucket the slot is in. -/
theorem Coherent.ptrAt (hc : Coherent tr m) {b o a : Nat} (hp : m.ptrAt b o = some a) :
    ∃ kv, m.deref? ⟨b, o⟩ = some kv ∧ m.hashAt b o = some (tr.hasher kv.1) ∧
      b = tr.hasher kv.1 % m.buckets.length := by
  obtain ⟨sl, hsl, hpa⟩ := Option.bind_eq_some.mp hp
  obtain ⟨-, hco⟩ := hc.slot hsl
  simp only [hpa] at hco
  obtain ⟨bl, k, x, hbl, hv, hh, hb⟩ := hco
  refine ⟨(k, x), ?_, by simp [Map.hashAt, hsl, hh], hb⟩
  rw [Map.deref?_eq, hp, Option.some_bind, hbl, Option.some_bind, hv]

theorem Coherent.deref? (hc : Coherent tr m) {b o : Nat} {kv : K × V}
    (hd : m.deref? ⟨b, o⟩ = some kv) :
    m.hashAt b o = some (tr.hasher kv.1) ∧ b = tr.hasher kv.1 % m.buckets.length := by
  have hd' := hd
  rw [Map.deref?_eq] at hd'
  obtain ⟨bl, hbl, -⟩ := Option.bind_eq_some.mp hd'
  obtain ⟨a, ha, -⟩ := Option.bind_eq_some.mp hbl
  obtain ⟨kv', hkv', hrest⟩ := hc.ptrAt ha
  obtain rfl : kv' = kv := Option.some.inj (hkv'.symm.trans hd)
  exact hrest

section Spec
variable (hc : Coherent tr m) (hsz : m.size = 0 → m.contents = [])
  (hlaw : ∀ k k', tr.keyEqual k k' = true → tr.hasher k = tr.hasher k')
include hc hsz hlaw

/-- On a coherent map whose `_size` is 0 only when it holds nothing, with a hasher that
gives keys `_key_equal` takes for equal one hash, every position `find` may return is the
abstract lookup's answer.  A miss is right because every pair with a key equal to `k`
sits in `k`'s bucket and caches `hasher(k)`, and the scan found no slot that does. -/
theorem FindAnswer.spec {k : K} {it : Iter} (h : FindAnswer tr m k (.iter it)) :
    LookupSpec tr m k it := by
  rcases h with ⟨h0, rfl⟩ | ⟨-, bi, hg, ⟨rfl, hno⟩ | ⟨i, rfl, hfirst, k', hk, heq⟩⟩
  · exact .inl ⟨rfl, by simp [hsz h0]⟩
  · refine .inl ⟨rfl, fun kv hkv => Bool.eq_false_iff.mpr fun hne => ?_⟩
    obtain ⟨b, o, -, ho, hd⟩ := Map.mem_contents.mp hkv
    obtain ⟨hh, hb⟩ := hc.deref? hd
    have hhash := hlaw k kv.1 hne
    obtain rfl : b = bi := hb.trans ((hhash ▸ Map.getBucket_eq_some hg).1.symm)
    exact hno o ho (hh.trans (congrArg some hhash.symm))
  · rw [keyAt_bucketD] at hk
    obtain ⟨kv, hd, rfl⟩ := Option.map_eq_some'.mp hk
    exact .inr ⟨kv, hd, Map.mem_contents.mpr ⟨bi, i, (Map.getBucket_eq_some hg).2,
      Map.lt_count_of_hashAt hfirst.2, hd⟩, heq⟩

end Spec

/-- Lookups side by side implement the abstract lookup.  Start threads that only call
`find` on a map in the state every operation is meant to leave (`Coherent`), with a
bucket, `_size` 0 only when it holds nothing, and a hasher that gives keys `_key_equal`
takes for equal one hash.  Then in every interleaving, each result each thread has
returned is a position, and the abstract lookup's answer for its call's key in what the
map holds. -/
theorem Steps.lookups_refine {css : List (List (Call K V))} {s : Sys K V}
    (hf : ∀ cs ∈ css, ∀ c ∈ cs, ∃ k, c = Call.find k) (hc : Coherent tr m) (hb : m.buckets ≠ [])
    (hsz : m.size = 0 → m.contents = [])
    (hlaw : ∀ k k', tr.keyEqual k k' = true → tr.hasher k = tr.hasher k')
    (h : Steps tr (Sys.init m css) s) :
    ∀ t th, s.threads.get? t = some th → ∃ cs done, css.get? t = some cs ∧ done <+: cs ∧
      List.Forall₂ (fun c r => ∃ k it, c = .find k ∧ r = .iter it ∧ LookupSpec tr m k it)
        done th.log := by
  intro t th ht
  obtain ⟨cs, hcs, hlt⟩ := (h.lookups (lookups_init hf)).threads t th ht
  obtain ⟨done, hp, hdone⟩ := hlt.prefix
  have hv b i a (hpa : m.ptrAt b i = some a) : ((m.block? a).bind Block.value).isSome := by
    obtain ⟨kv, hd, -⟩ := hc.ptrAt hpa
    rw [Map.deref?_eq, hpa, Option.some_bind] at hd
    simp [hd]
  refine ⟨cs, done, hcs, hp, hdone.imp fun c r ⟨k, hck, hans⟩ => ?_⟩
  cases r with
  | iter it => exact ⟨k, it, hck, rfl, hans.spec hc hsz hlaw⟩
  | fault => exact absurd hans (FindAnswer.ne_fault hb hv k)
  | _ => exact hans.elim

end

/-- The two lookups side by side again, on the coherent map holding `5`: `find(5)`
returns the position of the pair `(5, 5)`, and `find(7)` returns `end()`, no key there
being `7`. -/
theorem lookups_refine_interleaved :
    ∃ s, run intTraits (Sys.init (Map.withEntry intTraits 5 5 1) [[.find 5], [.find 7]])
        ((List.replicate 8 [(0, true), (1, true)]).flatten ++ List.replicate 2 (0, true)) = some s ∧
      s.threads.map Thread.log = [[.iter ⟨0, 0⟩], [.iter ⟨1, 0⟩]] ∧
      ∀ t th, s.threads.get? t = some th → ∃ cs done,
        ([[.find 5], [.find 7]] : List (List (Call Nat Nat))).get? t = some cs ∧
        done <+: cs ∧ List.Forall₂ (fun c r => ∃ k it, c = .find k ∧ r = .iter it ∧
          LookupSpec intTraits (Map.withEntry intTraits 5 5 1) k it) done th.log := by
  have hr : run intTraits (Sys.init (Map.withEntry intTraits 5 5 1) [[.find 5], [.find 7]])
      ((List.replicate 8 [(0, true), (1, true)]).flatten ++ List.replicate 2 (0, true)) =
      some ⟨⟨1, [⟨2, 2, false, some [⟨some 0, false, 5⟩, Slot.zero]⟩], [⟨1, some (5, 5), 0, []⟩]⟩,
        [⟨[], .idle, [.iter ⟨0, 0⟩]⟩, ⟨[], .idle, [.iter ⟨1, 0⟩]⟩]⟩ := by
    decide
  exact ⟨_, hr, rfl, Steps.lookups_refine (by simp) (Map.coherent_withEntry 5 5 1) (by decide)
    (fun h => absurd h (by decide)) (fun k k' h => by simpa [intTraits] using h)
    (Steps.of_run _ hr)⟩

/-! ## `erase` and `clear` in the abstract map -/

section
variable {K V : Type} {tr : Traits K} {m m' : Map K V} {it : Iter}

theorem Bucket.slot?_of_mem {b : Bucket} {sl : Slot} (h : sl ∈ b.items.getD []) :
    ∃ o, b.slot? o = some sl := by
  cases hb : b.items with
  | none => simp [hb] at h
  | some l =>
    obtain ⟨o, ho⟩ := List.mem_iff_getElem?.mp (by simpa [hb] using h)
    exact ⟨o, by simp [Bucket.slot?, hb, ho]⟩

/-- A map is coherent when its buckets are at rest and every slot there is coherent. -/
theorem Coherent.of_slots (hr : m.AtRest)
    (hs : ∀ b o sl, (m.bucketD b).slot? o = some sl → sl.Coherent tr m b) : Coherent tr m :=
  ⟨hr, fun b bk hbk sl hsl => by
    obtain ⟨o, ho⟩ := Bucket.slot?_of_mem hsl
    exact hs b o sl (by simpa [Map.bucketD, hbk] using ho)⟩

/-- A coherent slot stays coherent in a map with as many buckets and the same block at
its pointer. -/
theorem Slot.Coherent.transfer {b : Nat} {sl : Slot} (h : sl.Coherent tr m b)
    (hl : m'.buckets.length = m.buckets.length)
    (hblk : ∀ a, sl.ptr = some a → m'.block? a = m.block? a) : sl.Coherent tr m' b := by
  obtain ⟨hlk, hco⟩ := h
  refine ⟨hlk, ?_⟩
  cases hp : sl.ptr with
  | none => simpa [hp] using hco
  | some a =>
    simp only [hp] at hco ⊢
    obtain ⟨bl, k, x, hbl, hv, hh, hb⟩ := hco
    exact ⟨bl, k, x, (hblk a hp).trans hbl, hv, hh, hl ▸ hb⟩

/-- A map with the buckets and counts of `m`, whose positions dereference as `m`'s do
except those `E` picks, which dereference to nothing, holds `m`'s pairs but the ones
there. -/
theorem Map.contents_of_erased (E : Iter → Bool) (hl : m'.buckets.length = m.buckets.length)
    (hcount : ∀ b, (m'.bucketD b).count = (m.bucketD b).count)
    (hd : ∀ p, m'.deref? p = if E p then none else m.deref? p) :
    m'.contents = (m.livePositions.filter fun p => !E p).filterMap m.deref? := by
  have hlive : m'.livePositions = m.livePositions.filter fun p => !E p := by
    simp only [Map.livePositions, hl, hcount, List.filter_flatMap, List.filter_map,
      List.filter_filter]
    refine List.flatMap_congr fun b _ => congrArg _ (List.filter_congr fun o _ => ?_)
    rw [hd]
    split <;> simp_all
  rw [Map.contents, hlive]
  exact List.filterMap_congr fun p hp => by
    rw [hd, if_neg (by simpa using (List.mem_filter.mp hp).2)]

/-- The same with one position `it`. -/
theorem Map.contents_of_deref? (hl : m'.buckets.length = m.buckets.length)
    (hcount : ∀ b, (m'.bucketD b).count = (m.bucketD b).count)
    (hd : ∀ p, m'.deref? p = if p = it then none else m.deref? p) :
    m'.contents = (m.livePositions.filter (· ≠ it)).filterMap m.deref? := by
  simpa using Map.contents_of_erased (fun p => decide (p = it)) hl hcount fun p => by simp [hd]

/-- A map that is a coherent `m` but for the slots at the positions `E` picks, now
`Slot.zero`, for its buckets' counters, still at rest, and for blocks no other slot
points at, is coherent, and dereferences as `m` does except at those positions. -/
theorem Coherent.erasedAt (hc : Coherent tr m) (E : Iter → Bool) (hr : m'.AtRest)
    (hl : m'.buckets.length = m.buckets.length)
    (hs : ∀ b o, (m'.bucketD b).slot? o = if E ⟨b, o⟩ then
      ((m.bucketD b).slot? o).map (fun _ => Slot.zero) else (m.bucketD b).slot? o)
    (hblk : ∀ b o a, E ⟨b, o⟩ = false → m.ptrAt b o = some a → m'.block? a = m.block? a) :
    Coherent tr m' ∧ ∀ p, m'.deref? p = if E p then none else m.deref? p := by
  refine ⟨Coherent.of_slots hr fun b o sl hsl => ?_, fun ⟨b, o⟩ => ?_⟩
  · rw [hs] at hsl
    split at hsl
    · obtain ⟨_, -, rfl⟩ := Option.map_eq_some'.mp hsl
      exact ⟨rfl, rfl⟩
    · exact (hc.slot hsl).transfer hl fun a hp =>
        hblk b o a (Bool.eq_false_iff.mpr ‹_›) (by simp [Map.ptrAt, hsl, hp])
  · rw [Map.deref?_eq, Map.deref?_eq, Map.ptrAt, Map.ptrAt, hs]
    cases h : E ⟨b, o⟩
    · simp only [Bool.false_eq_true, if_false]
      cases hp : ((m.bucketD b).slot? o).bind Slot.ptr with
      | none => rfl
      | some a => simp [hblk b o a h (by simpa [Map.ptrAt] using hp)]
    · simp only [if_true]
      cases (m.bucketD b).slot? o <;> rfl

/-- The same with one position `it`. -/
theorem Coherent.erased (hc : Coherent tr m) (hr : m'.AtRest)
    (hl : m'.buckets.length = m.buckets.length)
    (hs : ∀ b o, (m'.bucketD b).slot? o = if (⟨b, o⟩ : Iter) = it then
      ((m.bucketD b).slot? o).map (fun _ => Slot.zero) else (m.bucketD b).slot? o)
    (hblk : ∀ b o a, (⟨b, o⟩ : Iter) ≠ it → m.ptrAt b o = some a → m'.block? a = m.block? a) :
    Coherent tr m' ∧ ∀ p, m'.deref? p = if p = it then none else m.deref? p := by
  simpa using hc.erasedAt (fun p => decide (p = it)) hr hl (fun b o => by simp [hs b o])
    fun b o a h => hblk b o a (by simpa using h)

/-- `erase(it)` alone, on a coherent map where no two slots point at one block, at a
position that has a slot: it returns `++it`, leaves the map coherent, and the map then
holds the pairs it held but the one at `it`. -/
theorem erase_refines (hc : Coherent tr m)
    (hu : ∀ b i b' i' a, m.ptrAt b i = some a → m.ptrAt b' i' = some a → b = b' ∧ i = i')
    (hb : it.bucket < m.buckets.length) (ho : it.offset < (m.bucketD it.bucket).count) :
    ∃ n s, run tr (Sys.init m [[.erase it]]) (List.replicate n (0, true)) = some s ∧
      s.threads = [⟨[], .idle, [.iter (m.increment it)]⟩] ∧ Coherent tr s.map ∧
      s.map.contents = (m.livePositions.filter (· ≠ it)).filterMap m.deref? := by
  obtain ⟨bi, off⟩ := it
  dsimp only at hb ho ⊢
  obtain ⟨bk, hbk⟩ : ∃ bk, m.bucket? bi = some bk :=
    ⟨_, by rw [Map.bucket?, List.get?_eq_getElem?]; exact List.getElem?_eq_getElem hb⟩
  have hbD : m.bucketD bi = bk := by simp [Map.bucketD, hbk]
  obtain ⟨sl, hsl⟩ := Bucket.slot?_of_lt_count (hbD ▸ ho)
  obtain ⟨hlk, hco⟩ := hc.slot (show (m.bucketD bi).slot? off = some sl by rw [hbD]; exact hsl)
  obtain ⟨he, hl⟩ : bk.entered = bk.exited ∧ bk.resizeLock = false := hbD ▸ hc.atRest bi
  have hinc : m.increment ⟨bi, off⟩ = Iter.succ ⟨bi, off⟩ bk := by
    simp [Map.increment, Nat.ne_of_lt hb, hbD]
  obtain ⟨h8, h10⟩ := @erase_run K V tr m bk ⟨bi, off⟩ sl [] [] hbk hl hsl hlk
  rw [Sys.init_solo]
  obtain ⟨bk₁, hbk₁⟩ : ∃ bk₁ : Bucket,
      bk₁ = ({ bk with entered := bk.entered + 1, exited := bk.exited + 1 } : Bucket).setSlot off Slot.zero :=
    ⟨_, rfl⟩
  -- every map with the buckets of `m` but the slot at `it` zeroed, and the blocks no other
  -- slot points at as they were
  have key : ∀ m' : Map K V, m'.buckets = (m.setBucket bi bk₁).buckets →
      (∀ b o a, (⟨b, o⟩ : Iter) ≠ ⟨bi, off⟩ → m.ptrAt b o = some a → m'.block? a = m.block? a) →
      Coherent tr m' ∧ m'.contents = (m.livePositions.filter (· ≠ ⟨bi, off⟩)).filterMap m.deref? := by
    intro m' hbs hblk
    have hD : ∀ b, m'.bucketD b = if b = bi then bk₁ else m.bucketD b := fun b => by
      rw [← Map.bucketD_setBucket hbk]
      simp [Map.bucketD, Map.bucket?, hbs]
    have hl' : m'.buckets.length = m.buckets.length := by simp [hbs, Map.setBucket]
    have hcount : ∀ b, (m'.bucketD b).count = (m.bucketD b).count := fun b => by
      rw [hD]; split
      · rename_i h; rw [h, hbD, hbk₁, Bucket.count_setSlot]; rfl
      · rfl
    have hr : m'.AtRest := fun b => by
      rw [hD]; split
      · rw [hbk₁]; simp [he, hl]
      · exact hc.atRest b
    have hs : ∀ b o, (m'.bucketD b).slot? o = if (⟨b, o⟩ : Iter) = ⟨bi, off⟩ then
        ((m.bucketD b).slot? o).map (fun _ => Slot.zero) else (m.bucketD b).slot? o := fun b o => by
      simp only [hD, Iter.mk.injEq]
      by_cases hb' : b = bi
      · subst hb'
        rw [if_pos rfl, hbD, hbk₁, Bucket.slot?_setSlot]
        by_cases ho' : o = off
        · subst ho'; simp [Bucket.slot?]
        · simp [ho', Bucket.slot?]
      · simp [hb']
    obtain ⟨hc', hd⟩ := hc.erased hr hl' hs hblk
    exact ⟨hc', Map.contents_of_deref? hl' hcount hd⟩
  cases hp : sl.ptr with
  | none =>
    have hz : sl = Slot.zero := by
      simp only [hp] at hco
      obtain ⟨p, lk, hh⟩ := sl
      dsimp only at hp hlk hco
      subst hp hlk hco
      rfl
    have hbk₁' : bk₁ = ({ bk with entered := bk.entered + 1, exited := bk.exited + 1 } : Bucket) :=
      hbk₁.trans (Bucket.setSlot_self (by rw [← hz]; exact hsl))
    exact ⟨8, _, h8 hp, by simp [hinc], key _ (by rw [hbk₁']) fun _ _ _ _ _ => rfl⟩
  | some a =>
    simp only [hp] at hco
    obtain ⟨bl, k, x, hbl, -, -, -⟩ := hco
    have hpa : m.ptrAt bi off = some a := by simp [Map.ptrAt, hbD, hsl, hp]
    refine ⟨10, _, h10 a bl hp hbl, by simp [hinc], key _ (by rw [hbk₁]; rfl) fun b o a' hne hp' => ?_⟩
    have ha : a' ≠ a := fun h => hne (by
      obtain ⟨rfl, rfl⟩ := hu b o bi off a (h ▸ hp') hpa
      rfl)
    rw [Map.block?_setBlock, if_neg ha]
    rfl

/-- `erase(⟨0, 0⟩)` on the one-bucket map holding `5 ↦ 5` at slot 0: the map held
`(5, 5)`, and after the erase it is coherent and holds nothing. -/
theorem erase_refines_withEntry :
    (Map.withEntry intTraits 5 5 1 : Map Nat Nat).contents = [(5, 5)] ∧
      ∃ n s, run intTraits (Sys.init (Map.withEntry intTraits 5 5 1) [[.erase ⟨0, 0⟩]])
          (List.replicate n (0, true)) = some s ∧
        s.threads = [⟨[], .idle, [.iter ⟨0, 1⟩]⟩] ∧ Coherent intTraits s.map ∧ s.map.contents = [] := by
  obtain ⟨n, s, hr, ht, hc, hs⟩ := @erase_refines _ _ intTraits _ ⟨0, 0⟩ (Map.coherent_withEntry 5 5 1)
    (Sys.owned_withEntry intTraits 5 5 1 [[.erase ⟨0, 0⟩]]).unique (by decide) (by decide)
  exact ⟨by decide, n, s, hr, ht.trans rfl, hc, hs.trans (by decide)⟩

/-- `clear()` alone on a coherent map: after `5 · n + 2` steps it has returned, and the
map is coherent, with `_size` 0, and holds nothing. -/
theorem clear_refines (hc : Coherent tr m) :
    ∃ s, run tr (Sys.init m [[.clear]]) (List.replicate (5 * m.buckets.length + 2) (0, true)) =
        some s ∧
      s.threads = [⟨[], .idle, [.unit]⟩] ∧ Coherent tr s.map ∧ s.map.size = 0 ∧ s.map.contents = [] := by
  rw [Sys.init_solo]
  have hD : ∀ b, (⟨0, m.buckets.map fun b => { b with items := none },
      (m.slots.foldl (destroyItem tr) m).heap⟩ : Map K V).bucketD b = { m.bucketD b with items := none } :=
    fun b => by
      simp only [Map.bucketD, Map.bucket?, List.get?_eq_getElem?, List.getElem?_map]
      cases m.buckets[b]? <;> rfl
  refine ⟨_, clear_run hc.atRest, rfl, ?_, rfl, ?_⟩
  · exact Coherent.of_slots (fun b => by rw [hD]; exact hc.atRest b)
      fun b o sl hsl => by simp [hD, Bucket.slot?] at hsl
  · exact List.eq_nil_iff_forall_not_mem.mpr fun kv hkv => by
      obtain ⟨b, o, -, ho, -⟩ := Map.mem_contents.mp hkv
      simp [hD, Bucket.count] at ho

/-- `clear()` on the one-bucket map holding `5 ↦ 5`: seven steps, and the map is coherent
and holds nothing. -/
theorem clear_refines_withEntry :
    (Map.withEntry intTraits 5 5 1 : Map Nat Nat).contents = [(5, 5)] ∧
      ∃ s, run intTraits (Sys.init (Map.withEntry intTraits 5 5 1) [[.clear]])
          (List.replicate 7 (0, true)) = some s ∧
        s.threads = [⟨[], .idle, [.unit]⟩] ∧ Coherent intTraits s.map ∧ s.map.size = 0 ∧
          s.map.contents = [] :=
  ⟨by decide, clear_refines (Map.coherent_withEntry 5 5 1)⟩

end

/-! ## From construction -/

section
variable {K V : Type} {tr : Traits K}

/-- From construction, whatever the threads call: no insert has returned `true`, the
abstract map is empty, and a `find` started now returns `end()` at once.  So every key
whose insert returned `true` and was not erased is found (there is none), and no erased
entry is found. -/
theorem fresh_map_finds_nothing {n : Nat} {css : List (List (Call K V))} {s : Sys K V}
    (h : Steps tr (Sys.init (Map.init n) css) s) :
    (∀ th ∈ s.threads, ∀ it, Ret.pair it true ∉ th.log) ∧ s.map.contents = [] ∧
      ∀ k, callStep tr s.map (.find k) = (s.map, .ret (.iter s.map.endIter)) := by
  have hu := h.unfilled (unfilled_init n css)
  exact ⟨hu.logs, by simp [Map.contents, Map.livePositions, hu.slots],
    fun k => by simp [callStep, hu.size]⟩

end

/-- The three threads of `freshRace`: two inserts, a lookup and an erase. -/
theorem fresh_race_finds_nothing :
    ∃ s, run intTraits (Sys.init (Map.init 1) freshRace) freshRaceSchedule = some s ∧
      (∀ th ∈ s.threads, ∀ it, Ret.pair it true ∉ th.log) ∧ s.map.contents = [] ∧
      ∀ k, callStep intTraits s.map (.find k) = (s.map, .ret (.iter s.map.endIter)) :=
  ⟨_, freshRace_run, fresh_map_finds_nothing (Steps.of_run _ freshRace_run)⟩

end ConcurrentUnorderedMap
