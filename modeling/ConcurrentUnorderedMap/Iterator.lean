/-
# `ConcurrentUnorderedMap.Iterator` — what `begin()` and `operator++` visit

`begin()` is `iterator(this)`: `_itb` at the first bucket and `_offset` 0, whatever the
buckets hold.  `operator++` does `++_offset` and moves to offset 0 of the next bucket
once `_offset>=b.count`.  Neither looks at whether a slot is live.  So the walk from
`begin()` to `end()` steps through every slot of every bucket, live or empty, and
through offset 0 of every bucket with no slot at all (`walk_visits_every_slot`).  The
live positions are among them, in the order visited: the walk misses none, but it does
not stop at them alone.

From construction no bucket ever gets a slot (`Steps.unfilled`).  In every state a run
from a freshly constructed map reaches, the walk therefore visits offset 0 of each
bucket in turn, and no position it visits can be dereferenced.  The map has no live
entry, and `begin()` still differs from `end()` as soon as there is a bucket.

**Proved here.**

    inside a bucket, the walk visits each offset left, then goes on
    at offset 0 of the next bucket                                      (`walk_within_bucket`)
    from begin(), the walk visits every slot of every bucket, and
    offset 0 of a bucket with none; the live positions are those of
    them that dereference                                               (`walk_visits_every_slot`)
    in every state reached from construction: the walk visits offset 0
    of each bucket, none of them dereferences, no position is live, and
    begin() != end() exactly when there is a bucket                     (`reachable_walk_misses_entries`)
-/
import ConcurrentUnorderedMap.Construction

namespace ConcurrentUnorderedMap

/-- `begin()`: `iterator(this)`, with `_itb` at `_buckets.begin()` and `_offset` 0. -/
def Iter.begin : Iter := ⟨0, 0⟩

section
variable {K V : Type} {tr : Traits K}

/-- `iterator::operator++`: nothing at `end()`; otherwise `++_offset`, and offset 0 of
the next bucket once `_offset>=b.count`. -/
def Map.increment (m : Map K V) (it : Iter) : Iter :=
  if it.bucket = m.buckets.length then it else it.succ (m.bucketD it.bucket)

/-- `*it`, `_itb->items[_offset]->p.get()`: the pair the slot points at.  It is `none`
where the code reads a null `items`, a slot past the array, or a null pointer. -/
def Map.deref? (m : Map K V) (it : Iter) : Option (K × V) :=
  (m.bucket? it.bucket).bind fun b => (b.slot? it.offset).bind fun sl =>
    sl.ptr.bind fun a => (m.block? a).bind (·.value)

/-- The live positions, in (bucket, offset) order: the slots that point at a value. -/
def Map.livePositions (m : Map K V) : List Iter :=
  (List.range m.buckets.length).flatMap fun b =>
    ((List.range (m.bucketD b).count).filter fun o => (m.deref? ⟨b, o⟩).isSome).map (⟨b, ·⟩)

/-- The positions `for(auto it=begin(); it!=end(); ++it)` visits from `it`, at most
`fuel` of them. -/
def Map.walk (m : Map K V) : Nat → Iter → List Iter
  | 0, _ => []
  | fuel + 1, it => if it = m.endIter then [] else it :: m.walk fuel (m.increment it)

/-- The positions `operator++` stops at in bucket `b`: each of its `count` slots, live or
not, and offset 0 when it has none. -/
def Map.bucketPositions (m : Map K V) (b : Nat) : List Iter :=
  (List.range (max 1 (m.bucketD b).count)).map (⟨b, ·⟩)

/-- Those positions, bucket by bucket. -/
def Map.slotPositions (m : Map K V) : List Iter :=
  (List.range m.buckets.length).flatMap m.bucketPositions

/-- Before `end()`, the walk visits `it` and goes on from `++it`. -/
theorem Map.walk_succ {m : Map K V} {it : Iter} (h : it.bucket < m.buckets.length) (F : Nat) :
    m.walk (F + 1) it = it :: m.walk F (it.succ (m.bucketD it.bucket)) := by
  have hne : it ≠ m.endIter := fun he => by simp [he, Map.endIter] at h
  rw [Map.walk, if_neg hne, Map.increment, if_neg (Nat.ne_of_lt h)]

/-- Within bucket `b`, from offset `o`: the `j + 1` offsets left before the next bucket. -/
theorem walk_within_bucket {m : Map K V} {b : Nat} (hb : b < m.buckets.length) :
    ∀ j o F, o + j + 1 = max 1 (m.bucketD b).count →
      m.walk (j + 1 + F) ⟨b, o⟩ = (List.range' o (j + 1)).map (⟨b, ·⟩) ++ m.walk F ⟨b + 1, 0⟩
  | 0, o, F, h => by
    rw [Nat.zero_add, Nat.add_comm, Map.walk_succ hb]
    dsimp only [Iter.succ]
    rw [if_neg (by omega)]
    rfl
  | j + 1, o, F, h => by
    rw [Nat.add_right_comm, Map.walk_succ hb]
    dsimp only [Iter.succ]
    rw [if_pos (by omega), walk_within_bucket hb j (o + 1) F (by omega), List.range'_succ (n := j + 1)]
    rfl

/-- From offset 0 of bucket `b` on, with `j` buckets left: their positions, in order. -/
theorem walk_from_bucket {m : Map K V} : ∀ j b F, b + j = m.buckets.length →
    m.walk (((List.range' b j).flatMap m.bucketPositions).length + F) ⟨b, 0⟩ =
      (List.range' b j).flatMap m.bucketPositions
  | 0, b, F, hb => by
    cases F <;> simp [Map.walk, Map.endIter, ← hb]
  | j + 1, b, F, hb => by
    have hn : 0 + (max 1 (m.bucketD b).count - 1) + 1 = max 1 (m.bucketD b).count := by omega
    rw [List.range'_succ, List.flatMap_cons, List.length_append, Nat.add_assoc,
      Map.bucketPositions, List.length_map, List.length_range, ← hn, Nat.zero_add,
      walk_within_bucket (by omega) _ 0 _ hn, walk_from_bucket j (b + 1) F (by omega),
      List.range_eq_range']

/-- From `begin()`: every bucket's positions, in order. -/
theorem walk_begin (m : Map K V) (F : Nat) :
    m.walk (m.slotPositions.length + F) Iter.begin = m.slotPositions := by
  rw [Map.slotPositions, List.range_eq_range']
  exact walk_from_bucket _ 0 F (Nat.zero_add _)

/-- With every bucket empty, each bucket has the one position at offset 0. -/
theorem slotPositions_of_counts_zero {m : Map K V} (hm : ∀ b, (m.bucketD b).count = 0) :
    m.slotPositions = (List.range m.buckets.length).map (⟨·, 0⟩) := by
  rw [Map.slotPositions, List.map_eq_flatMap]
  exact List.flatMap_congr fun b _ => by simp only [Map.bucketPositions, hm]; rfl

/-- A position past its bucket's slots does not dereference. -/
theorem deref?_of_count_le {m : Map K V} {it : Iter} (h : (m.bucketD it.bucket).count ≤ it.offset) :
    m.deref? it = none := by
  cases hb : m.bucket? it.bucket with
  | none => simp [Map.deref?, hb]
  | some bk =>
    have hc : bk.count ≤ it.offset := by simpa [Map.bucketD, hb] using h
    have hs : bk.slot? it.offset = none := by
      cases hi : bk.items <;> simp_all [Bucket.slot?, Bucket.count, List.get?_eq_none]
    simp [Map.deref?, hb, hs]

/-- For every map, the walk from `begin()` to `end()` visits, bucket by bucket, every slot
of the bucket, live or not, and offset 0 of a bucket with none.  The live positions are
those of them that dereference, in the order visited. -/
theorem walk_visits_every_slot (m : Map K V) (F : Nat) :
    m.walk (m.slotPositions.length + F) Iter.begin = m.slotPositions ∧
      m.livePositions =
        (m.walk (m.slotPositions.length + F) Iter.begin).filter fun it => (m.deref? it).isSome := by
  refine ⟨walk_begin m F, ?_⟩
  rw [walk_begin, Map.slotPositions, Map.livePositions, List.filter_flatMap]
  refine List.flatMap_congr fun b _ => ?_
  rw [Map.bucketPositions, List.filter_map]
  congr 1
  rcases Nat.eq_zero_or_pos (m.bucketD b).count with hc | hc
  · have hz : m.deref? ⟨b, 0⟩ = none := deref?_of_count_le (by simp [hc])
    rw [hc]
    simp [hz]
  · rw [max_eq_right hc]
    rfl

example : (Map.withSlots 2 : Map Nat Nat).walk 3 Iter.begin = [⟨0, 0⟩, ⟨0, 1⟩] ∧
    (Map.withSlots 2 : Map Nat Nat).livePositions = [] := by
  decide

theorem reachable_walk_misses_entries {n : Nat} {calls : List (List (Call K V))} {s : Sys K V}
    (h : Steps tr (Sys.init (Map.init n) calls) s) (F : Nat) :
    s.map.walk (s.map.buckets.length + F) Iter.begin =
        (List.range s.map.buckets.length).map (⟨·, 0⟩) ∧
      (∀ it ∈ s.map.walk (s.map.buckets.length + F) Iter.begin, s.map.deref? it = none) ∧
      s.map.livePositions = [] ∧ (Iter.begin ≠ s.map.endIter ↔ 0 < s.map.buckets.length) := by
  have hm := (h.unfilled (unfilled_init n calls)).slots
  have hs := slotPositions_of_counts_zero hm
  have hw := walk_begin s.map F
  rw [hs, List.length_map, List.length_range] at hw
  refine ⟨hw, fun it _ => deref?_of_count_le (by simp [hm]), ?_, ?_⟩
  · simp [Map.livePositions, hm]
  · simp [Iter.begin, Map.endIter, Nat.pos_iff_ne_zero, eq_comm]

end

/-- A fresh one-bucket map: `begin()` is `(0, 0)` and differs from `end()`, the walk
visits `(0, 0)`, which does not dereference, and there is no live entry. -/
theorem fresh_map_begin_ne_end :
    (Map.init 1 : Map Nat Nat).walk 1 Iter.begin = [⟨0, 0⟩] ∧
      (Map.init 1 : Map Nat Nat).deref? Iter.begin = none ∧
      (Map.init 1 : Map Nat Nat).livePositions = [] ∧ Iter.begin ≠ (Map.init 1 : Map Nat Nat).endIter := by
  obtain ⟨hw, hd, hl, hb⟩ := reachable_walk_misses_entries
    (Steps.refl _ : Steps intTraits (Sys.init (Map.init 1 : Map Nat Nat) []) _) 0
  exact ⟨hw, hd _ (by rw [hw]; decide), hl, hb.mpr (by decide)⟩

end ConcurrentUnorderedMap
