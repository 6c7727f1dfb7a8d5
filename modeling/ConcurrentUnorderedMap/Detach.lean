/-
# `ConcurrentUnorderedMap.Detach` — who writes a slot's cached hash

A slot's `hash` is written in two places: `item_type::set`, which `bucket_type::insert`
calls on the slot it claimed and still holds, and the `hash=0` of `item_type::detach`,
which runs after `detach`'s move has already emptied and unlocked the slot; `realloc`
and `clear` rebuild or drop the whole array.  The design wants every unlocked slot
coherent: null with hash `0`, or pointing at a value whose key hashes to the slot's
cached hash.

**From construction.**  No bucket ever has a slot, so none is incoherent, no step
writes a hash, and `bucket_type::find` has no slot to return.

**Proved here.**

    from construction every unlocked slot is coherent, no step writes a
    hash, and bucket_type::find returns no slot                              (`fresh_hashes_coherent`)
-/
import ConcurrentUnorderedMap.Construction

namespace ConcurrentUnorderedMap

namespace Bucket

theorem slot?_setSlot (b : Bucket) (j i : Nat) (sl : Slot) :
    (b.setSlot j sl).slot? i = if i = j then (b.slot? j).map fun _ => sl else b.slot? i := by
  cases h : b.items with
  | none => simp [slot?, setSlot, h]
  | some l =>
    simp only [slot?, setSlot, h, Option.map_some', Option.some_bind, List.get?_eq_getElem?,
      List.getElem?_set]
    by_cases hij : i = j
    · subst hij
      by_cases hl : i < l.length
      · simp [hl]
      · simp [hl, List.getElem?_eq_none (Nat.le_of_not_lt hl)]
    · simp [hij, Ne.symm hij]

theorem slot?_setSlot_ne {b : Bucket} {j i : Nat} {sl : Slot} (h : i ≠ j) :
    (b.setSlot j sl).slot? i = b.slot? i := by
  rw [slot?_setSlot, if_neg h]

theorem slot?_of_items {b b' : Bucket} (h : b'.items = b.items) (i : Nat) :
    b'.slot? i = b.slot? i := by
  simp [slot?, h]

end Bucket

section
variable {K V : Type} {tr : Traits K}

/-- The cached hash of slot `i` of bucket `b`, if there is such a slot. -/
def Map.hashAt (m : Map K V) (b i : Nat) : Option Nat := ((m.bucketD b).slot? i).map Slot.hash

/-! ## Coherent slots from construction -/

/-- Every unlocked slot is null with hash `0`, or points at a value whose key hashes to
the slot's hash. -/
def UnlockedCoherent (tr : Traits K) (m : Map K V) : Prop :=
  ∀ bi bk, m.bucket? bi = some bk → ∀ sl ∈ bk.items.getD [], sl.locked = false →
    match sl.ptr with
    | none => sl.hash = 0
    | some a => ∃ bl k x, m.block? a = some bl ∧ bl.value = some (k, x) ∧ sl.hash = tr.hasher k

/-- From construction, whatever the threads call: every unlocked slot is coherent, no
step writes the hash of any slot, and `bucket_type::find` returns no slot; no bucket
ever has a slot. -/
theorem fresh_hashes_coherent {n : Nat} {css : List (List (Call K V))} {s : Sys K V}
    (h : Steps tr (Sys.init (Map.init n) css) s) :
    UnlockedCoherent tr s.map ∧
      (∀ s' t c, step tr s t c = some s' → ∀ b i, s'.map.hashAt b i = s.map.hashAt b i) ∧
      ∀ b hk p i, bucketFindStep hk (s.map.bucketD b) p ≠ .found i := by
  have hu := h.unfilled (unfilled_init n css)
  have hnone : ∀ {s : Sys K V}, Unfilled s → ∀ b i, s.map.hashAt b i = none := fun hu b i => by
    simp [Map.hashAt, Bucket.slot?_eq_none_of_count (hu.slots b)]
  refine ⟨fun bi bk hb sl hsl => ?_, fun s' t c hs b i => ?_,
    fun b hk => (bucketFindStep_of_count_zero (hu.slots b)).2⟩
  · rw [Map.items_of_counts hu.slots bk (List.get?_mem hb)] at hsl
    cases hsl
  · rw [hnone hu, hnone (hu.step hs)]

end

/-- The three threads of `freshRace`. -/
theorem fresh_race_hashes_coherent :
    ∃ s, run intTraits (Sys.init (Map.init 1) freshRace) freshRaceSchedule = some s ∧
      UnlockedCoherent intTraits s.map ∧
      (∀ s' t c, step intTraits s t c = some s' → ∀ b i, s'.map.hashAt b i = s.map.hashAt b i) ∧
      ∀ b hk p i, bucketFindStep hk (s.map.bucketD b) p ≠ .found i :=
  ⟨_, freshRace_run, fresh_hashes_coherent (Steps.of_run _ freshRace_run)⟩

end ConcurrentUnorderedMap
