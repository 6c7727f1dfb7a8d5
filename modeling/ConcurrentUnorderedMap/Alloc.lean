/-
# `ConcurrentUnorderedMap.Alloc` — what the allocator hands out and gets back

A step touches the allocator's blocks in five places only (`pcStep_block_cases`):
`allocate(1)` appends a block, the value's constructor fills it, `remove` destroys it
and then deallocates it with `sizeof(value_type)`, and `clear` destroys and deallocates
what its bucket points at.

**From construction.**  `allocate(1)` follows a successful claim, and from construction
no claim succeeds.  So no block is ever handed out: every block is accounted for, none
is leaked or freed twice, and there is no stored value for `erase` or `clear` to destroy.
(Were a value constructed, two of the five places would count wrong: the `catch` of
`bucket_type::insert` deallocates the outer `ret`, still `nullptr`, and `remove` gives
a block back with the count `sizeof(value_type)` where `insert` allocated `1`.)

**Proved here.**

    a step changes block a only by allocate, construct, destroy, deallocate
    in remove, or clear                                                  (`pcStep_block_cases`)
    a step that has claimed nothing, on buckets without slots, allocates
    nothing; so from construction the allocator stays empty               (`pcStep_heap_nil`, `Steps.heap_nil`)
    from construction every block is accounted for                        (`fresh_map_allocates_nothing`)
-/
import ConcurrentUnorderedMap.Construction

namespace ConcurrentUnorderedMap

section
variable {K V : Type} {tr : Traits K}

theorem Map.block?_setBlock (m : Map K V) (a a' : Nat) (bl : Block K V) :
    (m.setBlock a' bl).block? a = if a = a' then (m.block? a').map fun _ => bl else m.block? a := by
  simp only [Map.block?, Map.setBlock, List.get?_eq_getElem?, List.getElem?_set]
  by_cases ha : a = a'
  · subst ha
    by_cases hl : a < m.heap.length
    · simp [hl]
    · simp [hl, List.getElem?_eq_none (Nat.le_of_not_lt hl)]
  · simp [ha, Ne.symm ha]

theorem Map.block?_append (m : Map K V) (a : Nat) (bl : Block K V) :
    ({ m with heap := m.heap ++ [bl] } : Map K V).block? a =
      if a = m.heap.length then some bl else m.block? a := by
  simp only [Map.block?, List.get?_eq_getElem?]
  split
  · subst_vars; simp
  · rename_i ha
    rcases lt_or_gt_of_ne ha with hl | hl
    · rw [List.getElem?_append_left hl]
    · rw [List.getElem?_eq_none (by simp; omega), List.getElem?_eq_none (by omega)]

/-- Writing block `a'`, which holds `bl`: block `a` is as it was, or it is `a'` and now
holds what was written. -/
theorem Map.block?_setBlock_cases {m : Map K V} {a' : Nat} {bl : Block K V}
    (hbl : m.block? a' = some bl) (a : Nat) (bl' : Block K V) :
    (m.setBlock a' bl').block? a = m.block? a ∨
      (a = a' ∧ m.block? a = some bl ∧ (m.setBlock a' bl').block? a = some bl') := by
  rw [Map.block?_setBlock]
  split
  · subst_vars; exact .inr ⟨rfl, hbl, by simp [hbl]⟩
  · exact .inl rfl

/-- What a step can do to the allocator's block `a`: nothing; `allocate(1)` appends it;
the constructor fills it; `remove` destroys it, or deallocates it with
`sizeof(value_type)`; or it is `clear`'s pass over a bucket. -/
theorem pcStep_block_cases {c : Bool} {m m' : Map K V} {pc : Pc K V} {n : Next K V}
    (h : pcStep tr c m pc = some (m', n)) (a : Nat) :
    m'.block? a = m.block? a ∨
      (∃ k x bi hint o, pc = .bucketInsert k x bi hint (.allocate o) ∧ a = m.heap.length ∧
        m'.block? a = some ⟨1, none, 0, []⟩) ∨
      (∃ k x bi hint o bl, pc = .bucketInsert k x bi hint (.construct o a) ∧
        m.block? a = some bl ∧ m'.block? a = some { bl with value := some (k, x) }) ∨
      (∃ it bl, pc = .erase it (.destroy a) ∧ m.block? a = some bl ∧
        m'.block? a = some { bl with value := none, destroyed := bl.destroyed + 1 }) ∨
      (∃ it bl, pc = .erase it (.free a) ∧ m.block? a = some bl ∧
        m'.block? a = some { bl with freed := bl.freed ++ [tr.valueSize] }) ∨
      (∃ bi, pc = .clear bi .free) := by
  cases pc
  case idle | fault => cases h
  case clearSize => cases h; exact .inl rfl
  all_goals rename_i st; cases st
  case clear.free bi => exact .inr (.inr (.inr (.inr (.inr ⟨bi, rfl⟩))))
  case bucketInsert.allocate k x bi hint o =>
    simp only [pcStep, bucketInsertStep] at h
    split at h <;> cases h
    · rw [Map.block?_append]
      split
      · exact .inr (.inl ⟨k, x, bi, hint, o, rfl, ‹_›, rfl⟩)
      · exact .inl rfl
    · exact .inl rfl
  case bucketInsert.construct k x bi hint o a' =>
    simp only [pcStep, bucketInsertStep] at h
    split at h
    · cases h; exact .inl rfl
    rename_i bl hbl
    split at h <;> cases h
    · rcases Map.block?_setBlock_cases hbl a _ with he | ⟨rfl, hb, he⟩
      · exact .inl he
      · exact .inr (.inr (.inl ⟨k, x, bi, hint, o, bl, rfl, hb, he⟩))
    · exact .inl rfl
  case erase.destroy it a' =>
    simp only [pcStep, eraseStep] at h
    split at h <;> cases h
    · exact .inl rfl
    rename_i bl hbl
    rcases Map.block?_setBlock_cases hbl a _ with he | ⟨rfl, hb, he⟩
    · exact .inl he
    · exact .inr (.inr (.inr (.inl ⟨it, bl, rfl, hb, he⟩)))
  case erase.free it a' =>
    simp only [pcStep, eraseStep] at h
    split at h <;> cases h
    · exact .inl rfl
    rename_i bl hbl
    rcases Map.block?_setBlock_cases hbl a _ with he | ⟨rfl, hb, he⟩
    · exact .inl he
    · exact .inr (.inr (.inr (.inr (.inl ⟨it, bl, rfl, hb, he⟩))))
  all_goals refine .inl ?_
  case insert.count | bucketInsert.catchFree => cases h; rfl
  all_goals simp only [pcStep, findStep, insertStep, bucketInsertStep, eraseStep, clearStep] at h
  all_goals simp only [Map.block?, (onBucket_heap h).1]

/-! ## Blocks not given back -/

/-- The live slots that point at block `a`. -/
def Map.refs (m : Map K V) (a : Nat) : Nat :=
  (m.buckets.flatMap fun b => b.items.getD []).countP fun sl => sl.ptr = some a

/-- Every block is held by exactly one slot and holds a value, or was destroyed at most
once and deallocated exactly once, with the count it was allocated with. -/
def BlocksAccounted (m : Map K V) : Prop :=
  ∀ a bl, m.block? a = some bl →
    (m.refs a = 1 ∧ bl.value.isSome) ∨ (bl.destroyed ≤ 1 ∧ bl.freed = [bl.count])

/-- A step that has claimed nothing, on buckets without slots and with no block handed
out, hands out none: `allocate(1)` comes only after a claim, and every other step that
touches a block finds none, or is `clear` of an empty array. -/
theorem pcStep_heap_nil {c : Bool} {m m' : Map K V} {pc : Pc K V} {n : Next K V}
    (hm : ∀ b, (m.bucketD b).count = 0) (hp : pc.unclaimed) (hh : m.heap = [])
    (h : pcStep tr c m pc = some (m', n)) : m'.heap = [] := by
  have hnone : ∀ a, m.block? a = none := fun a => by simp [Map.block?, hh]
  suffices ∀ a, m'.block? a = none from
    List.eq_nil_of_length_eq_zero (Nat.le_zero.mp (List.get?_eq_none.mp (this 0)))
  intro a
  rcases pcStep_block_cases h a with he | ⟨_, _, _, _, _, rfl, -⟩ |
      ⟨_, _, _, _, _, _, -, hb, -⟩ | ⟨_, _, -, hb, -⟩ | ⟨_, _, -, hb, -⟩ | ⟨bi, rfl⟩
  · rw [he, hnone]
  · exact hp.elim
  · simp [hnone] at hb
  · simp [hnone] at hb
  · simp [hnone] at hb
  simp only [pcStep, clearStep] at h
  split at h
  · cases h; exact hnone a
  rename_i b hb
  split at h <;> cases h
  · exact hnone a
  rename_i l hl
  obtain rfl : l = [] := by simpa [Bucket.count, hl] using Map.count_of_bucket? hm hb
  exact hnone a

theorem threadStep_heap_nil {c : Bool} {m m' : Map K V} {th th' : Thread K V}
    (hm : ∀ b, (m.bucketD b).count = 0) (hp : th.pc.unclaimed) (hh : m.heap = [])
    (h : threadStep tr c m th = some (m', th')) : m'.heap = [] := by
  unfold threadStep at h
  split at h
  · cases h
  · cases h
    rename_i call _ _ _
    cases call <;> simp only [callStep] <;> (repeat' split) <;> simp [destroyBuckets_of_heap_nil hh, hh]
  · obtain ⟨⟨m₁, n⟩, hs, he⟩ := Option.map_eq_some'.mp h
    cases he
    exact pcStep_heap_nil hm hp hh hs

/-- From a state without slots and without blocks, no run hands out a block. -/
theorem Steps.heap_nil {s s' : Sys K V} (h : Steps tr s s') (hu : Unfilled s)
    (hh : s.map.heap = []) : s'.map.heap = [] := by
  induction h with
  | refl => exact hh
  | step t c hs _ ih =>
    obtain ⟨th, th', hth, hts, -⟩ := step_eq hs
    exact ih (hu.step hs) (threadStep_heap_nil hu.slots (hu.pcs th (List.get?_mem hth)) hh hts)

/-- From construction, whatever the threads call: the allocator has handed out no block.
So every block `insert` allocated is accounted for, none is leaked or freed twice, and
no stored value is there for `erase` or `clear` to destroy. -/
theorem fresh_map_allocates_nothing {n : Nat} {css : List (List (Call K V))} {s : Sys K V}
    (h : Steps tr (Sys.init (Map.init n) css) s) : s.map.heap = [] ∧ BlocksAccounted s.map := by
  have hh := h.heap_nil (unfilled_init n css) rfl
  exact ⟨hh, fun a bl hb => by simp [Map.block?, hh] at hb⟩

end

/-- The three threads of `freshRace`. -/
theorem fresh_race_allocates_nothing :
    ∃ s, run intTraits (Sys.init (Map.init 1) freshRace) freshRaceSchedule = some s ∧
      s.map.heap = [] ∧ BlocksAccounted s.map :=
  ⟨_, freshRace_run, fresh_map_allocates_nothing (Steps.of_run _ freshRace_run)⟩

end ConcurrentUnorderedMap
