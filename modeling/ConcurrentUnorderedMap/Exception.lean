/-
# `ConcurrentUnorderedMap.Exception` — what an insert that throws leaves behind

`bucket_type::insert` can throw at three points: in the `resize` of its claim-or-grow
loop, in `allocator.allocate(1)`, and in the value's constructor.  The last two are
inside its `try` block, whose `catch` re-enters `using_`, unlocks the claimed slot and
rethrows.  The `resize` is outside the `try`, and it runs after a successful claim as
well; a throw there would leave the claimed slot locked.

**From construction.**  No claim ever succeeds, so the only throw is the `bad_alloc` of
a `resize(0)`, with no slot claimed, after `~using_` has run, and with the
`lock_guard` releasing `resize_lock` on the way out.  Nothing is stored before or
after, and on one thread every bucket is at rest between calls.

**Proved here.**

    from construction, on one thread, an insert that throws leaves the live
    pairs and _size as they were, no slot locked, every bucket at rest      (`fresh_insert_throws_cleanly`)
-/
import ConcurrentUnorderedMap.Construction

namespace ConcurrentUnorderedMap

section
variable {K V : Type}

/-- The live key/value pairs: those of the slots that point at a constructed value,
bucket by bucket. -/
def Map.entries (m : Map K V) : List (K × V) :=
  m.buckets.flatMap fun b => (b.items.getD []).filterMap fun sl =>
    sl.ptr.bind fun a => (m.block? a).bind (·.value)

/-- No slot of any bucket is locked. -/
def Map.NoLockedSlot (m : Map K V) : Prop :=
  ∀ bk ∈ m.buckets, ∀ sl ∈ bk.items.getD [], sl.locked = false

/-- What an `insert` that throws is meant to leave, from every state one thread reaches
from `s₀`: the same live pairs and `_size`, no slot locked, and every bucket at rest. -/
def InsertThrowsCleanly (tr : Traits K) (s₀ : Sys K V) : Prop :=
  ∀ s s' th th' k x ex, Steps tr s₀ s → s.threads = [th] → th.pc = .idle →
    th.calls.head? = some (.insert k x) → Steps tr s s' → s'.threads = [th'] →
    th'.pc = .idle → th'.log = th.log ++ [.thrown ex] →
    (∀ p, p ∈ s'.map.entries ↔ p ∈ s.map.entries) ∧ s'.map.size = s.map.size ∧
      s'.map.NoLockedSlot ∧ s'.map.AtRest

/-- From construction, on one thread, whatever its calls: an insert that throws leaves
the live pairs and `_size` as they were, no slot locked, and every bucket at rest. -/
theorem fresh_insert_throws_cleanly (n : Nat) (calls : List (Call K V)) :
    InsertThrowsCleanly tr (Sys.init (Map.init n) [calls]) := by
  intro s s' th th' k x ex h hs _ _ h' hs' hi' _
  have hu := h.unfilled (unfilled_init n [calls])
  have hu' := h'.unfilled hu
  have hb := h'.balanced_of_solo (by rw [hs]; rfl) (h.balanced_of_solo rfl (balanced_init n _))
  have hnil : ∀ {s : Sys K V}, Unfilled s → s.map.entries = [] := fun hu =>
    List.flatMap_eq_nil_iff.mpr fun bk hbk => by rw [Map.items_of_counts hu.slots bk hbk]; rfl
  refine ⟨fun _ => by rw [hnil hu, hnil hu'], by rw [hu.size, hu'.size], fun bk hbk sl hsl => ?_,
    hb.atRest (quiet_of_solo_idle hs' hi')⟩
  rw [Map.items_of_counts hu'.slots bk hbk] at hsl
  cases hsl

end

end ConcurrentUnorderedMap
