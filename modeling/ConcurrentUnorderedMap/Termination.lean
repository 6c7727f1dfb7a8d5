/-
# `ConcurrentUnorderedMap.Termination` — the claim-or-grow loop does not end

The claim-or-grow `do … while(offset==(size_t)-1)` of `bucket_type::insert` has no
bound of its own: it ends only once a claim succeeds.  A round that finds no free slot
calls `resize(count + count/2)`, and `count + count/2 = count` for a count of 0 or 1.  A
fresh bucket has `count == 0`, so an insert on it goes round for ever while the
allocator never fails.  After `14 + 10 N` steps it is back at the loop head with an
empty array, for every `N` and whatever the hasher, the key and the value.

(The lookup loops around `bucket_type::find` are the subject of `Solo`: from
construction they end at once, and on a bucket with slots they can go round for ever.)

**Proved here.**

    one round of the claim-or-grow loop on an empty array leaves it empty     (`claim_or_grow_round`)
    insert on a fresh one-bucket map is back at the loop head, with the
    array still empty, after 14 + 10 N steps, for every N                     (`claim_or_grow_never_ends`)
-/
import ConcurrentUnorderedMap.Construction

namespace ConcurrentUnorderedMap

/-! ## The claim-or-grow loop -/

section
variable {K V : Type}

/-- One round of `bucket_type::insert`'s loop on a bucket whose array is empty, with every
choice `true`, so the allocator never fails.  The round is `using_`, a claim that reads no
slot, and `resize(0)`; it ends back at the top with both counters one further and
nothing else changed. -/
theorem claim_or_grow_round (tr : Traits K) (k : K) (x : V) (hint sz e : Nat)
    (heap : List (Block K V)) (calls : List (Call K V)) (log : List Ret) :
    run tr ⟨⟨sz, [⟨e, e, false, some []⟩], heap⟩,
        [⟨calls, .bucketInsert k x 0 hint (.claimEnter .inc), log⟩]⟩ (List.replicate 10 (0, true)) =
      some ⟨⟨sz, [⟨e + 1, e + 1, false, some []⟩], heap⟩,
        [⟨calls, .bucketInsert k x 0 hint (.claimEnter .inc), log⟩]⟩ := by
  simp [run, step, threadStep, pcStep, bucketInsertStep, onBucket, enter, drain, usingStep,
    drainStep, Map.bucket?, Map.setBucket, Bucket.count, Bucket.leave, Bucket.resized, Thread.after]

theorem claim_or_grow_never_ends (tr : Traits K) (k : K) (x : V) (N : Nat) :
    run tr (Sys.init (Map.init 1) [[.insert k x]]) (List.replicate (14 + 10 * N) (0, true)) =
      some ⟨⟨0, [⟨N + 2, N + 2, false, some []⟩], []⟩,
        [⟨[], .bucketInsert k x 0 0 (.claimEnter .inc), []⟩]⟩ := by
  refine run_rounds tr (f := fun N => ⟨⟨0, [⟨N + 2, N + 2, false, some []⟩], []⟩,
    [⟨[], .bucketInsert k x 0 0 (.claimEnter .inc), []⟩]⟩) ?_ (fun N => ?_) N
  · simp [run, step, threadStep, callStep, pcStep, insertStep, bucketInsertStep, onBucket, enter,
      drain, usingStep, drainStep, Nat.mod_one, Map.bucket?, Map.setBucket, Map.getBucket, Map.init,
      Sys.init, Bucket.init, Bucket.count, Bucket.leave, Bucket.resized, Thread.after]
  · exact claim_or_grow_round tr k x 0 0 (N + 2) [] [] []

end

end ConcurrentUnorderedMap
