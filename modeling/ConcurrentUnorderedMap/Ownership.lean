/-
# `ConcurrentUnorderedMap.Ownership` — who points at a value, and when it goes

A value lives in a block of the allocator.  `bucket_type::insert` gets the block from
`allocator.allocate(1)`, constructs the value in it, and hands it to its claimed slot with
`i->set(ret, hash)`.  `bucket_type::remove` takes it back out of the slot with
`detach`'s move, then destroys the value and deallocates the block; `bucket_type::clear`
destroys every value its slots point at, through `item_type::destroy`.  Between those
points the block belongs to the thread that is moving it.

**The invariant** (`Owned`).  Every block is at one of the four stages of its life
(`Block.life`): handed out, holding a value, destroyed, given back.  A slot points only at
a block that holds a value, and no two slots point at one block.  A block a thread holds
is at the stage its holder's next steps need, and no slot points at it; no two threads
hold one block.

**Which runs.**  The steps keep it whatever the allocator and the constructors do
(`Steps.owned`), `reserve` apart.  The model's steps read `items + offset` afresh where
`remove`, `find` and the claim loop keep the pointer `i` they computed, and the two agree
as long as no `resize` or `clear` replaces an array under a thread in scope.
Three threads can make one do so (`scopes_exclude_resize_fails`); two cannot
(`ConcurrentUnorderedMap.Exclusion`).  So the result is stated for two threads, where
each step of the model is one of the code: on those runs the code's races (the stale
`resize`, the `hash=0` written without the lock, the slot `clear` frees under an insert)
lose values and leak blocks, and can make a thread fault, but none of them makes a slot
point at a destroyed value, shares a value between two slots, or destroys or deallocates
a block twice.

**How.**  `pcStep_held_move` says, once, what a step can do to the slots' pointers, to
the blocks and to what the stepping thread holds (`HeldMove`, six cases); one lemma per
case keeps the invariant.

**Proved here.**

    clear's pass over a bucket kills the block each slot points at, and no
    other, when no two of its slots point at one block               (`foldl_destroyItem_block?`)
    what a step can do to pointers, blocks and the block it holds     (`pcStep_held_move`)
    each of the six kinds of move keeps the invariant                 (`Owned.frame` … `Owned.clear`)
    every interleaving without reserve keeps it                       (`Steps.owned`)
    on two threads it holds, and no array is replaced under a scope   (`Steps.owned_of_two`)
-/
import ConcurrentUnorderedMap.Alloc
import ConcurrentUnorderedMap.Detach
import ConcurrentUnorderedMap.Resize
import ConcurrentUnorderedMap.Exclusion

namespace ConcurrentUnorderedMap

/-! ## The life of a block -/

/-- Where a block is in its life: `allocate(1)` has handed it out, `construct` has put a
value in it, `destroy` has destroyed the value, `deallocate` has given it back. -/
inductive Life
  | fresh
  | live
  | destroyed
  | freed
deriving DecidableEq, Repr

section
variable {K V : Type} {tr : Traits K}

/-- The stage of life a block's record shows; `none` for a record that no sequence of
those four calls makes: a value destroyed twice, a block given back twice, or given back
with its value still in it. -/
def Block.life (bl : Block K V) : Option Life :=
  match bl.value, bl.destroyed, bl.freed with
  | none, 0, [] => some .fresh
  | some _, 0, [] => some .live
  | none, 1, [] => some .destroyed
  | none, 1, [_] => some .freed
  | _, _, _ => none

theorem Block.life_construct {bl : Block K V} (h : bl.life = some .fresh) (kv : K × V) :
    { bl with value := some kv }.life = some .live := by
  obtain ⟨c, v, d, f⟩ := bl
  unfold Block.life at h ⊢
  dsimp only at h ⊢
  split at h <;> first | rfl | cases h

theorem Block.life_destroy {bl : Block K V} (h : bl.life = some .live) :
    ({ bl with value := none, destroyed := bl.destroyed + 1 } : Block K V).life = some .destroyed := by
  obtain ⟨c, v, d, f⟩ := bl
  unfold Block.life at h ⊢
  dsimp only at h ⊢
  split at h <;> first | rfl | cases h

theorem Block.life_free {bl : Block K V} (h : bl.life = some .destroyed) (n : Nat) :
    { bl with freed := bl.freed ++ [n] }.life = some .freed := by
  obtain ⟨c, v, d, f⟩ := bl
  unfold Block.life at h ⊢
  dsimp only at h ⊢
  split at h <;> first | rfl | cases h

/-- `item_type::destroy`, as `clear` does it: a live block is destroyed and given back. -/
theorem Block.life_kill {bl : Block K V} (h : bl.life = some .live) (n : Nat) :
    ({ bl with value := none, destroyed := bl.destroyed + 1, freed := bl.freed ++ [n] } : Block K V).life =
      some .freed := by
  obtain ⟨c, v, d, f⟩ := bl
  unfold Block.life at h ⊢
  dsimp only at h ⊢
  split at h <;> first | rfl | cases h

/-- The stage of life of block `a`; `none` past the allocator's blocks. -/
def Map.life (m : Map K V) (a : Nat) : Option Life := (m.block? a).bind Block.life

/-- The pointer slot `i` of bucket `b` holds, if there is such a slot and it is not null. -/
def Map.ptrAt (m : Map K V) (b i : Nat) : Option Nat := ((m.bucketD b).slot? i).bind Slot.ptr

theorem Map.lt_of_life {m : Map K V} {a : Nat} {l : Life} (h : m.life a = some l) :
    a < m.heap.length := by
  by_contra hc
  simp [Map.life, Map.block?, List.getElem?_eq_none (not_lt.mp hc)] at h

theorem Map.ptrAt_of_buckets {m m' : Map K V} (h : m'.buckets = m.buckets) (b i : Nat) :
    m'.ptrAt b i = m.ptrAt b i := by
  simp [Map.ptrAt, Map.bucketD, Map.bucket?, h]

theorem Map.block?_of_heap {m m' : Map K V} (h : m'.heap = m.heap) (a : Nat) :
    m'.block? a = m.block? a := by
  simp [Map.block?, h]

theorem Map.life_of_heap {m m' : Map K V} (h : m'.heap = m.heap) (a : Nat) :
    m'.life a = m.life a := by
  simp [Map.life, Map.block?_of_heap h]

theorem Map.life_append (m : Map K V) (bl : Block K V) (a : Nat) :
    ({ m with heap := m.heap ++ [bl] } : Map K V).life a =
      if a = m.heap.length then bl.life else m.life a := by
  rw [Map.life, Map.block?_append]; split <;> rfl

theorem Map.life_setBlock (m : Map K V) (a a' : Nat) (bl' : Block K V) :
    (m.setBlock a' bl').life a = if a = a' then (m.block? a').bind fun _ => bl'.life else m.life a := by
  rw [Map.life, Map.block?_setBlock]
  split
  · cases m.block? a' <;> rfl
  · rfl

/-! ## What a thread holds -/

/-- The block a control holds, with the stage of life its next steps need: `insert`'s
block from `allocate(1)` until `i->set(ret, hash)`, and `remove`'s from the move out of
the slot until `deallocate`. -/
def Pc.held : Pc K V → Option (Nat × Life)
  | .bucketInsert _ _ _ _ (.construct _ a) => some (a, .fresh)
  | .bucketInsert _ _ _ _ (.publishEnter _ _ a) | .bucketInsert _ _ _ _ (.publish _ a) => some (a, .live)
  | .erase _ (.reset (some a)) | .erase _ (.leave (some a)) | .erase _ (.destroy a) => some (a, .live)
  | .erase _ (.free a) => some (a, .destroyed)
  | _ => none

/-- What a step leaves its thread holding. -/
def Next.held : Next K V → Option (Nat × Life)
  | .go pc => pc.held
  | _ => none

@[simp] theorem Pc.after_held (pc : Pc K V) (n : Next K V) : (pc.after n).held = n.held := by
  cases n <;> rfl

/-- No two holders of one block, after the holder at `t` changed to `h'`: it is enough
that no other holder holds the block `h'` names. -/
theorem apart_set {hs : List (Option (Nat × Life))} {t : Nat} {h' : Option (Nat × Life)}
    (hap : ∀ t t' a l l', hs.get? t = some (some (a, l)) → hs.get? t' = some (some (a, l')) → t = t')
    (hnew : ∀ t' a l l', t' ≠ t → hs.get? t' = some (some (a, l)) → h' = some (a, l') → False) :
    ∀ t₁ t₂ a l l', (hs.set t h').get? t₁ = some (some (a, l)) →
      (hs.set t h').get? t₂ = some (some (a, l')) → t₁ = t₂ := by
  intro t₁ t₂ a l l' h₁ h₂
  rcases get?_set_cases h₁ with ⟨e₁, h₁⟩ | ⟨n₁, h₁⟩ <;>
    rcases get?_set_cases h₂ with ⟨e₂, h₂⟩ | ⟨n₂, h₂⟩
  · rw [e₁, e₂]
  · exact (hnew t₂ a l' l n₂ h₂ h₁.symm).elim
  · exact (hnew t₁ a l l' n₁ h₁ h₂.symm).elim
  · exact hap t₁ t₂ a l l' h₁ h₂

/-! ## The invariant -/

/-- The allocator's invariant, for a map and the block each thread holds. -/
structure Owned (m : Map K V) (hs : List (Option (Nat × Life))) : Prop where
  /-- every block is at one of the four stages of its life -/
  lives : ∀ a bl, m.block? a = some bl → bl.life.isSome
  /-- a slot points only at a block that holds a value -/
  slots : ∀ b i a, m.ptrAt b i = some a → m.life a = some .live
  /-- no two slots point at one block -/
  unique : ∀ b i b' i' a, m.ptrAt b i = some a → m.ptrAt b' i' = some a → b = b' ∧ i = i'
  /-- a held block is at the stage its holder needs, and no slot points at it -/
  held : ∀ t a l, hs.get? t = some (some (a, l)) → m.life a = some l ∧ ∀ b i, m.ptrAt b i ≠ some a
  /-- no two threads hold one block -/
  apart : ∀ t t' a l l', hs.get? t = some (some (a, l)) → hs.get? t' = some (some (a, l')) → t = t'

/-- The invariant of a whole system. -/
def Sys.Owned (s : Sys K V) : Prop := ConcurrentUnorderedMap.Owned s.map (s.threads.map (·.pc.held))

/-! ## Each kind of move keeps it -/

variable {m m' : Map K V} {hs : List (Option (Nat × Life))} {t : Nat} {h h' : Option (Nat × Life)}

/-- A step that keeps the blocks, keeps or nulls each pointer, and keeps or drops what
its thread holds. -/
theorem Owned.frame (ho : Owned m hs) (ht : hs.get? t = some h) (hm : m'.heap = m.heap)
    (hp : ∀ b i, m'.ptrAt b i = m.ptrAt b i ∨ m'.ptrAt b i = none) (hh : h' = h ∨ h' = none) :
    Owned m' (hs.set t h') := by
  have hold : ∀ {b i a}, m'.ptrAt b i = some a → m.ptrAt b i = some a := fun {b i _} he => by
    rcases hp b i with hp | hp <;> simp_all
  have hin : ∀ {t' x}, (hs.set t h').get? t' = some (some x) → hs.get? t' = some (some x) :=
    fun hx => by
      rcases get?_set_cases hx with ⟨rfl, rfl⟩ | ⟨-, hx⟩
      · rcases hh with rfl | hh
        · exact ht
        · cases hh
      · exact hx
  refine ⟨fun a bl hb => ho.lives a bl (by rwa [Map.block?_of_heap hm] at hb), fun b i a hb => ?_,
    fun b i b' i' a hb hb' => ho.unique b i b' i' a (hold hb) (hold hb'), fun t' a l hx => ?_,
    apart_set ho.apart fun t' a l l' hne hx he => ?_⟩
  · rw [Map.life_of_heap hm]; exact ho.slots b i a (hold hb)
  · obtain ⟨hl, hn⟩ := ho.held t' a l (hin hx)
    exact ⟨by rw [Map.life_of_heap hm]; exact hl, fun b i he => hn b i (hold he)⟩
  · rcases hh with rfl | rfl
    · exact hne (ho.apart _ _ _ _ _ hx (he ▸ ht))
    · cases he

/-- `allocate(1)`: a new block, handed out, and held by the thread that asked for it. -/
theorem Owned.allocate (ho : Owned m hs) :
    Owned { m with heap := m.heap ++ [⟨1, none, 0, []⟩] } (hs.set t (some (m.heap.length, .fresh))) := by
  have hp : ∀ b i, ({ m with heap := m.heap ++ [⟨1, none, 0, []⟩] } : Map K V).ptrAt b i = m.ptrAt b i :=
    Map.ptrAt_of_buckets rfl
  have hlife : ∀ {a l}, m.life a = some l →
      ({ m with heap := m.heap ++ [⟨1, none, 0, []⟩] } : Map K V).life a = some l := fun hl => by
    rw [Map.life_append, if_neg (Nat.ne_of_lt (Map.lt_of_life hl)), hl]
  have hnew : ∀ {t' l}, hs.get? t' = some (some (m.heap.length, l)) → False := fun hx =>
    absurd (Map.lt_of_life (ho.held _ _ _ hx).1) (lt_irrefl _)
  refine ⟨fun a bl hb => ?_, fun b i a hb => hlife (ho.slots b i a (by rwa [hp] at hb)),
    fun b i b' i' a hb hb' => ho.unique b i b' i' a (by rwa [hp] at hb) (by rwa [hp] at hb'),
    fun t' a l hx => ?_, apart_set ho.apart fun t' a l l' _ hx he => ?_⟩
  · rw [Map.block?_append] at hb
    split at hb
    · cases hb; rfl
    · exact ho.lives a bl hb
  · simp only [hp]
    rcases get?_set_cases hx with ⟨-, hx⟩ | ⟨-, hx⟩
    · simp only [Option.some.injEq, Prod.mk.injEq] at hx
      obtain ⟨rfl, rfl⟩ := hx
      exact ⟨by rw [Map.life_append, if_pos rfl]; rfl,
        fun b i he => absurd (Map.lt_of_life (ho.slots b i _ he)) (lt_irrefl _)⟩
    · exact ⟨hlife (ho.held t' a l hx).1, (ho.held t' a l hx).2⟩
  · simp only [Option.some.injEq, Prod.mk.injEq] at he
    exact hnew (he.1 ▸ hx)

/-- A held block moves on in its life (`construct`, `destroy`, `deallocate`), and its
holder keeps it or lets it go. -/
theorem Owned.setHeld {a : Nat} {l l' : Life} {bl bl' : Block K V} (ho : Owned m hs)
    (ht : hs.get? t = some (some (a, l))) (hb : m.block? a = some bl)
    (hl : bl.life = some l → bl'.life = some l') (hh : h' = some (a, l') ∨ h' = none) :
    Owned (m.setBlock a bl') (hs.set t h') := by
  obtain ⟨hla, hna⟩ := ho.held t a l ht
  have hbl : bl'.life = some l' := hl (by simpa [Map.life, hb] using hla)
  have hp : ∀ b i, (m.setBlock a bl').ptrAt b i = m.ptrAt b i := Map.ptrAt_of_buckets rfl
  have hlife : ∀ {x}, x ≠ a → (m.setBlock a bl').life x = m.life x := fun hx => by
    rw [Map.life_setBlock, if_neg hx]
  have hother : ∀ {t' x k}, t' ≠ t → hs.get? t' = some (some (x, k)) → x ≠ a :=
    fun hne hx hxa => hne (ho.apart _ _ _ _ _ hx (hxa ▸ ht))
  refine ⟨fun x bx hx => ?_, fun b i x hx => ?_,
    fun b i b' i' x h₁ h₂ => ho.unique b i b' i' x (by rwa [hp] at h₁) (by rwa [hp] at h₂),
    fun t' x k hx => ?_, apart_set ho.apart fun t' x k k' hne hx he => ?_⟩
  · rw [Map.block?_setBlock] at hx
    split at hx
    · subst_vars; rw [hb] at hx; cases hx; simp [hbl]
    · exact ho.lives x bx hx
  · rw [hp] at hx
    rw [hlife fun he => hna b i (he ▸ hx)]; exact ho.slots b i x hx
  · simp only [hp]
    rcases get?_set_cases hx with ⟨-, hx⟩ | ⟨hne, hx⟩
    · obtain ⟨rfl, rfl⟩ : x = a ∧ k = l' := by
        rcases hh with rfl | rfl
        · exact Prod.mk.inj_iff.mp (Option.some.inj hx)
        · cases hx
      exact ⟨by rw [Map.life_setBlock, if_pos rfl, hb]; exact hbl, hna⟩
    · exact ⟨by rw [hlife (hother hne hx)]; exact (ho.held t' x k hx).1, (ho.held t' x k hx).2⟩
  · obtain rfl : x = a := by
      rcases hh with rfl | rfl
      · exact (Prod.mk.inj_iff.mp (Option.some.inj he)).1.symm
      · cases he
    exact hother hne hx rfl

/-- `i->set(ret, hash)`: the held block goes into slot `i` of bucket `b`. -/
theorem Owned.publish {a b i : Nat} (ho : Owned m hs) (ht : hs.get? t = some (some (a, .live)))
    (hm : m'.heap = m.heap) (hpa : m'.ptrAt b i = some a)
    (hpo : ∀ b' i', b' ≠ b ∨ i' ≠ i → m'.ptrAt b' i' = m.ptrAt b' i') :
    Owned m' (hs.set t none) := by
  obtain ⟨hla, hna⟩ := ho.held t a .live ht
  have hcases : ∀ {b' i' x}, m'.ptrAt b' i' = some x →
      (b' = b ∧ i' = i ∧ x = a) ∨ m.ptrAt b' i' = some x := fun {b' i' x} hx => by
    by_cases hbi : b' = b ∧ i' = i
    · obtain ⟨rfl, rfl⟩ := hbi; rw [hpa] at hx; cases hx; exact .inl ⟨rfl, rfl, rfl⟩
    · rw [hpo b' i' (not_and_or.mp hbi)] at hx; exact .inr hx
  have hin : ∀ {t' x}, (hs.set t none).get? t' = some (some x) → t' ≠ t ∧ hs.get? t' = some (some x) :=
    fun hx => by
      rcases get?_set_cases hx with ⟨-, hx⟩ | hx
      · cases hx
      · exact hx
  refine ⟨fun x bx hx => ho.lives x bx (by rwa [Map.block?_of_heap hm] at hx), fun b' i' x hx => ?_,
    fun b₁ i₁ b₂ i₂ x h₁ h₂ => ?_, fun t' x k hx => ?_,
    fun t₁ t₂ x k k' h₁ h₂ => ho.apart t₁ t₂ x k k' (hin h₁).2 (hin h₂).2⟩
  · rw [Map.life_of_heap hm]
    rcases hcases hx with ⟨-, -, ex⟩ | hx
    · exact ex ▸ hla
    · exact ho.slots b' i' x hx
  · rcases hcases h₁ with ⟨eb₁, ei₁, ex₁⟩ | h₁ <;> rcases hcases h₂ with ⟨eb₂, ei₂, ex₂⟩ | h₂
    · exact ⟨eb₁.trans eb₂.symm, ei₁.trans ei₂.symm⟩
    · exact (hna _ _ (ex₁ ▸ h₂)).elim
    · exact (hna _ _ (ex₂ ▸ h₁)).elim
    · exact ho.unique b₁ i₁ b₂ i₂ x h₁ h₂
  · obtain ⟨hne, hx⟩ := hin hx
    refine ⟨by rw [Map.life_of_heap hm]; exact (ho.held t' x k hx).1, fun b' i' he => ?_⟩
    rcases hcases he with ⟨-, -, ex⟩ | he
    · exact hne (ho.apart _ _ _ _ _ hx (ex ▸ ht))
    · exact (ho.held t' x k hx).2 b' i' he

/-- `detach`'s move: the block slot `i` of bucket `b` pointed at, if any, goes to the thread. -/
theorem Owned.detach {b i : Nat} (ho : Owned m hs) (hm : m'.heap = m.heap) (hpn : m'.ptrAt b i = none)
    (hpo : ∀ b' i', b' ≠ b ∨ i' ≠ i → m'.ptrAt b' i' = m.ptrAt b' i') :
    Owned m' (hs.set t ((m.ptrAt b i).map (·, .live))) := by
  have hold : ∀ {b' i' x}, m'.ptrAt b' i' = some x → (b' ≠ b ∨ i' ≠ i) ∧ m.ptrAt b' i' = some x :=
    fun {b' i' x} hx => by
      by_cases hbi : b' = b ∧ i' = i
      · obtain ⟨rfl, rfl⟩ := hbi; rw [hpn] at hx; cases hx
      · exact ⟨not_and_or.mp hbi, by rwa [← hpo b' i' (not_and_or.mp hbi)]⟩
  refine ⟨fun x bx hx => ho.lives x bx (by rwa [Map.block?_of_heap hm] at hx),
    fun b' i' x hx => by rw [Map.life_of_heap hm]; exact ho.slots b' i' x (hold hx).2,
    fun b₁ i₁ b₂ i₂ x h₁ h₂ => ho.unique b₁ i₁ b₂ i₂ x (hold h₁).2 (hold h₂).2,
    fun t' x k hx => ?_, apart_set ho.apart fun t' x k k' _ hx he => ?_⟩
  · rw [Map.life_of_heap hm]
    rcases get?_set_cases hx with ⟨-, hx⟩ | ⟨-, hx⟩
    · obtain ⟨a, ha, he⟩ := Option.map_eq_some'.mp hx.symm
      cases he
      refine ⟨ho.slots b i x ha, fun b' i' he => ?_⟩
      obtain ⟨hne, he⟩ := hold he
      obtain ⟨rfl, rfl⟩ := ho.unique b' i' b i x he ha
      simp at hne
    · exact ⟨(ho.held t' x k hx).1, fun b' i' he => (ho.held t' x k hx).2 b' i' (hold he).2⟩
  · obtain ⟨a, ha, he'⟩ := Option.map_eq_some'.mp he
    cases he'
    exact (ho.held t' x k hx).2 b i ha

/-! ## `clear`'s pass over a bucket -/

/-- The pointers of a list of slots are distinct when no two positions hold one. -/
theorem nodup_filterMap_ptr {l : List Slot}
    (h : ∀ i j a, (l.get? i).bind Slot.ptr = some a → (l.get? j).bind Slot.ptr = some a → i = j) :
    (l.filterMap Slot.ptr).Nodup := by
  induction l with
  | nil => simp
  | cons sl l ih =>
    have htail := ih fun i j a hi hj => Nat.succ.inj (h (i + 1) (j + 1) a hi hj)
    cases hp : sl.ptr with
    | none => simpa [List.filterMap_cons, hp] using htail
    | some a =>
      simp only [List.filterMap_cons, hp, List.nodup_cons]
      refine ⟨fun hm => ?_, htail⟩
      obtain ⟨sl', hsl', hp'⟩ := List.mem_filterMap.mp hm
      obtain ⟨j, hj⟩ := List.mem_iff_get?.mp hsl'
      exact absurd (h 0 (j + 1) a (by simp [hp])
        (by simp only [List.get?_cons_succ, hj, Option.some_bind, hp'])) (Nat.succ_ne_zero j).symm

/-- A block is among a bucket's pointers exactly when one of its slots points at it. -/
theorem Bucket.mem_ptrs {bk : Bucket} {a : Nat} :
    a ∈ (bk.items.getD []).filterMap Slot.ptr ↔ ∃ i, (bk.slot? i).bind Slot.ptr = some a := by
  rcases bk with ⟨e, x, r, _ | l⟩
  · simp [Bucket.slot?]
  · simp only [Option.getD_some, List.mem_filterMap, Bucket.slot?, Option.some_bind]
    constructor
    · rintro ⟨sl, hsl, hp⟩
      obtain ⟨i, hi⟩ := List.mem_iff_get?.mp hsl
      exact ⟨i, by rw [hi]; exact hp⟩
    · rintro ⟨i, he⟩
      obtain ⟨sl, hsl, hp⟩ := Option.bind_eq_some.mp he
      exact ⟨sl, List.get?_mem hsl, hp⟩

/-- `clear`'s pass over a bucket's slots: when no two slots point at one block, it
destroys and gives back the block each slot points at, and leaves every other block. -/
theorem foldl_destroyItem_block? (l : List Slot) (hl : (l.filterMap Slot.ptr).Nodup)
    (m : Map K V) (a : Nat) :
    (l.foldl (destroyItem tr) m).block? a =
      if a ∈ l.filterMap Slot.ptr then (m.block? a).map fun bl =>
        { bl with value := none, destroyed := bl.destroyed + 1, freed := bl.freed ++ [tr.valueSize] }
      else m.block? a := by
  induction l generalizing m with
  | nil => simp
  | cons sl l ih =>
    rw [List.foldl_cons]
    cases hp : sl.ptr with
    | none =>
      simp only [List.filterMap_cons, hp] at hl ⊢
      rw [ih hl, show destroyItem tr m sl = m by simp [destroyItem, hp]]
    | some a' =>
      simp only [List.filterMap_cons, hp, List.nodup_cons, List.mem_cons] at hl ⊢
      rw [ih hl.2]
      unfold destroyItem
      simp only [hp]
      by_cases ha : a = a'
      · subst ha
        cases hb : m.block? a <;> simp [Map.block?_setBlock, hb, hl.1]
      · cases hb : m.block? a' <;> simp [Map.block?_setBlock, ha]

/-- `clear` on bucket `bi`: every block its slots point at is destroyed and given back,
and the bucket loses its array. -/
theorem Owned.clear {bi : Nat} {bk : Bucket} {l : List Slot} (ho : Owned m hs)
    (hb : m.bucket? bi = some bk) (hi : bk.items = some l) :
    Owned ((l.foldl (destroyItem tr) m).setBucket bi { bk with items := none }) (hs.set t none) := by
  have hbuck := @foldl_destroyItem_buckets K V tr l m
  have hD : m.bucketD bi = bk := by simp [Map.bucketD, hb]
  have hptr : ∀ i, m.ptrAt bi i = (l.get? i).bind Slot.ptr := fun i => by
    simp [Map.ptrAt, hD, Bucket.slot?, hi]
  have hmem : ∀ a, a ∈ l.filterMap Slot.ptr ↔ ∃ i, m.ptrAt bi i = some a := fun a => by
    simpa [hi, Map.ptrAt, hD] using @Bucket.mem_ptrs bk a
  have hnd : (l.filterMap Slot.ptr).Nodup := nodup_filterMap_ptr fun i j a hi hj =>
    (ho.unique bi i bi j a (by rwa [hptr]) (by rwa [hptr])).2
  have hblock := @foldl_destroyItem_block? K V tr l hnd m
  have hold : ∀ {b i a}, ((l.foldl (destroyItem tr) m).setBucket bi { bk with items := none }).ptrAt b i = some a →
      b ≠ bi ∧ m.ptrAt b i = some a := fun {b i a} he => by
    have hb₁ : (l.foldl (destroyItem tr) m).bucket? bi = some bk := by simp [Map.bucket?, hbuck, ← hb]
    rw [Map.ptrAt, Map.bucketD_setBucket hb₁] at he
    split at he
    · simp [Bucket.slot?] at he
    · exact ⟨‹_›, by rw [← Map.ptrAt_of_buckets hbuck]; exact he⟩
  have hlife : ∀ {a}, a ∉ l.filterMap Slot.ptr →
      ((l.foldl (destroyItem tr) m).setBucket bi { bk with items := none }).life a = m.life a :=
    fun ha => by simp only [Map.life, Map.block?, Map.setBucket]; rw [← Map.block?, hblock, if_neg ha]; rfl
  have hout : ∀ {b i a}, b ≠ bi → m.ptrAt b i = some a → a ∉ l.filterMap Slot.ptr := fun hne he hm => by
    obtain ⟨i', hi'⟩ := (hmem _).mp hm
    exact hne (ho.unique _ _ _ _ _ he hi').1
  refine ⟨fun a bx hx => ?_, fun b i a he => ?_,
    fun b i b' i' a h₁ h₂ => ho.unique b i b' i' a (hold h₁).2 (hold h₂).2, fun t' a k hx => ?_,
    apart_set ho.apart fun _ _ _ _ _ _ he => by cases he⟩
  · have hx' : (l.foldl (destroyItem tr) m).block? a = some bx := hx
    rw [hblock] at hx'
    split at hx'
    · rename_i ha
      obtain ⟨bl, hbl, rfl⟩ := Option.map_eq_some'.mp hx'
      obtain ⟨i, hi⟩ := (hmem a).mp ha
      have hl := ho.slots bi i a hi
      simp only [Map.life, hbl, Option.some_bind] at hl
      simp [Block.life_kill hl]
    · exact ho.lives a bx hx'
  · obtain ⟨hne, he⟩ := hold he
    rw [hlife (hout hne he)]; exact ho.slots b i a he
  · rcases get?_set_cases hx with ⟨-, hx⟩ | ⟨-, hx⟩
    · cases hx
    obtain ⟨hl, hn⟩ := ho.held t' a k hx
    have ha : a ∉ l.filterMap Slot.ptr := fun hm => by
      obtain ⟨i, hi⟩ := (hmem a).mp hm; exact hn bi i hi
    exact ⟨by rw [hlife ha]; exact hl, fun b i he => hn b i (hold he).2⟩

/-! ## What a step can do -/

/-- A bucket step keeps each slot's pointer, or nulls it. -/
def Bucket.KeepsPtrs (bk bk' : Bucket) : Prop :=
  ∀ i, (bk'.slot? i).bind Slot.ptr = (bk.slot? i).bind Slot.ptr ∨ (bk'.slot? i).bind Slot.ptr = none

theorem Bucket.keepsPtrs_of_items {bk bk' : Bucket} (h : bk'.items = bk.items) : bk.KeepsPtrs bk' :=
  fun i => .inl (by rw [Bucket.slot?_of_items h])

/-- Locking, unlocking or rehashing a slot keeps its pointer. -/
theorem Bucket.keepsPtrs_setSlot {bk : Bucket} {j : Nat} {sl sl' : Slot} (hj : bk.slot? j = some sl)
    (hp : sl'.ptr = sl.ptr) : bk.KeepsPtrs (bk.setSlot j sl') := fun i => .inl (by
  rw [Bucket.slot?_setSlot]
  split
  · subst_vars; simp [hj, hp]
  · rfl)

/-- Slot `i` after `realloc` to `n`: the old one below both counts, a zeroed one between
the old count and `n`, none from `n` on. -/
theorem Bucket.get?_resized (b : Bucket) (n i : Nat) :
    (b.resized n).get? i =
      if i < n then (if i < b.count then (b.items.getD []).get? i else some Slot.zero) else none := by
  simp only [Bucket.resized, Bucket.count, List.get?_eq_getElem?]
  rcases lt_or_ge i (min n (b.items.getD []).length) with h | h
  · rw [List.getElem?_append_left (by simpa using h), List.getElem?_take_of_lt (by omega),
      if_pos (by omega), if_pos (by omega)]
  · rw [List.getElem?_append_right (by simp; omega), List.getElem?_replicate]
    by_cases hn : i < n
    · rw [if_pos (by simp; omega), if_pos hn, if_neg (by omega)]
    · rw [if_neg (by simp; omega), if_neg hn]

/-- `realloc` keeps the slots below the old count and zeroes or drops the rest. -/
theorem Bucket.keepsPtrs_resized (bk : Bucket) (n : Nat) :
    bk.KeepsPtrs { bk with items := some (bk.resized n) } := fun i => by
  simp only [Bucket.slot?, Option.some_bind, Bucket.get?_resized]
  split
  · split
    · left; cases h : bk.items <;> simp_all [Bucket.count]
    · exact .inr rfl
  · exact .inr rfl

/-- The loop of `bucket_type::find` only locks and unlocks slots. -/
theorem bucketFindStep_keepsPtrs {h : Nat} {b b' : Bucket} {p p' : Probe} {r : Option Nat}
    (hs : bucketFindStep h b p = .next b' p' r) : b.KeepsPtrs b' := by
  cases p <;> simp only [bucketFindStep] at hs <;> repeat' (first | split at hs | cases hs)
  all_goals first
    | exact Bucket.keepsPtrs_of_items rfl
    | exact Bucket.keepsPtrs_setSlot (by assumption) (by rfl)

theorem Map.ptrAt_setBucket {bi : Nat} {bk bk' : Bucket} (hb : m.bucket? bi = some bk) (b i : Nat) :
    (m.setBucket bi bk').ptrAt b i = if b = bi then (bk'.slot? i).bind Slot.ptr else m.ptrAt b i := by
  rw [Map.ptrAt, Map.bucketD_setBucket hb]; split <;> rfl

@[simp] theorem Pc.held_reset (it : Iter) (v : Option Nat) :
    (Pc.erase it (.reset v) : Pc K V).held = v.map (·, .live) := by
  cases v <;> rfl

/-- What one step does to the slots' pointers, to the blocks, and to the block its thread
holds: from map `m` and held block `h` to `m'` and `h'`. -/
inductive HeldMove (tr : Traits K) (m : Map K V) :
    Map K V → Option (Nat × Life) → Option (Nat × Life) → Prop
  /-- blocks as they were, each pointer kept or nulled, the held block kept or let go -/
  | frame {m' h h'} : m'.heap = m.heap → (∀ b i, m'.ptrAt b i = m.ptrAt b i ∨ m'.ptrAt b i = none) →
      (h' = h ∨ h' = none) → HeldMove tr m m' h h'
  /-- `allocator.allocate(1)` -/
  | allocate {h} : HeldMove tr m { m with heap := m.heap ++ [⟨1, none, 0, []⟩] } h
      (some (m.heap.length, .fresh))
  /-- `construct`, `destroy` or `deallocate` on the held block -/
  | setHeld {a l l' bl bl' h'} : m.block? a = some bl → (bl.life = some l → bl'.life = some l') →
      (h' = some (a, l') ∨ h' = none) → HeldMove tr m (m.setBlock a bl') (some (a, l)) h'
  /-- `i->set(ret, hash)` -/
  | publish {m' a b i} : m'.heap = m.heap → m'.ptrAt b i = some a →
      (∀ b' i', b' ≠ b ∨ i' ≠ i → m'.ptrAt b' i' = m.ptrAt b' i') →
      HeldMove tr m m' (some (a, .live)) none
  /-- `detach`'s move -/
  | detach {m' b i h} : m'.heap = m.heap → m'.ptrAt b i = none →
      (∀ b' i', b' ≠ b ∨ i' ≠ i → m'.ptrAt b' i' = m.ptrAt b' i') →
      HeldMove tr m m' h ((m.ptrAt b i).map (·, .live))
  /-- `clear`'s pass over bucket `bi` -/
  | clear {bi bk l h} : m.bucket? bi = some bk → bk.items = some l →
      HeldMove tr m ((l.foldl (destroyItem tr) m).setBucket bi { bk with items := none }) h none

theorem Owned.move (ho : Owned m hs) (ht : hs.get? t = some h) (hmv : HeldMove tr m m' h h') :
    Owned m' (hs.set t h') := by
  cases hmv with
  | frame hm hp hh => exact ho.frame ht hm hp hh
  | allocate => exact ho.allocate
  | setHeld hb hl hh => exact ho.setHeld ht hb hl hh
  | publish hm hpa hpo => exact ho.publish ht hm hpa hpo
  | detach hm hpn hpo => exact ho.detach hm hpn hpo
  | clear hb hi => exact ho.clear hb hi

theorem HeldMove.stay : HeldMove tr m m h none := .frame rfl (fun _ _ => .inl rfl) (.inr rfl)

/-- A step that writes neither a bucket nor a block, and lets go of what its thread held. -/
theorem HeldMove.keep (hh : m'.heap = m.heap) (hb : m'.buckets = m.buckets) : HeldMove tr m m' h none :=
  .frame hh (fun b i => .inl (Map.ptrAt_of_buckets hb b i)) (.inr rfl)

theorem HeldMove.of_setBucket {bi : Nat} {bk bk' : Bucket} (hb : m.bucket? bi = some bk)
    (hk : bk.KeepsPtrs bk') (hh : h' = h ∨ h' = none) : HeldMove tr m (m.setBucket bi bk') h h' := by
  have hD : m.bucketD bi = bk := by simp [Map.bucketD, hb]
  refine .frame rfl (fun b i => ?_) hh
  rw [Map.ptrAt_setBucket hb]
  split
  · rename_i hbi; subst hbi; simpa [Map.ptrAt, hD] using hk i
  · exact .inl rfl

/-- A step on one bucket that keeps or nulls its pointers. -/
theorem HeldMove.of_onBucket {bi : Nat} {f : Bucket → Option (Bucket × Next K V)} {n : Next K V}
    (hs : onBucket m bi f = some (m', n))
    (hf : ∀ bk bk', f bk = some (bk', n) → bk.KeepsPtrs bk' ∧ (n.held = h ∨ n.held = none)) :
    HeldMove tr m m' h n.held := by
  rcases onBucket_eq hs with ⟨rfl, rfl⟩ | ⟨bk, bk', hb, hfb, rfl⟩
  · exact .stay
  · exact .of_setBucket hb (hf bk bk' hfb).1 (hf bk bk' hfb).2

/-- What a step can do to pointers, blocks and the block it holds. -/
theorem pcStep_held_move {c : Bool} {pc : Pc K V} {n : Next K V} (h : pcStep tr c m pc = some (m', n)) :
    HeldMove tr m m' pc.held n.held := by
  cases pc
  case idle | fault => cases h
  case clearSize => cases h; exact .keep rfl rfl
  all_goals rename_i st; cases st
  all_goals simp only [pcStep, findStep, insertStep, bucketInsertStep, eraseStep, clearStep] at h
  case bucketInsert.allocate =>
    split at h <;> cases h
    · exact .allocate
    · exact .stay
  case bucketInsert.construct =>
    split at h
    · cases h; exact .stay
    split at h <;> cases h
    · exact .setHeld ‹_› (fun hl => Block.life_construct hl _) (.inl rfl)
    · exact .stay
  case erase.destroy =>
    split at h <;> cases h
    · exact .stay
    · exact .setHeld ‹_› Block.life_destroy (.inl rfl)
  case erase.free =>
    split at h <;> cases h
    · exact .stay
    · exact .setHeld ‹_› (fun hl => Block.life_free hl _) (.inr rfl)
  case clear.free =>
    split at h
    · cases h; exact .stay
    split at h <;> cases h
    · exact .stay
    · exact .clear ‹_› ‹_›
  case bucketInsert.publish k x bi hint o a =>
    rcases onBucket_eq h with ⟨rfl, rfl⟩ | ⟨bk, bk', hb, hf, rfl⟩
    · exact .stay
    split at hf <;> cases hf
    · exact .of_setBucket hb (Bucket.keepsPtrs_of_items rfl) (.inr rfl)
    · rename_i sl hsl
      refine .publish (b := bi) (i := o) rfl (by simp [Map.ptrAt_setBucket hb, Bucket.slot?_setSlot, hsl, Slot.set])
        fun b' i' hne => ?_
      rw [Map.ptrAt_setBucket hb]
      split
      · subst_vars
        simp [Map.ptrAt, Map.bucketD, hb, Bucket.slot?_setSlot_ne (hne.resolve_left (not_not.mpr rfl))]
      · rfl
  case erase.detach it =>
    rcases onBucket_eq h with ⟨rfl, rfl⟩ | ⟨bk, bk', hb, hf, rfl⟩
    · exact .stay
    split at hf <;> cases hf
    · exact .of_setBucket hb (Bucket.keepsPtrs_of_items rfl) (.inr rfl)
    · rename_i sl hsl
      have hp : m.ptrAt it.bucket it.offset = sl.ptr := by simp [Map.ptrAt, Map.bucketD, hb, hsl]
      simp only [Next.held, Pc.held_reset, ← hp]
      refine .detach (b := it.bucket) (i := it.offset) rfl (by simp [Map.ptrAt_setBucket hb, Bucket.slot?_setSlot, hsl, Slot.moveOut])
        fun b' i' hne => ?_
      rw [Map.ptrAt_setBucket hb]
      split
      · subst_vars
        simp [Map.ptrAt, Map.bucketD, hb, Bucket.slot?_setSlot_ne (hne.resolve_left (not_not.mpr rfl))]
      · rfl
  case find.enter | insert.enter | bucketInsert.claimEnter | bucketInsert.publishEnter |
      bucketInsert.catchEnter | erase.enter =>
    exact .of_onBucket h fun _ _ hf => ⟨Bucket.keepsPtrs_of_items (enter_eq hf).1, by
      rcases (enter_eq hf).2 with ⟨_, rfl⟩ | rfl <;> exact .inl rfl⟩
  case bucketInsert.resize | clear.drain =>
    exact .of_onBucket h fun _ _ hf => ⟨Bucket.keepsPtrs_of_items (drain_eq hf).1, by
      rcases (drain_eq hf).2 with ⟨_, rfl⟩ | rfl <;> exact .inr rfl⟩
  case insert.count | bucketInsert.catchFree => cases h; exact .keep rfl rfl
  all_goals refine .of_onBucket h fun bk bk' hf => ?_
  all_goals (repeat' split at hf) <;> cases hf <;>
    refine ⟨?_, by first | exact .inl rfl | exact .inr rfl⟩ <;>
    first
    | exact Bucket.keepsPtrs_of_items rfl
    | exact bucketFindStep_keepsPtrs ‹_›
    | exact Bucket.keepsPtrs_setSlot (by assumption) (by rfl)
    | exact Bucket.keepsPtrs_resized _ _

/-- The first step of any call but `reserve` writes neither a bucket nor a block. -/
theorem callStep_held_move {call : Call K V} (hr : ∀ n, call ≠ .reserve n) :
    HeldMove tr m (callStep tr m call).1 none (callStep tr m call).2.held := by
  cases call
  case reserve n => exact absurd rfl (hr n)
  all_goals simp only [callStep]; repeat' split
  all_goals exact .stay

/-- What a thread's step can do to pointers, blocks and the block it holds. -/
theorem threadStep_held_move {c : Bool} {th th' : Thread K V}
    (h : threadStep tr c m th = some (m', th')) (hr : ∀ n rest, th.pc = .idle → th.calls ≠ .reserve n :: rest) :
    HeldMove tr m m' th.pc.held th'.pc.held := by
  unfold threadStep at h
  split at h
  · cases h
  · rename_i call rest hpc hcalls
    simp only [Option.some.injEq, Prod.mk.injEq] at h
    obtain ⟨rfl, rfl⟩ := h
    rw [hpc, Thread.after_pc, Pc.after_held]
    exact callStep_held_move fun n hn => hr n rest hpc (by rw [hcalls, hn])
  · obtain ⟨⟨m₁, n⟩, hs, he⟩ := Option.map_eq_some'.mp h
    cases he
    rw [Thread.after_pc, Pc.after_held]
    exact pcStep_held_move hs

/-! ## Every interleaving keeps the invariant -/

theorem Sys.Owned.step {s s' : Sys K V} {t : Nat} {c : Bool} (ho : s.Owned)
    (h : step tr s t c = some s') (hr : NotReserving s t) : s'.Owned := by
  obtain ⟨th, th', hth, hs, he⟩ := step_eq h
  unfold Sys.Owned at ho ⊢
  rw [he, List.map_set]
  exact ho.move (by rw [List.get?_eq_getElem?, List.getElem?_map, ← List.get?_eq_getElem?, hth]; rfl)
    (threadStep_held_move hs (hr th hth))

/-- Every freshly constructed system is owned once its map is: the threads hold nothing. -/
theorem Sys.owned_init (calls : List (List (Call K V)))
    (hl : ∀ a bl, m.block? a = some bl → bl.life.isSome)
    (hs : ∀ b i a, m.ptrAt b i = some a → m.life a = some .live)
    (hu : ∀ b i b' i' a, m.ptrAt b i = some a → m.ptrAt b' i' = some a → b = b' ∧ i = i') :
    (Sys.init m calls).Owned := by
  refine ⟨hl, hs, hu, fun t a l hx => ?_, fun t t' a l l' hx _ => ?_⟩ <;>
    · simp only [Sys.init, List.map_map, List.get?_eq_getElem?, List.getElem?_map] at hx
      obtain ⟨_, -, hx⟩ := Option.map_eq_some'.mp hx
      cases hx

/-- The one-entry bucket of `Map.withEntry`: only slot 0 of bucket 0 points, at block 0. -/
theorem Map.ptrAt_withEntry (tr : Traits K) (k : K) (x : V) (n b i : Nat) :
    (Map.withEntry tr k x n).ptrAt b i = if b = 0 ∧ i = 0 then some 0 else none := by
  rcases b with _ | b <;> rcases i with _ | i <;>
    simp [Map.ptrAt, Map.withEntry, Map.bucketD, Map.bucket?, Bucket.slot?, Bucket.init,
      List.getElem?_replicate, Slot.zero]

theorem Sys.owned_withEntry (tr : Traits K) (k : K) (x : V) (n : Nat) (calls : List (List (Call K V))) :
    (Sys.init (Map.withEntry tr k x n) calls).Owned := by
  refine Sys.owned_init calls (fun a bl hb => ?_) (fun b i a hp => ?_) fun b i b' i' a hp hp' => ?_ <;>
    simp only [Map.ptrAt_withEntry] at *
  · rcases a with _ | a <;> simp [Map.withEntry, Map.block?] at hb
    subst hb; rfl
  · split at hp <;> cases hp; rfl
  · split at hp <;> split at hp' <;> simp_all

/-- From a state where the allocator's invariant holds, every interleaving of calls
other than `reserve` keeps it, whatever the allocator and the constructors do. -/
theorem Steps.owned {s s' : Sys K V} (h : Steps tr s s') (hn : NoReserve s) (ho : s.Owned) :
    s'.Owned := by
  induction h with
  | refl => exact ho
  | step t c hs _ ih => exact ih (hn.step hs) (ho.step hs (hn.notReserving t))

/-- Two threads, neither calling `reserve`, started between calls on a map at rest where
the allocator's invariant holds.  In every state an interleaving reaches, the invariant
holds: no slot points at a block that does not hold a value, no two slots point at one
block, a thread destroys and deallocates only the block it moved out of its slot, and no
block is destroyed or deallocated twice.  And no thread is about to reallocate or free a
bucket's `items` while the other is inside a scope on it, so every read the model makes
of `items + offset` is the code's read through its pointer `i`. -/
theorem Steps.owned_of_two {m : Map K V} {css : List (List (Call K V))} {s : Sys K V}
    (hl : css.length ≤ 2) (hn : ∀ cs ∈ css, ∀ n, Call.reserve n ∉ cs) (hm : m.AtRest)
    (ho : (Sys.init m css).Owned) (h : Steps tr (Sys.init m css) s) :
    s.Owned ∧ ∀ b, s.rewritesInScope b = false :=
  have hx := exclusive_init hl hn hm
  ⟨h.owned hx.noReserve ho, (h.exclusive hx).rewritesInScope⟩

end

/-- Thread 0 erases the entry of slot 0 while thread 1 inserts `9`; thread 1 waits in its
`resize` for thread 0 to leave the bucket. -/
def ownSchedule : List (Nat × Bool) :=
  List.replicate 5 (0, true) ++ List.replicate 30 (1, true) ++ List.replicate 5 (0, true) ++
    List.replicate 11 (1, true)

/-- The insert claims slot 0 as soon as the erase has moved the value out of it, and puts
block 1 there while the erase destroys and gives back block 0. -/
theorem erase_then_reuse_owned :
    run intTraits (Sys.init (Map.withEntry intTraits 5 5 1) [[.erase ⟨0, 0⟩], [.insert 9 9]])
        ownSchedule =
      some ⟨⟨2, [⟨4, 4, false, some [⟨some 1, true, 9⟩, Slot.zero, Slot.zero]⟩],
        [⟨1, none, 1, [8]⟩, ⟨1, some (9, 9), 0, []⟩]⟩,
        [⟨[], .idle, [.iter ⟨0, 1⟩]⟩, ⟨[], .idle, [.pair ⟨0, 0⟩ true]⟩]⟩ ∧
    Sys.Owned ⟨⟨2, [⟨4, 4, false, some [⟨some 1, true, 9⟩, Slot.zero, Slot.zero]⟩],
        [⟨1, none, 1, [8]⟩, ⟨1, some (9, 9), 0, []⟩]⟩,
        [⟨[], .idle, [.iter ⟨0, 1⟩]⟩, ⟨[], .idle, [.pair ⟨0, 0⟩ true]⟩]⟩ ∧
    ∀ b, Sys.rewritesInScope ⟨⟨2, [⟨4, 4, false, some [⟨some 1, true, 9⟩, Slot.zero, Slot.zero]⟩],
        [⟨1, none, 1, [8]⟩, ⟨1, some (9, 9), 0, []⟩]⟩,
        [⟨[], .idle, [.iter ⟨0, 1⟩]⟩, ⟨[], .idle, [.pair ⟨0, 0⟩ true]⟩]⟩ b = false := by
  have hr : run intTraits (Sys.init (Map.withEntry intTraits 5 5 1) [[.erase ⟨0, 0⟩], [.insert 9 9]])
      ownSchedule = some ⟨⟨2, [⟨4, 4, false, some [⟨some 1, true, 9⟩, Slot.zero, Slot.zero]⟩],
        [⟨1, none, 1, [8]⟩, ⟨1, some (9, 9), 0, []⟩]⟩,
        [⟨[], .idle, [.iter ⟨0, 1⟩]⟩, ⟨[], .idle, [.pair ⟨0, 0⟩ true]⟩]⟩ := by
    decide
  exact ⟨hr, Steps.owned_of_two (by decide) (by simp) (Map.coherent_withEntry 5 5 1).atRest
    (Sys.owned_withEntry _ _ _ _ _) (Steps.of_run _ hr)⟩

end ConcurrentUnorderedMap
