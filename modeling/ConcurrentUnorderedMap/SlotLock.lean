/-
# `ConcurrentUnorderedMap.SlotLock` — each slot's spinlock under lookups and erases

Every slot carries a `spinlock<value_type*>`: its pointer and a lock bit.  `find` takes
it at `i->p.lock()` and lets it go in the `unique_lock`'s destructor, or at the
`i->p.unlock()` after a failed recheck; `erase` takes it at `i->p.lock()` in `remove`,
and `detach`'s `std::move(p)` hands the pointer out with the bit cleared.  In between
the thread *holds* the slot (`Pc.slotHeld`); a thread stopped by undefined behaviour
keeps what it held.

## What is proved

    one step of a thread that looks up or erases keeps every slot and block, or
    takes one free slot, or lets go of the one it holds, or moves the pointer out of
    the slot it holds, or zeroes the hash of the slot it emptied, or writes one
    block                                                                 (`threadStep_slotsMove`)
    in every interleaving of lookups and erases from a map with no slot locked, a
    slot is locked exactly when one thread holds it, and no two threads ever hold
    one slot                                                            (`Steps.slot_lock_exclusive`)

The first is the one place a step of these threads is taken apart; the second, and the
erasure results of `Erasure`, are derived from it.  The invariant is "locked iff held",
in counting form, as `Balanced` has it for `resize_lock`.

## What it is not

Inserts are left out.  `bucket_type::insert` takes a slot with `try_lock` and returns
with it still locked (`insert_solo`), so under inserts a locked slot need have no holder,
and the next `find` of that slot spins (`insert_then_find_blocks`).
-/
import ConcurrentUnorderedMap.Abstract

namespace ConcurrentUnorderedMap

section
variable {K V : Type} {tr : Traits K}

/-! ## Slots by position, and the slot a thread holds -/

/-- The slot at position `p`, `_buckets[p.bucket].items[p.offset]`, if there is one. -/
def Map.slotAt (m : Map K V) (p : Iter) : Option Slot := (m.bucketD p.bucket).slot? p.offset

/-- Whether the slot at `p` is locked; a position without a slot is not. -/
def Map.lockedAt (m : Map K V) (p : Iter) : Bool := ((m.slotAt p).map Slot.locked).getD false

/-- The slot of the bucket `bucket_type::find`'s loop holds: from `i->p.lock()` to the
unlock after a failed recheck. -/
def Probe.held : Probe → Option Nat
  | .recheck i _ _ | .unlock i _ _ => some i
  | _ => none

/-- The slot of its bucket `find` holds: in the loop as `Probe.held` says, then from a
successful recheck to the `unique_lock`'s destructor. -/
def FindSt.held : FindSt → Option Nat
  | .probe p => p.held
  | .compare i | .release i _ => some i
  | _ => none

/-- The slot whose spinlock a thread at `pc` holds: `find`'s as `FindSt.held` says,
`erase`'s from `i->p.lock()` to `detach`'s move; a stopped thread keeps it. -/
def Pc.slotHeld : Pc K V → Option Iter
  | .find _ bi st => st.held.map (⟨bi, ·⟩)
  | .erase it .detach => some it
  | .fault pc => pc.slotHeld
  | _ => none

/-- The slot whose hash a thread at `pc` has still to zero: `erase` between `detach`,
which moved a value out of it, and `if(i) hash=0;`.  A stopped thread keeps it. -/
def Pc.hashOwed : Pc K V → Option Iter
  | .erase it (.reset (some _)) => some it
  | .fault pc => pc.hashOwed
  | _ => none

/-- A call of the workloads this module is about: a lookup or an erase. -/
def Call.lookupOrErase : Call K V → Bool
  | .find _ | .erase _ => true
  | _ => false

/-- Where a thread of such a workload can be: between calls, stopped, or in `find` or
`erase`. -/
def Pc.lookupOrErase : Pc K V → Bool
  | .idle | .fault _ | .find .. | .erase .. => true
  | _ => false

@[simp] theorem Map.slotAt_mk (m : Map K V) (b o : Nat) : m.slotAt ⟨b, o⟩ = (m.bucketD b).slot? o := rfl

@[simp] theorem Map.slotAt_setBlock (m : Map K V) (a : Nat) (bl : Block K V) (p : Iter) :
    (m.setBlock a bl).slotAt p = m.slotAt p := rfl

@[simp] theorem Pc.slotHeld_fault (pc : Pc K V) : (Pc.fault pc).slotHeld = pc.slotHeld := rfl

@[simp] theorem Pc.hashOwed_fault (pc : Pc K V) : (Pc.fault pc).hashOwed = pc.hashOwed := rfl

theorem Map.slotAt_of_bucket? {m : Map K V} {bi : Nat} {bk : Bucket} (hb : m.bucket? bi = some bk)
    (i : Nat) : m.slotAt ⟨bi, i⟩ = bk.slot? i := by
  simp [Map.bucketD, hb]

/-- Past the bucket vector there is no slot. -/
theorem Map.slotAt_of_bucket?_none {m : Map K V} {p : Iter} (hb : m.bucket? p.bucket = none) :
    m.slotAt p = none := by
  simp [Map.slotAt, Map.bucketD, hb, Bucket.init, Bucket.slot?]

/-- A write of bucket `bi` that keeps its `items` keeps every slot. -/
theorem Map.slotAt_setBucket_items {m : Map K V} {bi : Nat} {bk bk' : Bucket}
    (hb : m.bucket? bi = some bk) (hi : bk'.items = bk.items) (p : Iter) :
    (m.setBucket bi bk').slotAt p = m.slotAt p := by
  rw [Map.slotAt, Map.bucketD_setBucket hb]
  split
  · subst_vars; rw [Bucket.slot?_of_items hi, Map.slotAt, Map.bucketD, hb, Option.getD_some]
  · rfl

/-- A write of the slot `i` of bucket `bi`, which is there, changes the slot at
`⟨bi, i⟩` only. -/
theorem Map.slotAt_setSlot {m : Map K V} {bi i : Nat} {bk : Bucket} {sl : Slot}
    (hb : m.bucket? bi = some bk) (hsl : bk.slot? i = some sl) (sl' : Slot) (p : Iter) :
    (m.setBucket bi (bk.setSlot i sl')).slotAt p = if p = ⟨bi, i⟩ then some sl' else m.slotAt p := by
  obtain ⟨b, o⟩ := p
  rw [Map.slotAt_mk, Map.bucketD_setBucket hb, Map.slotAt_mk]
  by_cases hbi : b = bi
  · subst hbi
    rw [if_pos rfl, Bucket.slot?_setSlot, Map.bucketD, hb, Option.getD_some]
    by_cases hoi : o = i
    · subst hoi; simp [hsl]
    · simp [hoi]
  · simp [hbi]

/-! ## What one step does to the slots -/

/-- What one step of a thread that looks up or erases does to the slots and the
allocator, and to the slot the thread holds and the hash it owes: `m` and `pc` before,
`m'` and `pc'` after. -/
inductive SlotsMove (m : Map K V) (pc : Pc K V) : Map K V → Pc K V → Prop
  /-- No slot and no block changes; the thread holds and owes what it did. -/
  | keep {m' pc'} : (∀ p, m'.slotAt p = m.slotAt p) → m'.heap = m.heap →
      pc'.slotHeld = pc.slotHeld → pc'.hashOwed = pc.hashOwed → SlotsMove m pc m' pc'
  /-- `i->p.lock()`, in `find` or in `remove`, on the free slot at `q`, which the thread
  then holds. -/
  | lock {m' pc'} (q : Iter) (sl : Slot) : m.slotAt q = some sl → sl.locked = false →
      (∀ p, m'.slotAt p = if p = q then some sl.lock else m.slotAt p) → m'.heap = m.heap →
      pc.slotHeld = none → pc'.slotHeld = some q →
      (∃ k bi st, pc = .find k bi st) ∨ pc = .erase q .lock → SlotsMove m pc m' pc'
  /-- `find` lets go of the slot at `q` it held. -/
  | unlock {m' pc'} (q : Iter) (sl : Slot) : m.slotAt q = some sl →
      (∀ p, m'.slotAt p = if p = q then some sl.unlock else m.slotAt p) → m'.heap = m.heap →
      pc.slotHeld = some q → pc'.slotHeld = none → (∃ k bi st, pc = .find k bi st) →
      SlotsMove m pc m' pc'
  /-- `detach` moves the pointer out of the slot at `q`, which `erase` held. -/
  | moveOut {m'} (q : Iter) (sl : Slot) : m.slotAt q = some sl →
      (∀ p, m'.slotAt p = if p = q then some sl.moveOut else m.slotAt p) → m'.heap = m.heap →
      pc = .erase q .detach → SlotsMove m pc m' (.erase q (.reset sl.ptr))
  /-- `if(i) hash=0;` at `q`, after `erase` moved the value `a` out of it. -/
  | clearHash {m'} (q : Iter) (sl : Slot) (a : Nat) : m.slotAt q = some sl →
      (∀ p, m'.slotAt p = if p = q then some { sl with hash := 0 } else m.slotAt p) →
      m'.heap = m.heap → pc = .erase q (.reset (some a)) → SlotsMove m pc m' (.erase q (.leave (some a)))
  /-- `allocator.destroy(v)`, then `allocator.deallocate(v, …)`, on the block `a` of the
  value `erase` moved out: no slot changes, and no other block. -/
  | block {m' pc'} (q : Iter) (a : Nat) : (∀ p, m'.slotAt p = m.slotAt p) →
      (∀ a', a' ≠ a → m'.block? a' = m.block? a') →
      (pc = .erase q (.destroy a) ∧ pc' = .erase q (.free a)) ∨
        (pc = .erase q (.free a) ∧ pc' = .erase q .advance) → SlotsMove m pc m' pc'

theorem SlotsMove.fault {m : Map K V} {pc : Pc K V} : SlotsMove m pc m (.fault pc) :=
  .keep (fun _ => rfl) rfl rfl rfl

/-- A write of a bucket that keeps its slots. -/
theorem SlotsMove.bucket {m : Map K V} {pc pc' : Pc K V} {bi : Nat} {bk bk' : Bucket}
    (hb : m.bucket? bi = some bk) (hi : bk'.items = bk.items) (hh : pc'.slotHeld = pc.slotHeld)
    (ho : pc'.hashOwed = pc.hashOwed) : SlotsMove m pc (m.setBucket bi bk') pc' :=
  .keep (Map.slotAt_setBucket_items hb hi) rfl hh ho

/-- What one step of `bucket_type::find`'s loop, which goes on, does to the bucket's
slots and to the slot the loop holds; what it returns otherwise holds. -/
def Probed.Moves (b : Bucket) (p : Probe) : Probed → Prop
  | .next b' p' _ => b'.items = b.items ∧ p'.held = p.held ∨
      (∃ i sl, b.slot? i = some sl ∧ sl.locked = false ∧ b' = b.setSlot i sl.lock ∧
        p.held = none ∧ p'.held = some i) ∨
      (∃ i sl, b.slot? i = some sl ∧ b' = b.setSlot i sl.unlock ∧ p.held = some i ∧ p'.held = none)
  | .found i => p.held = some i
  | .miss => p.held = none
  | _ => True

theorem bucketFindStep_moves (h : Nat) (b : Bucket) (p : Probe) : (bucketFindStep h b p).Moves b p := by
  cases p with
  | scan i stop rec =>
    simp only [bucketFindStep]
    repeat' split
    all_goals simp [Probed.Moves, Probe.held]
  | lock i stop rec =>
    simp only [bucketFindStep]
    split
    · trivial
    · split
      · trivial
      · exact .inr (.inl ⟨i, _, ‹_›, Bool.eq_false_iff.mpr ‹_›, rfl, rfl, rfl⟩)
  | recheck i stop rec =>
    simp only [bucketFindStep]
    repeat' split
    all_goals simp [Probed.Moves, Probe.held]
  | unlock i stop rec =>
    simp only [bucketFindStep]
    split
    · trivial
    · exact .inr (.inr ⟨i, _, ‹_›, rfl, rfl, rfl⟩)

/-! ## Where a step takes the thread -/

/-- Whether `erase` is past `detach`: it has moved the slot's pointer out. -/
def EraseSt.past : EraseSt → Bool
  | .enter _ | .lock | .detach => false
  | _ => true

/-- Where a step of `erase` at `st` can go on to, as `eraseStep` has it: the pointer
`detach` moves out is carried to `~using_`, and the block it names to `destroy` and
`deallocate`. -/
inductive EraseSt.Precedes : EraseSt → EraseSt → Prop
  | enter (e e' : Entry) : EraseSt.Precedes (.enter e) (.enter e')
  | lock (e : Entry) : EraseSt.Precedes (.enter e) .lock
  | detach : EraseSt.Precedes .lock .detach
  | reset (v : Option Nat) : EraseSt.Precedes .detach (.reset v)
  | leave (v : Option Nat) : EraseSt.Precedes (.reset v) (.leave v)
  | advance : EraseSt.Precedes (.leave none) .advance
  | destroy (a : Nat) : EraseSt.Precedes (.leave (some a)) (.destroy a)
  | free (a : Nat) : EraseSt.Precedes (.destroy a) (.free a)
  | freed (a : Nat) : EraseSt.Precedes (.free a) .advance

/-- Where a step inside a call can take a thread at `pc` that goes on: further into the
same lookup, or to the next point of the same erase. -/
def Pc.Precedes : Pc K V → Pc K V → Prop
  | .find k bi _, .find k' bi' _ => k' = k ∧ bi' = bi
  | .erase it st, .erase it' st' => it' = it ∧ st.Precedes st'
  | _, _ => False

/-- What a step inside a call on the map `m` made of the thread's control: a point `pc`
precedes; the call's end, which `erase` reaches from `++ret` only; or a stop, which
`erase` before `detach` comes to only at a position with no slot. -/
def Pc.Leads (m : Map K V) (pc : Pc K V) : Next K V → Prop
  | .go pc' => pc.Precedes pc'
  | .ret _ => ∀ it st, pc = .erase it st → st = .advance
  | .fault => ∀ it st, pc = .erase it st → st.past = false → m.slotAt it = none

/-- A lookup's return and its stops are what `Leads` allows. -/
theorem Pc.Leads.find {m : Map K V} {k : K} {bi : Nat} {st : FindSt} {n : Next K V}
    (hn : ∀ pc', n ≠ .go pc') : (Pc.find k bi st).Leads m n := by
  cases n with
  | go pc' => exact (hn pc' rfl).elim
  | ret _ | fault => intro _ _ h; cases h

/-- A step on bucket `bi` moves the slots as its body's write of that bucket does; with
no bucket there it stops. -/
theorem onBucket_slotsMove {m m' : Map K V} {bi : Nat} {f : Bucket → Option (Bucket × Next K V)}
    {pc : Pc K V} {n : Next K V} (h : onBucket m bi f = some (m', n))
    (hnone : m.bucket? bi = none → pc.Leads m .fault)
    (hf : ∀ bk bk', m.bucket? bi = some bk → f bk = some (bk', n) →
      SlotsMove m pc (m.setBucket bi bk') (pc.after n) ∧ pc.Leads m n) :
    m'.buckets.length = m.buckets.length ∧ SlotsMove m pc m' (pc.after n) ∧ pc.Leads m n := by
  unfold onBucket at h
  split at h
  · obtain ⟨rfl, rfl⟩ := Prod.mk.inj (Option.some.inj h)
    exact ⟨rfl, .fault, hnone ‹_›⟩
  · obtain ⟨⟨bk', n'⟩, hf', he⟩ := Option.map_eq_some'.mp h
    cases he
    exact ⟨Map.length_setBucket .., hf _ bk' ‹_› hf'⟩

/-- One step of `find`. -/
theorem findStep_slotsMove {m m' : Map K V} {k : K} {bi : Nat} {st : FindSt} {n : Next K V}
    (h : findStep tr m k bi st = some (m', n)) :
    m'.buckets.length = m.buckets.length ∧ SlotsMove m (.find k bi st) m' ((Pc.find k bi st).after n) ∧
      (Pc.find k bi st).Leads m n := by
  have hnone : m.bucket? bi = none → (Pc.find k bi st).Leads m .fault := fun _ => Pc.Leads.find nofun
  cases st with
  | enter e =>
    refine onBucket_slotsMove h hnone fun bk bk' hb hf => ?_
    obtain ⟨hi, ⟨e', rfl⟩ | rfl⟩ := enter_eq hf <;> exact ⟨.bucket hb hi rfl rfl, rfl, rfl⟩
  | call start =>
    refine onBucket_slotsMove h hnone fun bk bk' hb hf => ?_
    obtain ⟨rfl, rfl⟩ := Prod.mk.inj (Option.some.inj hf)
    split <;> exact ⟨.bucket hb rfl rfl rfl, rfl, rfl⟩
  | probe p =>
    refine onBucket_slotsMove h hnone fun bk bk' hb hf => ?_
    have hm := bucketFindStep_moves (tr.hasher k) bk p
    generalize bucketFindStep (tr.hasher k) bk p = r at hf hm
    cases r with
    | next b' p' _ =>
      obtain ⟨rfl, rfl⟩ := Prod.mk.inj (Option.some.inj hf)
      refine ⟨?_, rfl, rfl⟩
      rcases hm with ⟨hi, hp⟩ | ⟨i, sl, hsl, hfree, rfl, hp, hp'⟩ | ⟨i, sl, hsl, rfl, hp, hp'⟩
      · exact .bucket hb hi (by simp [Pc.slotHeld, FindSt.held, hp]) rfl
      · exact .lock ⟨bi, i⟩ sl (by rwa [Map.slotAt_of_bucket? hb]) hfree (Map.slotAt_setSlot hb hsl _)
          rfl (by simp [Pc.slotHeld, FindSt.held, hp]) (by simp [Pc.slotHeld, FindSt.held, hp'])
          (.inl ⟨_, _, _, rfl⟩)
      · exact .unlock ⟨bi, i⟩ sl (by rwa [Map.slotAt_of_bucket? hb]) (Map.slotAt_setSlot hb hsl _)
          rfl (by simp [Pc.slotHeld, FindSt.held, hp]) (by simp [Pc.slotHeld, FindSt.held, hp'])
          ⟨_, _, _, rfl⟩
    | found i =>
      obtain ⟨rfl, rfl⟩ := Prod.mk.inj (Option.some.inj hf)
      exact ⟨.bucket hb rfl (by simp [Pc.slotHeld, FindSt.held, show p.held = some i from hm]) rfl,
        rfl, rfl⟩
    | miss =>
      obtain ⟨rfl, rfl⟩ := Prod.mk.inj (Option.some.inj hf)
      exact ⟨.bucket hb rfl (by simp [Pc.slotHeld, FindSt.held, show p.held = none from hm]) rfl,
        rfl, rfl⟩
    | blocked => cases hf
    | fault =>
      obtain ⟨rfl, rfl⟩ := Prod.mk.inj (Option.some.inj hf)
      exact ⟨.bucket hb rfl rfl rfl, Pc.Leads.find nofun⟩
  | compare i =>
    refine onBucket_slotsMove h hnone fun bk bk' hb hf => ?_
    split at hf <;> obtain ⟨rfl, rfl⟩ := Prod.mk.inj (Option.some.inj hf)
    · exact ⟨.bucket hb rfl rfl rfl, Pc.Leads.find nofun⟩
    · exact ⟨.bucket hb rfl rfl rfl, rfl, rfl⟩
  | release i hit =>
    refine onBucket_slotsMove h hnone fun bk bk' hb hf => ?_
    split at hf <;> obtain ⟨rfl, rfl⟩ := Prod.mk.inj (Option.some.inj hf)
    · exact ⟨.bucket hb rfl rfl rfl, Pc.Leads.find nofun⟩
    · rename_i sl hsl
      refine ⟨.unlock ⟨bi, i⟩ sl (by rwa [Map.slotAt_of_bucket? hb]) (Map.slotAt_setSlot hb hsl _) rfl rfl
        (by split <;> rfl) ⟨_, _, _, rfl⟩, by split <;> exact ⟨rfl, rfl⟩⟩
  | leave r =>
    refine onBucket_slotsMove h hnone fun bk bk' hb hf => ?_
    obtain ⟨rfl, rfl⟩ := Prod.mk.inj (Option.some.inj hf)
    exact ⟨.bucket hb rfl rfl rfl, Pc.Leads.find nofun⟩

/-- One step of `erase`. -/
theorem eraseStep_slotsMove {m m' : Map K V} {it : Iter} {st : EraseSt} {n : Next K V}
    (h : eraseStep tr m it st = some (m', n)) :
    m'.buckets.length = m.buckets.length ∧ SlotsMove m (.erase it st) m' ((Pc.erase it st).after n) ∧
      (Pc.erase it st).Leads m n := by
  have hnone : m.bucket? it.bucket = none → (Pc.erase it st).Leads m .fault := by
    rintro hb _ _ ⟨⟩ -; exact Map.slotAt_of_bucket?_none hb
  /- A stop at a position with no slot. -/
  have hslot : ∀ bk, m.bucket? it.bucket = some bk → bk.slot? it.offset = none →
      (Pc.erase it st).Leads m .fault := by
    rintro bk hb hsl _ _ ⟨⟩ -; rwa [← Map.slotAt_of_bucket? hb] at hsl
  cases st with
  | enter e =>
    refine onBucket_slotsMove h hnone fun bk bk' hb hf => ?_
    obtain ⟨hi, ⟨e', rfl⟩ | rfl⟩ := enter_eq hf
    · exact ⟨.bucket hb hi rfl rfl, rfl, .enter _ _⟩
    · exact ⟨.bucket hb hi rfl rfl, rfl, .lock _⟩
  | lock =>
    refine onBucket_slotsMove h hnone fun bk bk' hb hf => ?_
    split at hf
    · obtain ⟨rfl, rfl⟩ := Prod.mk.inj (Option.some.inj hf)
      exact ⟨.bucket hb rfl rfl rfl, hslot bk hb ‹_›⟩
    · rename_i sl hsl
      split at hf
      · cases hf
      · obtain ⟨rfl, rfl⟩ := Prod.mk.inj (Option.some.inj hf)
        exact ⟨.lock it sl (by rwa [Map.slotAt_of_bucket? hb]) (Bool.eq_false_iff.mpr ‹_›)
          (Map.slotAt_setSlot hb hsl _) rfl rfl rfl (.inr rfl), rfl, .detach⟩
  | detach =>
    refine onBucket_slotsMove h hnone fun bk bk' hb hf => ?_
    split at hf <;> obtain ⟨rfl, rfl⟩ := Prod.mk.inj (Option.some.inj hf)
    · exact ⟨.bucket hb rfl rfl rfl, hslot bk hb ‹_›⟩
    · rename_i sl hsl
      exact ⟨.moveOut it sl (by rwa [Map.slotAt_of_bucket? hb]) (Map.slotAt_setSlot hb hsl _) rfl rfl,
        rfl, .reset _⟩
  | reset v =>
    refine onBucket_slotsMove h hnone fun bk bk' hb hf => ?_
    split at hf <;> obtain ⟨rfl, rfl⟩ := Prod.mk.inj (Option.some.inj hf)
    · exact ⟨.bucket hb rfl rfl rfl, rfl, .leave _⟩
    · exact ⟨.bucket hb rfl rfl rfl, by rintro _ _ ⟨⟩ ⟨⟩⟩
    · rename_i a sl hsl
      exact ⟨.clearHash it sl a (by rwa [Map.slotAt_of_bucket? hb]) (Map.slotAt_setSlot hb hsl _) rfl rfl,
        rfl, .leave _⟩
  | leave v =>
    refine onBucket_slotsMove h hnone fun bk bk' hb hf => ?_
    obtain ⟨rfl, rfl⟩ := Prod.mk.inj (Option.some.inj hf)
    cases v
    · exact ⟨.bucket hb rfl rfl rfl, rfl, .advance⟩
    · exact ⟨.bucket hb rfl rfl rfl, rfl, .destroy _⟩
  | destroy a =>
    simp only [eraseStep] at h
    split at h <;> obtain ⟨rfl, rfl⟩ := Prod.mk.inj (Option.some.inj h)
    · exact ⟨rfl, .fault, by rintro _ _ ⟨⟩ ⟨⟩⟩
    · exact ⟨rfl, .block it a (fun _ => rfl) (fun a' ha => by simp [Map.block?_setBlock, ha])
        (.inl ⟨rfl, rfl⟩), rfl, .free _⟩
  | free a =>
    simp only [eraseStep] at h
    split at h <;> obtain ⟨rfl, rfl⟩ := Prod.mk.inj (Option.some.inj h)
    · exact ⟨rfl, .fault, by rintro _ _ ⟨⟩ ⟨⟩⟩
    · exact ⟨rfl, .block it a (fun _ => rfl) (fun a' ha => by simp [Map.block?_setBlock, ha])
        (.inr ⟨rfl, rfl⟩), rfl, .freed _⟩
  | advance =>
    refine onBucket_slotsMove h hnone fun bk bk' hb hf => ?_
    obtain ⟨rfl, rfl⟩ := Prod.mk.inj (Option.some.inj hf)
    exact ⟨.bucket hb rfl rfl rfl, by rintro _ _ ⟨⟩; rfl⟩

/-- One step inside a call of a lookup or an erase. -/
theorem pcStep_slotsMove {c : Bool} {m m' : Map K V} {pc : Pc K V} {n : Next K V}
    (hw : pc.lookupOrErase) (h : pcStep tr c m pc = some (m', n)) :
    m'.buckets.length = m.buckets.length ∧ SlotsMove m pc m' (pc.after n) ∧ pc.Leads m n := by
  cases pc <;> simp only [Pc.lookupOrErase, Bool.false_eq_true] at hw <;> simp only [pcStep] at h
  case idle | fault => cases h
  case find => exact findStep_slotsMove h
  case erase => exact eraseStep_slotsMove h

/-- The first step of a lookup or an erase leaves the map alone; the thread then holds
and owes nothing. -/
theorem callStep_slotsMove {m : Map K V} {call : Call K V} (hc : call.lookupOrErase) :
    (callStep tr m call).1 = m ∧ (Pc.idle.after (callStep tr m call).2).slotHeld = none ∧
      (Pc.idle.after (callStep tr m call).2).hashOwed = none ∧
      (Pc.idle.after (callStep tr m call).2).lookupOrErase := by
  cases call <;> simp only [Call.lookupOrErase, Bool.false_eq_true] at hc <;>
    simp only [callStep] <;> repeat' split
  all_goals exact ⟨rfl, rfl, rfl, rfl⟩

theorem Pc.Leads.lookupOrErase {m : Map K V} {pc : Pc K V} {n : Next K V} (hl : pc.Leads m n) :
    (pc.after n).lookupOrErase := by
  cases n with
  | go pc' => cases pc <;> cases pc' <;> first | rfl | exact hl.elim
  | ret _ | fault => rfl

/-- A step of a thread: the first step of its next call, or a step inside its call. -/
theorem threadStep_cases {c : Bool} {m m' : Map K V} {th th' : Thread K V}
    (h : threadStep tr c m th = some (m', th')) :
    (∃ call rest, th.pc = .idle ∧ th.calls = call :: rest ∧ m' = (callStep tr m call).1 ∧
      th' = th.after rest (callStep tr m call).2) ∨
    ∃ n, th.pc ≠ .idle ∧ pcStep tr c m th.pc = some (m', n) ∧ th' = th.after th.calls n := by
  unfold threadStep at h
  split at h
  · cases h
  · obtain ⟨rfl, rfl⟩ := Prod.mk.inj (Option.some.inj h)
    exact .inl ⟨_, _, ‹_›, ‹_›, rfl, rfl⟩
  · obtain ⟨⟨m₁, n⟩, hs, he⟩ := Option.map_eq_some'.mp h
    cases he
    refine .inr ⟨n, fun hi => ?_, hs, rfl⟩
    rw [hi] at hs
    cases hs

/-- A thread of a workload of lookups and erases: between calls, stopped, or in a lookup
or an erase, with only lookups and erases left to make. -/
def Thread.lookupOrErase (th : Thread K V) : Prop :=
  th.pc.lookupOrErase ∧ ∀ call ∈ th.calls, call.lookupOrErase

/-- One step of a thread of such a workload: it stays one, and what it does to the slots
and the allocator is a `SlotsMove`. -/
theorem threadStep_slotsMove {c : Bool} {m m' : Map K V} {th th' : Thread K V}
    (hw : th.lookupOrErase) (h : threadStep tr c m th = some (m', th')) :
    m'.buckets.length = m.buckets.length ∧ SlotsMove m th.pc m' th'.pc ∧ th'.lookupOrErase := by
  have hcalls' : ∀ call ∈ th'.calls, call.lookupOrErase := fun call hc => hw.2 call (threadStep_calls h call hc)
  rcases threadStep_cases h with ⟨call, rest, hpc, hcalls, rfl, rfl⟩ | ⟨n, -, hs, rfl⟩
  · obtain ⟨hm, hh, ho, hw'⟩ := @callStep_slotsMove K V tr m call (hw.2 call (by simp [hcalls]))
    rw [Thread.after_pc, hpc, hm]
    exact ⟨rfl, .keep (fun _ => rfl) rfl hh ho, by rw [Thread.after_pc, hpc]; exact hw', hcalls'⟩
  · obtain ⟨hl, hm, hlead⟩ := pcStep_slotsMove hw.1 hs
    exact ⟨hl, by rwa [Thread.after_pc], by rw [Thread.after_pc]; exact hlead.lookupOrErase, hcalls'⟩

/-! ## Mutual exclusion on each slot -/

/-- How many threads of `s` hold the slot at `p`. -/
def slotHolders (s : Sys K V) (p : Iter) : Nat := s.threads.countP fun th => th.pc.slotHeld = some p

/-- What a step does at one position, to the lock bit there (`l`) and to whether the
stepping thread holds the slot (`h`): it keeps both, takes a free slot, or lets a held
one go. -/
def LockMove (l l' h h' : Bool) : Prop :=
  l' = l ∧ h' = h ∨ l = false ∧ l' = true ∧ h = false ∧ h' = true ∨ l' = false ∧ h = true ∧ h' = false

theorem Map.lockedAt_of_slotAt {m m' : Map K V} {q : Iter} {x : Option Slot}
    (hs : ∀ p, m'.slotAt p = if p = q then x else m.slotAt p) (p : Iter) :
    m'.lockedAt p = if p = q then (x.map Slot.locked).getD false else m.lockedAt p := by
  simp only [Map.lockedAt, hs]; split <;> rfl

/-- Every `SlotsMove` is a `LockMove` at every position. -/
theorem SlotsMove.lockMove {m m' : Map K V} {pc pc' : Pc K V} (hm : SlotsMove m pc m' pc') (p : Iter) :
    LockMove (m.lockedAt p) (m'.lockedAt p) (pc.slotHeld = some p) (pc'.slotHeld = some p) := by
  cases hm with
  | keep hs _ hh _ => exact .inl ⟨by simp only [Map.lockedAt, hs], by rw [hh]⟩
  | lock q sl hq hfree hs _ hn hn' _ =>
    rw [Map.lockedAt_of_slotAt hs, hn, hn']
    by_cases hpq : p = q
    · subst hpq
      exact .inr (.inl ⟨by simp [Map.lockedAt, hq, hfree], by simp [Slot.lock], by simp, by simp⟩)
    · exact .inl ⟨by simp [hpq], by simp [Ne.symm hpq]⟩
  | unlock q sl _ hs _ hn hn' _ =>
    rw [Map.lockedAt_of_slotAt hs, hn, hn']
    by_cases hpq : p = q
    · subst hpq; exact .inr (.inr ⟨by simp [Slot.unlock], by simp, by simp⟩)
    · exact .inl ⟨by simp [hpq], by simp [Ne.symm hpq]⟩
  | moveOut q sl _ hs _ hpc =>
    subst hpc
    rw [Map.lockedAt_of_slotAt hs]
    by_cases hpq : p = q
    · subst hpq; exact .inr (.inr ⟨by simp [Slot.moveOut], by simp [Pc.slotHeld], by simp [Pc.slotHeld]⟩)
    · exact .inl ⟨by simp [hpq], by simp [Pc.slotHeld, Ne.symm hpq]⟩
  | clearHash q sl a hq hs _ hpc =>
    subst hpc
    refine .inl ⟨?_, rfl⟩
    rw [Map.lockedAt_of_slotAt hs]
    split
    · subst_vars; simp [Map.lockedAt, hq]
    · rfl
  | block q a hs _ hpc =>
    refine .inl ⟨by simp only [Map.lockedAt, hs], ?_⟩
    rcases hpc with ⟨rfl, rfl⟩ | ⟨rfl, rfl⟩ <;> rfl

/-- A `LockMove` keeps a lock bit set exactly when one thread holds the slot, the
stepping thread counted in the `N` holders as its `h` says before and its `h'` after. -/
theorem LockMove.balanced {l l' h h' : Bool} {N : Nat} (hm : LockMove l l' h h')
    (hl : l = true ↔ 0 < N) (hs : N ≤ 1) (hle : (if h then 1 else 0) ≤ N) :
    (l' = true ↔ 0 < N - (if h then 1 else 0) + (if h' then 1 else 0)) ∧
      N - (if h then 1 else 0) + (if h' then 1 else 0) ≤ 1 := by
  rcases hm with ⟨rfl, rfl⟩ | ⟨rfl, rfl, rfl, rfl⟩ | ⟨rfl, rfl, rfl⟩
  · rw [Nat.sub_add_cancel hle]; exact ⟨hl, hs⟩
  · simp only [Bool.false_eq_true, false_iff, not_lt, Nat.le_zero] at hl
    simp [hl]
  · simp only [ite_true] at hle ⊢
    simp; omega

/-- The lock invariant of a workload of lookups and erases: every thread is one of it, a
slot is locked exactly when a thread holds it, and no slot has two holders. -/
structure SlotLocks (s : Sys K V) : Prop where
  threads : ∀ th ∈ s.threads, th.lookupOrErase
  locked : ∀ p, s.map.lockedAt p = true ↔ 0 < slotHolders s p
  single : ∀ p, slotHolders s p ≤ 1

theorem SlotLocks.step {s s' : Sys K V} {t : Nat} {c : Bool} (hl : SlotLocks s)
    (h : step tr s t c = some s') : SlotLocks s' := by
  obtain ⟨th, th', hth, hts, hthr⟩ := step_eq h
  obtain ⟨-, hm, hw'⟩ := threadStep_slotsMove (hl.threads th (List.get?_mem hth)) hts
  have hc := fun p => countP_step hth th' fun th => decide (th.pc.slotHeld = some p)
  have hb := fun p => (hm.lockMove p).balanced (hl.locked p) (hl.single p) (hc p).2
  refine ⟨fun x hx => ?_, fun p => ?_, fun p => ?_⟩
  · rw [hthr] at hx
    rcases List.mem_or_eq_of_mem_set hx with hx | rfl
    exacts [hl.threads x hx, hw']
  · simp only [slotHolders, hthr, (hc p).1]; exact (hb p).1
  · simp only [slotHolders, hthr, (hc p).1]; exact (hb p).2

theorem Steps.slotLocks {s s' : Sys K V} (h : Steps tr s s') (hl : SlotLocks s) : SlotLocks s' := by
  induction h with
  | refl => exact hl
  | step t c hs _ ih => exact ih (hl.step hs)

theorem slotLocks_init {m : Map K V} {css : List (List (Call K V))}
    (hf : ∀ cs ∈ css, ∀ c ∈ cs, c.lookupOrErase) (hl : ∀ p, m.lockedAt p = false) :
    SlotLocks (Sys.init m css) := by
  have h0 : ∀ p, slotHolders (Sys.init m css) p = 0 := fun p => by
    simp [slotHolders, Sys.init, Pc.slotHeld]
  refine ⟨fun th hth => ?_, fun p => ?_, fun p => by simp [h0 p]⟩
  · obtain ⟨cs, hcs, rfl⟩ := List.mem_map.mp hth
    exact ⟨rfl, hf cs hcs⟩
  · show m.lockedAt p = true ↔ _
    simp [hl p, h0 p]

/-- Two threads at different indices both holding the slot at `p` make two holders. -/
theorem two_le_slotHolders {s : Sys K V} {p : Iter} {t t' : Nat} {th th' : Thread K V}
    (ht : s.threads.get? t = some th) (ht' : s.threads.get? t' = some th') (hne : t ≠ t')
    (hh : th.pc.slotHeld = some p) (hh' : th'.pc.slotHeld = some p) : 2 ≤ slotHolders s p := by
  have hc := countP_step ht ⟨[], .idle, []⟩ fun th => decide (th.pc.slotHeld = some p)
  have ht'' : (s.threads.set t ⟨[], .idle, []⟩).get? t' = some th' := by
    rw [List.get?_eq_getElem?, List.getElem?_set_ne hne, ← List.get?_eq_getElem?, ht']
  have hc' := (countP_step ht'' th' fun th => decide (th.pc.slotHeld = some p)).2
  simp only [hh, hh', decide_True, ite_true, Pc.slotHeld, reduceCtorEq, decide_False,
    Bool.false_eq_true, ite_false, Nat.add_zero] at hc hc'
  unfold slotHolders; omega

/-- A coherent map has no slot locked. -/
theorem Coherent.lockedAt {m : Map K V} (hc : Coherent tr m) (p : Iter) : m.lockedAt p = false := by
  unfold Map.lockedAt Map.slotAt
  cases hsl : (m.bucketD p.bucket).slot? p.offset with
  | none => rfl
  | some sl => exact (hc.slot hsl).1

/-- Mutual exclusion on each slot's spinlock: in every interleaving of threads that only
look up and erase, started idle on a map with no slot locked, a slot is locked exactly
when some thread holds it, and two threads that hold one slot are one thread. -/
theorem Steps.slot_lock_exclusive {m : Map K V} {css : List (List (Call K V))} {s : Sys K V}
    (hf : ∀ cs ∈ css, ∀ c ∈ cs, c.lookupOrErase) (hl : ∀ p, m.lockedAt p = false)
    (h : Steps tr (Sys.init m css) s) (p : Iter) :
    (s.map.lockedAt p = true ↔ ∃ t th, s.threads.get? t = some th ∧ th.pc.slotHeld = some p) ∧
      ∀ t t' th th', s.threads.get? t = some th → s.threads.get? t' = some th' →
        th.pc.slotHeld = some p → th'.pc.slotHeld = some p → t = t' := by
  have hs := h.slotLocks (slotLocks_init hf hl)
  refine ⟨(hs.locked p).trans ?_, fun t t' th th' ht ht' hh hh' => ?_⟩
  · simp only [slotHolders, List.countP_pos_iff, decide_eq_true_eq, List.mem_iff_get?]
    constructor
    · rintro ⟨th, ⟨t, ht⟩, hh⟩; exact ⟨t, th, ht, hh⟩
    · rintro ⟨t, th, ht, hh⟩; exact ⟨th, ⟨t, ht⟩, hh⟩
  · by_contra hne
    have := two_le_slotHolders ht ht' hne hh hh'
    have := hs.single p
    omega

end

/-- `erase` of slot 0 has locked it and is at `detach`; a `find` of the key there has
scanned to it and waits at its `i->p.lock()`: the eraser is the one holder. -/
theorem slot_lock_exclusive_erase_find :
    ∃ s, run intTraits (Sys.init (Map.withEntry intTraits 5 5 1) [[.erase ⟨0, 0⟩], [.find 5]])
        (List.replicate 4 (0, true) ++ List.replicate 5 (1, true)) = some s ∧
      s.threads.map (·.pc.slotHeld) = [some ⟨0, 0⟩, none] ∧
      (s.map.lockedAt ⟨0, 0⟩ = true ↔
        ∃ t th, s.threads.get? t = some th ∧ th.pc.slotHeld = some ⟨0, 0⟩) ∧
      ∀ t t' th th', s.threads.get? t = some th → s.threads.get? t' = some th' →
        th.pc.slotHeld = some ⟨0, 0⟩ → th'.pc.slotHeld = some ⟨0, 0⟩ → t = t' := by
  have hr : run intTraits (Sys.init (Map.withEntry intTraits 5 5 1) [[.erase ⟨0, 0⟩], [.find 5]])
      (List.replicate 4 (0, true) ++ List.replicate 5 (1, true)) =
      some ⟨⟨1, [⟨2, 0, false, some [⟨some 0, true, 5⟩, Slot.zero]⟩], [⟨1, some (5, 5), 0, []⟩]⟩,
        [⟨[], .erase ⟨0, 0⟩ .detach, []⟩, ⟨[], .find 5 0 (.probe (.lock 0 2 false)), []⟩]⟩ := by
    decide
  exact ⟨_, hr, rfl, Steps.slot_lock_exclusive (by decide) (Map.coherent_withEntry 5 5 1).lockedAt
    (Steps.of_run _ hr) ⟨0, 0⟩⟩

end ConcurrentUnorderedMap
