/-
# `ConcurrentUnorderedMap.Erasure` — erases and lookups side by side, to the end

`erase(it)` locks the slot, moves its pointer out with `detach`, zeroes its hash, leaves
the bucket, and only then destroys and frees the value.  Run alone it removes the one
pair at `it` (`erase_refines`).  This module runs any number of erases and lookups side
by side, interleaved step by step in every way the scheduler allows, and looks at the
map once every thread has made all its calls.

## What is proved

    in every interleaving of lookups and erases on a coherent map where no two slots
    point at one block, once every thread has made all its calls, the map is
    coherent, and it holds the pairs it held but those at the positions an erase
    named                                                                (`Steps.erasures_quiesce`)

So erases and lookups lose no other pair, leave no slot locked, and leave no null slot
with a stale hash, whatever the interleaving: an erase of a slot another erase already
emptied finds a null pointer and does nothing more.

## How

One invariant over whole runs (`Erasing`), preserved by every step from what `SlotLock`
says one step does (`threadStep_slotsMove`):

* each thread's finished calls and the one it is in are the first of its calls, and an
  erase carries the block the starting map had at its position (`EraseThread`);
* each position's slot is the one the starting map had, or, once an erase named it and
  moved its pointer out, null with hash 0 or a hash that erase still owes (`SlotState`);
* a block differs from the starting map's only if an erased position pointed at it;
* and the slot locks and the buckets' counters are balanced (`SlotLocks`, `Balanced`).

## What it is not

Inserts are left out.  From construction no insert ever stores anything
(`fresh_map_finds_nothing`), and on a bucket with slots an insert leaves the slot it
fills locked (`insert_solo`).  Nor is this linearizability of lookups against erases: a
lookup running beside the erase of the pair it looks for may return it or miss it.
-/
import ConcurrentUnorderedMap.SlotLock

namespace ConcurrentUnorderedMap

section
variable {K V : Type} {tr : Traits K} {m₀ : Map K V}

/-! ## The erases a thread has made -/

/-- Whether the call `c` is `erase(p)`. -/
def Call.erasesAt (c : Call K V) (p : Iter) : Bool :=
  match c with
  | .erase it => decide (it = p)
  | _ => false

/-- Whether a thread the calls `css` give erases `p`. -/
def erasedBy (css : List (List (Call K V))) (p : Iter) : Bool := css.any fun cs => cs.any (·.erasesAt p)

/-- The call a thread at `pc` is in: its lookup or its erase; none between calls or once
stopped. -/
def Pc.current : Pc K V → List (Call K V)
  | .find k _ _ => [.find k]
  | .erase it _ => [.erase it]
  | _ => []

/-- The position whose slot `erase` has emptied, once it is past `detach`. -/
def Pc.detached : Pc K V → Option Iter
  | .erase it st => if st.past then some it else none
  | _ => none

/-- The block an erase at `st` carries: the pointer `detach` moved out. -/
def EraseSt.block : EraseSt → Option Nat
  | .reset v | .leave v => v
  | .destroy a | .free a => some a
  | _ => none

/-- A step of `erase` past `detach` stays past it; one that gets past it is `detach`'s. -/
theorem EraseSt.Precedes.past {st st' : EraseSt} (h : st.Precedes st') :
    (st.past = true → st'.past = true) ∧ (st'.past = true → st.past = true ∨ st = .detach) := by
  cases h <;> simp [EraseSt.past]

/-- Past `detach`, a step of `erase` carries the block it carried. -/
theorem EraseSt.Precedes.block {st st' : EraseSt} (h : st.Precedes st') (hd : st ≠ .detach) {a : Nat}
    (ha : st'.block = some a) : st.block = some a := by
  cases h <;> simp_all [EraseSt.block]

theorem Call.erasesAt_iff {c : Call K V} {p : Iter} : c.erasesAt p = true ↔ c = .erase p := by
  cases c <;> simp [Call.erasesAt]

theorem Pc.detached_eq {pc : Pc K V} {p : Iter} (h : pc.detached = some p) :
    ∃ st, pc = .erase p st ∧ st.past = true := by
  cases pc <;> simp only [Pc.detached, reduceCtorEq] at h
  split at h <;> cases h
  exact ⟨_, rfl, ‹_›⟩

theorem Pc.current_erase {pc : Pc K V} {p : Iter} (h : pc.current = [.erase p]) :
    ∃ st, pc = .erase p st := by
  cases pc <;> simp [Pc.current] at h
  exact ⟨_, by rw [h]⟩

/-- A step inside a call keeps an erase past `detach`, and gets an erase past it only
from `detach`. -/
theorem Pc.Precedes.detached {pc pc' : Pc K V} (h : pc.Precedes pc') (p : Iter) :
    (pc.detached = some p → pc'.detached = some p) ∧
      (pc'.detached = some p → pc.detached = some p ∨ pc = .erase p .detach) := by
  cases pc with
  | erase it st => cases pc' with
    | erase it' st' =>
      obtain ⟨rfl, hst⟩ := h
      have := hst.past
      simp only [Pc.detached]
      constructor
      · split <;> split <;> simp_all
      · split <;> split <;> simp_all
    | _ => exact (h : False).elim
  | find k bi st => cases pc' with
    | find k' bi' st' => simp [Pc.detached]
    | _ => exact (h : False).elim
  | _ => exact (h : False).elim

/-- A step of `erase` from `detach` to `reset` is `detach`'s move, of the slot's pointer. -/
theorem SlotsMove.detach {m m' : Map K V} {q : Iter} {v : Option Nat}
    (hm : SlotsMove m (.erase q .detach) m' (.erase q (.reset v))) : ∃ sl, m.slotAt q = some sl ∧ v = sl.ptr := by
  cases hm with
  | keep _ _ hh _ => simp [Pc.slotHeld] at hh
  | lock _ _ _ _ _ _ hn _ _ => cases hn
  | unlock _ _ _ _ _ _ _ hf => obtain ⟨_, _, _, h⟩ := hf; cases h
  | moveOut _ sl hq _ _ _ => exact ⟨sl, hq, rfl⟩
  | block _ _ _ _ h => rcases h with ⟨h, _⟩ | ⟨h, _⟩ <;> cases h

/-- A step inside a call stays in it. -/
theorem Pc.Precedes.current {pc pc' : Pc K V} (h : pc.Precedes pc') : pc'.current = pc.current := by
  cases pc with
  | find k bi st => cases pc' with
    | find k' bi' st' => obtain ⟨rfl, rfl⟩ := h; rfl
    | _ => exact (h : False).elim
  | erase it st => cases pc' with
    | erase it' st' => obtain ⟨rfl, -⟩ := h; rfl
    | _ => exact (h : False).elim
  | _ => exact (h : False).elim

/-- The first step of a lookup or an erase goes into the call, or returns or stops at
once; an erase stops at once only at a position past the bucket vector. -/
theorem callStep_next {m : Map K V} {call : Call K V} (hc : call.lookupOrErase) :
    (∃ pc', (callStep tr m call).2 = .go pc' ∧ pc'.current = [call] ∧ pc'.detached = none ∧
      ∀ it st, pc' = .erase it st → st.block = none) ∨
    (∀ pc', (callStep tr m call).2 ≠ .go pc') ∧ ∀ p, call.erasesAt p = true → m.slotAt p = none := by
  cases call <;> simp only [Call.lookupOrErase, Bool.false_eq_true] at hc
  case find k =>
    simp only [callStep]
    split
    · exact .inr ⟨nofun, nofun⟩
    · split
      · exact .inr ⟨nofun, nofun⟩
      · exact .inl ⟨_, rfl, rfl, rfl, nofun⟩
  case erase it =>
    simp only [callStep]
    split
    · exact .inl ⟨_, rfl, rfl, rfl, by rintro _ _ ⟨⟩; rfl⟩
    · refine .inr ⟨nofun, fun p hp => ?_⟩
      obtain rfl : it = p := by simpa [Call.erasesAt] using hp
      exact Map.slotAt_of_bucket?_none (List.get?_eq_none.mpr (Nat.le_of_not_lt ‹_›))

/-- `th`, started with the calls `cs`, has erased `p`: a finished call of it is
`erase(p)`, or it is past `detach` in `erase(p)`. -/
def Thread.Erased (cs : List (Call K V)) (th : Thread K V) (p : Iter) : Prop :=
  (cs.take th.log.length).any (·.erasesAt p) = true ∨ th.pc.detached = some p

/-- Thread `th`, started with the calls `cs` on the map `m₀`: its finished calls and the
one it is in are the first of `cs`, and the block an erase of it carries is the one `m₀`
had at the position erased. -/
structure EraseThread (m₀ : Map K V) (cs : List (Call K V)) (th : Thread K V) : Prop where
  split : cs = cs.take th.log.length ++ th.pc.current ++ th.calls
  block : ∀ it st a, th.pc = .erase it st → st.block = some a → m₀.ptrAt it.bucket it.offset = some a

theorem take_succ_of_split {cs rest : List (Call K V)} {L : Nat} {c : Call K V}
    (h : cs = cs.take L ++ c :: rest) : cs.take (L + 1) = cs.take L ++ [c] := by
  have hL : (cs.take L).length = L := by
    have := congrArg List.length h
    simp only [List.length_append, List.length_cons, List.length_take] at this ⊢
    omega
  conv_lhs => rw [h]
  rw [List.take_append_eq_append_take, List.take_of_length_le (by omega), hL]
  simp

/-- A thread that finishes the call `c`, returning or stopping: it keeps its bookkeeping,
and it has erased what it had and what `c` erases. -/
theorem EraseThread.finish (m₀ : Map K V) {cs calls : List (Call K V)} {log : List Ret} {c : Call K V} {r : Ret}
    {pc' : Pc K V} (hs : cs = cs.take log.length ++ c :: calls) (hpc' : pc' = .idle ∨ ∃ pc, pc' = .fault pc) :
    EraseThread m₀ cs ⟨calls, pc', log ++ [r]⟩ ∧ ∀ p, Thread.Erased cs ⟨calls, pc', log ++ [r]⟩ p ↔
      (cs.take log.length).any (·.erasesAt p) = true ∨ c.erasesAt p = true := by
  have ht := take_succ_of_split hs
  obtain ⟨hcur, hdet⟩ : pc'.current = [] ∧ pc'.detached = none := by
    rcases hpc' with rfl | ⟨_, rfl⟩ <;> exact ⟨rfl, rfl⟩
  refine ⟨⟨?_, ?_⟩, fun p => ?_⟩
  · simp only [List.length_append, List.length_singleton, ht, hcur, List.append_nil,
      List.append_assoc, List.singleton_append]
    exact hs
  · rintro it st a rfl; rcases hpc' with h | ⟨_, h⟩ <;> cases h
  · simp [Thread.Erased, ht, hdet]

/-- The step that ends the call a thread at `pc` is in, returning or stopping: it keeps
the thread's bookkeeping and what it has erased, and erases something new only where
the erase was past `detach` already or there is no slot. -/
theorem EraseThread.finish_step (m₀ : Map K V) {m : Map K V} {cs calls : List (Call K V)} {log : List Ret}
    {call : Call K V} {r : Ret} {pc pc' : Pc K V} (hs : cs = cs.take log.length ++ [call] ++ calls)
    (hcur : pc.current = [call]) (hpc' : pc' = .idle ∨ ∃ pc'', pc' = .fault pc'')
    (hfin : ∀ p st, pc = .erase p st → st.past = true ∨ m.slotAt p = none) :
    EraseThread m₀ cs ⟨calls, pc', log ++ [r]⟩ ∧
      (∀ p, Thread.Erased cs ⟨calls, pc, log⟩ p → Thread.Erased cs ⟨calls, pc', log ++ [r]⟩ p) ∧
      ∀ p, Thread.Erased cs ⟨calls, pc', log ++ [r]⟩ p → Thread.Erased cs ⟨calls, pc, log⟩ p ∨ m.slotAt p = none := by
  obtain ⟨he', hiff⟩ := EraseThread.finish m₀ (r := r) (by simpa using hs) hpc'
  refine ⟨he', fun p hp => (hiff p).mpr ?_, fun p hp => ?_⟩
  · rcases hp with hp | hp
    · exact .inl hp
    · obtain ⟨st, rfl, -⟩ := Pc.detached_eq hp
      simp only [Pc.current, List.cons.injEq, and_true] at hcur
      exact .inr (Call.erasesAt_iff.mpr hcur.symm)
  · rcases (hiff p).mp hp with hp | hp
    · exact .inl (.inl hp)
    · obtain ⟨st, rfl⟩ := Pc.current_erase (hcur.trans (by rw [Call.erasesAt_iff.mp hp]))
      rcases hfin p st rfl with hd | hd
      · exact .inl (.inr (by simp [Pc.detached, hd]))
      · exact .inr hd

/-- One step of a thread of the workload keeps its bookkeeping and what it has erased,
and erases something new only at `detach`'s move or at a position with no slot. -/
theorem EraseThread.step {c : Bool} {m m' : Map K V} {cs : List (Call K V)} {th th' : Thread K V}
    (he : EraseThread m₀ cs th) (hw : th.lookupOrErase)
    (hptr : ∀ q sl a, m.slotAt q = some sl → sl.ptr = some a → m₀.ptrAt q.bucket q.offset = some a)
    (h : threadStep tr c m th = some (m', th')) :
    EraseThread m₀ cs th' ∧ (∀ p, th.Erased cs p → th'.Erased cs p) ∧
      ∀ p, th'.Erased cs p → th.Erased cs p ∨ (th.pc = .erase p .detach ∧ th'.pc.detached = some p) ∨
        m.slotAt p = none := by
  obtain ⟨calls, pc, log⟩ := th
  obtain ⟨hs, hblk⟩ := he
  rcases threadStep_cases h with ⟨call, rest, hpc, hcalls, rfl, rfl⟩ | ⟨n, hidle, hst, rfl⟩
  · /- The first step of a call. -/
    simp only at hpc hcalls
    subst hpc hcalls
    simp only [Pc.current, List.append_nil] at hs
    rcases @callStep_next K V tr m call (hw.2 call (List.mem_cons_self _ _)) with
      ⟨pc', hn, hcur, hdet, hblk'⟩ | ⟨hn, hslot⟩
    · rw [hn]
      refine ⟨⟨by simpa [Thread.after, hcur] using hs, fun it st a he => by simp [hblk' it st (by simpa [Thread.after] using he)]⟩,
        fun p hp => ?_, fun p hp => ?_⟩
      · rcases hp with hp | hp
        · exact .inl hp
        · cases hp
      · rcases hp with hp | hp
        · exact .inl (.inl hp)
        · simp [Thread.after, hdet] at hp
    · generalize (callStep tr m call).2 = n at hn
      have hpc' : (Pc.idle.after n : Pc K V) = .idle ∨ ∃ pc, (Pc.idle.after n : Pc K V) = .fault pc := by
        cases n with
        | go pc' => exact absurd rfl (hn pc')
        | ret _ => exact .inl rfl
        | fault => exact .inr ⟨_, rfl⟩
      obtain ⟨r, hth⟩ : ∃ r, Thread.after ⟨call :: rest, .idle, log⟩ rest n = ⟨rest, Pc.idle.after n, log ++ [r]⟩ := by
        cases n with
        | go pc' => exact absurd rfl (hn pc')
        | ret r => exact ⟨r, rfl⟩
        | fault => exact ⟨.fault, rfl⟩
      rw [hth]
      obtain ⟨he', hiff⟩ := EraseThread.finish m₀ (r := r) hs hpc'
      refine ⟨he', fun p hp => (hiff p).mpr ?_, fun p hp => ?_⟩
      · rcases hp with hp | hp
        · exact .inl hp
        · cases hp
      · rcases (hiff p).mp hp with hp | hp
        · exact .inl (.inl hp)
        · exact .inr (.inr (hslot p hp))
  · /- A step inside a call. -/
    dsimp only at hs hblk hidle hst ⊢
    obtain ⟨-, hm, hlead⟩ := pcStep_slotsMove hw.1 hst
    obtain ⟨call, hcur⟩ : ∃ call, pc.current = [call] := by
      cases pc
      case idle => exact absurd rfl hidle
      case fault => cases hst
      case find | erase => exact ⟨_, rfl⟩
      all_goals simp [Thread.lookupOrErase, Pc.lookupOrErase] at hw
    rw [hcur] at hs
    cases n with
    | go pc' =>
      have hp : pc.Precedes pc' := hlead
      refine ⟨⟨by rw [Thread.after, hp.current, hcur]; exact hs, ?_⟩,
        fun p hp' => ?_, fun p hp' => ?_⟩
      · rintro it st' a rfl hst'
        cases pc with
        | erase it₀ st =>
          obtain ⟨rfl, hpre⟩ := hp
          by_cases hd : st = .detach
          · subst hd
            cases hpre
            obtain ⟨sl, hq, rfl⟩ := hm.detach
            exact hptr _ sl a hq hst'
          · exact hblk _ _ a rfl (hpre.block hd hst')
        | _ => exact (hp : False).elim
      · exact hp'.imp id ((hp.detached p).1)
      · rcases hp' with hp' | hp'
        · exact .inl (.inl hp')
        · rcases (hp.detached p).2 hp' with h | h
          · exact .inl (.inr h)
          · exact .inr (.inl ⟨h, hp'⟩)
    | ret r =>
      have hf := EraseThread.finish_step m₀ (m := m) (r := r) hs hcur (.inl rfl)
        fun p st h => .inl (by rw [hlead p st h]; rfl)
      exact ⟨hf.1, hf.2.1, fun p hp => (hf.2.2 p hp).imp_right .inr⟩
    | fault =>
      have hf := EraseThread.finish_step m₀ (m := m) (r := .fault) hs hcur
        (.inr ⟨pc, rfl⟩ : Pc.fault pc = .idle ∨ ∃ pc'', Pc.fault pc = .fault pc'')
        fun p st h => by
          cases hp : st.past
          · exact .inr (hlead p st h hp)
          · exact .inl rfl
      exact ⟨hf.1, hf.2.1, fun p hp => (hf.2.2 p hp).imp_right .inr⟩

/-! ## A slot against the starting map's -/

/-- The slot at a position, `sl`, against the one the starting map had there, `sl₀`, with
`E` whether an erase has emptied the position and `O` whether one still owes its hash:
none where there was none; else the same pointer and hash, not erased unless null; or
null and erased, with hash 0 or one owed. -/
def SlotState : Option Slot → Option Slot → Prop → Prop → Prop
  | none, sl, _, _ => sl = none
  | some sl₀, sl, E, O => ∃ x, sl = some x ∧
      (x.ptr = sl₀.ptr ∧ x.hash = sl₀.hash ∧ (sl₀.ptr = none ∨ ¬E) ∨ x.ptr = none ∧ E ∧ (x.hash = 0 ∨ O))

/-- A slot's pointer is the starting map's, when it has one. -/
theorem SlotState.ptr {sl₀ : Option Slot} {x : Slot} {E O : Prop} (h : SlotState sl₀ (some x) E O)
    {a : Nat} (ha : x.ptr = some a) : sl₀.bind Slot.ptr = some a := by
  cases sl₀ with
  | none => cases h
  | some sl₀ =>
    obtain ⟨x, hx, ⟨hp, -⟩ | ⟨hp, -⟩⟩ := h <;> cases hx
    · rw [Option.some_bind, ← hp, ha]
    · rw [hp] at ha; cases ha

/-- A step that keeps a slot's pointer and hash keeps its state, when it keeps what was
erased and owed there, and erases there anew only where there is no slot. -/
theorem SlotState.frame {sl₀ sl sl' : Option Slot} {E E' O O' : Prop} (h : SlotState sl₀ sl E O)
    (hs : sl'.map (fun x => (x.ptr, x.hash)) = sl.map (fun x => (x.ptr, x.hash)))
    (hE : E → E') (hE' : E' → E ∨ sl = none) (hO : O → O') : SlotState sl₀ sl' E' O' := by
  cases sl₀ with
  | none => cases h; cases sl' <;> simp_all [SlotState]
  | some sl₀ =>
    obtain ⟨x, rfl, hx⟩ := h
    obtain ⟨x', rfl, hpx⟩ : ∃ x', sl' = some x' ∧ x'.ptr = x.ptr ∧ x'.hash = x.hash := by
      cases sl' <;> simp_all
    refine ⟨x', rfl, ?_⟩
    rcases hx with ⟨hp, hh, hn⟩ | ⟨hp, he, hh⟩
    · refine .inl ⟨hpx.1.trans hp, hpx.2.trans hh, hn.imp_right fun hne he' => ?_⟩
      rcases hE' he' with he | he
      · exact hne he
      · cases he
    · exact .inr ⟨hpx.1.trans hp, hE he, hpx.2 ▸ hh.imp_right hO⟩

/-- `detach`'s move at the position: its slot is null and erased, and when it held a value,
its hash is owed. -/
theorem SlotState.moveOut {sl₀ : Option Slot} {x : Slot} {E E' O O' : Prop} (h : SlotState sl₀ (some x) E O)
    (hE' : E') (hO : O → O') (hO' : x.ptr.isSome → O') : SlotState sl₀ (some x.moveOut) E' O' := by
  cases sl₀ with
  | none => cases h
  | some sl₀ =>
    obtain ⟨x, hx, hst⟩ := h
    cases hx
    refine ⟨_, rfl, ?_⟩
    rcases hst with ⟨hp, hh, -⟩ | ⟨-, -, hh⟩
    · cases hsp : sl₀.ptr with
      | none => exact .inl ⟨rfl, hh, .inl rfl⟩
      | some a => exact .inr ⟨rfl, hE', .inr (hO' (by rw [hp, hsp]; rfl))⟩
    · exact .inr ⟨rfl, hE', hh.imp_right hO⟩

/-- `if(i) hash=0;` at an erased position whose starting slot held a value. -/
theorem SlotState.clearHash {sl₀ : Option Slot} {x : Slot} {E E' O O' : Prop} (h : SlotState sl₀ (some x) E O)
    (hE : E) (hE' : E → E') {a : Nat} (hlive : sl₀.bind Slot.ptr = some a) :
    SlotState sl₀ (some { x with hash := 0 }) E' O' := by
  cases sl₀ with
  | none => cases h
  | some sl₀ =>
    obtain ⟨x, hx, hst⟩ := h
    cases hx
    refine ⟨_, rfl, ?_⟩
    rcases hst with ⟨-, -, hn | hn⟩ | ⟨hp, -, -⟩
    · simp [hn] at hlive
    · exact absurd hE hn
    · exact .inr ⟨hp, hE' hE, .inl rfl⟩

theorem Map.ptrAt_eq_slotAt (m : Map K V) (p : Iter) : m.ptrAt p.bucket p.offset = (m.slotAt p).bind Slot.ptr := rfl

/-- A write of one slot that keeps its pointer and hash keeps every slot's. -/
theorem Map.slotAt_ptr_hash {m m' : Map K V} {q : Iter} {sl sl' : Slot} (hq : m.slotAt q = some sl)
    (hs : ∀ p, m'.slotAt p = if p = q then some sl' else m.slotAt p) (hp : sl'.ptr = sl.ptr)
    (hh : sl'.hash = sl.hash) (p : Iter) :
    (m'.slotAt p).map (fun x => (x.ptr, x.hash)) = (m.slotAt p).map (fun x => (x.ptr, x.hash)) := by
  rw [hs]
  split
  · subst_vars; rw [hq, Option.map_some', Option.map_some', hp, hh]
  · rfl

/-- Past `detach`, `erase` holds no slot. -/
theorem Pc.slotHeld_of_past {it : Iter} {st : EraseSt} (h : st.past = true) :
    (Pc.erase it st : Pc K V).slotHeld = none := by
  cases st <;> first | rfl | cases h

/-- Through a step of a thread at `pc` every position keeps its `SlotState`, `E` and `O`
before and `E'` and `O'` after, when what is erased grows only by `detach`'s move or
where there is no slot, and what is owed is lost only by the thread that owed it. -/
theorem SlotsMove.slotState {m m' : Map K V} {pc pc' : Pc K V} {E E' O O' : Iter → Prop}
    (hm : SlotsMove m pc m' pc') (hst : ∀ p, SlotState (m₀.slotAt p) (m.slotAt p) (E p) (O p))
    (hE : ∀ p, E p → E' p)
    (hE' : ∀ p, E' p → E p ∨ (pc = .erase p .detach ∧ pc'.detached = some p) ∨ m.slotAt p = none)
    (hO : ∀ p, O p → O' p ∨ pc.hashOwed = some p) (hO' : ∀ p, pc'.hashOwed = some p → O' p)
    (hdet : ∀ p, pc.detached = some p → E p) (hdet' : ∀ p, pc'.detached = some p → E' p)
    (hblk : ∀ it a, pc = .erase it (.reset (some a)) → m₀.ptrAt it.bucket it.offset = some a) (p : Iter) :
    SlotState (m₀.slotAt p) (m'.slotAt p) (E' p) (O' p) := by
  /- Where the step writes no pointer or hash, and the thread neither gets past `detach`
  there nor stops owing its hash, the state stays. -/
  have frame : (m'.slotAt p).map (fun x => (x.ptr, x.hash)) = (m.slotAt p).map (fun x => (x.ptr, x.hash)) →
      ¬(pc = .erase p .detach ∧ pc'.detached = some p) → (pc.hashOwed = some p → O' p) →
      SlotState (m₀.slotAt p) (m'.slotAt p) (E' p) (O' p) := fun hs hd ho =>
    (hst p).frame hs (hE p) (fun he => (hE' p he).imp_right fun h => h.resolve_left hd)
      fun h => (hO p h).elim id ho
  cases hm with
  | keep hs _ hh ho =>
    refine frame (by rw [hs]) (fun ⟨hpc, hd⟩ => ?_) fun h => hO' p (ho.trans h)
    obtain ⟨st, rfl, hpast⟩ := Pc.detached_eq hd
    subst hpc
    rw [Pc.slotHeld_of_past hpast] at hh
    cases hh
  | lock q sl hq _ hs _ hn _ hpc =>
    have hown : pc.hashOwed = none := by rcases hpc with ⟨_, _, _, rfl⟩ | rfl <;> rfl
    refine frame (Map.slotAt_ptr_hash hq hs rfl rfl p) (fun ⟨h, _⟩ => by rw [h] at hn; cases hn)
      fun h => by rw [hown] at h; cases h
  | unlock q sl hq hs _ _ _ hpc =>
    obtain ⟨k, bi, st, rfl⟩ := hpc
    exact frame (Map.slotAt_ptr_hash hq hs rfl rfl p) (fun ⟨h, _⟩ => by cases h) fun h => by cases h
  | moveOut q sl hq hs _ hpc =>
    subst hpc
    by_cases hpq : p = q
    · subst hpq
      have h1 := hst p
      rw [hq] at h1
      rw [hs, if_pos rfl]
      refine h1.moveOut (hdet' p rfl) (fun h => (hO p h).elim id nofun) fun h => hO' p ?_
      obtain ⟨a, ha⟩ := Option.isSome_iff_exists.mp h
      rw [ha]; rfl
    · refine frame (by rw [hs, if_neg hpq]) (fun ⟨h, _⟩ => hpq (by cases h; rfl)) fun h => by cases h
  | clearHash q sl a hq hs _ hpc =>
    subst hpc
    by_cases hpq : p = q
    · subst hpq
      have h1 := hst p
      rw [hq] at h1
      rw [hs, if_pos rfl]
      exact h1.clearHash (hdet p rfl) (hE p)
        (by rw [← Map.ptrAt_eq_slotAt]; exact hblk p a rfl)
    · refine frame (by rw [hs, if_neg hpq]) (fun ⟨h, _⟩ => by cases h) fun h => ?_
      simp only [Pc.hashOwed, Option.some.injEq] at h
      exact absurd h.symm hpq
  | block q a hs _ hpc =>
    have hown : pc.hashOwed = none := by rcases hpc with ⟨rfl, -⟩ | ⟨rfl, -⟩ <;> rfl
    refine frame (by rw [hs]) (fun ⟨h, _⟩ => ?_) fun h => by simp [hown] at h
    rcases hpc with ⟨h', -⟩ | ⟨h', -⟩ <;> rw [h] at h' <;> cases h'

/-- Only `deallocate` and `destroy` of a block an erase carries change a block. -/
theorem SlotsMove.block_changed {m m' : Map K V} {pc pc' : Pc K V} (hm : SlotsMove m pc m' pc') {a : Nat}
    (ha : m'.block? a ≠ m.block? a) : ∃ q st, pc = .erase q st ∧ st.block = some a ∧ st.past = true := by
  cases hm with
  | block q a' _ hblk hpc =>
    by_cases haa : a = a'
    · subst haa
      rcases hpc with ⟨rfl, -⟩ | ⟨rfl, -⟩ <;> exact ⟨q, _, rfl, rfl, rfl⟩
    · exact absurd (hblk a haa) ha
  | _ => exact absurd (by simp only [Map.block?, *]) ha

/-! ## The whole system -/

variable {css : List (List (Call K V))}

/-- Some thread of `s`, the `t`-th started with the calls `css[t]`, has erased `p`. -/
def Sys.Erased (css : List (List (Call K V))) (s : Sys K V) (p : Iter) : Prop :=
  ∃ t cs th, css.get? t = some cs ∧ s.threads.get? t = some th ∧ th.Erased cs p

/-- Some thread of `s` still owes the hash of the slot at `p`. -/
def Sys.Owing (s : Sys K V) (p : Iter) : Prop := ∃ t th, s.threads.get? t = some th ∧ th.pc.hashOwed = some p

/-- After a step of thread `t`, from `th` to `th'`: what was erased stays erased when `th'`
keeps what `th` erased, and what is erased is what was or what `th'` erased. -/
theorem Sys.erased_step {s s' : Sys K V} {t : Nat} {cs : List (Call K V)} {th th' : Thread K V}
    (hcs : css.get? t = some cs) (hth : s.threads.get? t = some th) (hthr : s'.threads = s.threads.set t th')
    (p : Iter) : ((th.Erased cs p → th'.Erased cs p) → s.Erased css p → s'.Erased css p) ∧
      (s'.Erased css p → s.Erased css p ∨ th'.Erased cs p) := by
  constructor
  · rintro hmono ⟨u, cs', x, hcs', hx, he⟩
    by_cases hu : u = t
    · subst hu
      obtain rfl := Option.some.inj (hcs'.symm.trans hcs)
      obtain rfl := Option.some.inj (hx.symm.trans hth)
      exact ⟨u, cs', th', hcs', by rw [hthr, List.get?_eq_getElem?, List.getElem?_set_self (List.get?_eq_some.mp hth).1], hmono he⟩
    · exact ⟨u, cs', x, hcs', by rw [hthr, List.get?_eq_getElem?, List.getElem?_set_ne (Ne.symm hu), ← List.get?_eq_getElem?]; exact hx, he⟩
  · rintro ⟨u, cs', x, hcs', hx, he⟩
    rw [hthr] at hx
    rcases get?_set_cases hx with ⟨rfl, rfl⟩ | ⟨-, hx⟩
    · obtain rfl := Option.some.inj (hcs'.symm.trans hcs)
      exact .inr he
    · exact .inl ⟨u, cs', x, hcs', hx, he⟩

/-- After a step of thread `t`, from `th` to `th'`: a hash owed is owed still unless `th`
owed it, and what `th'` owes is owed. -/
theorem Sys.owing_step {s s' : Sys K V} {t : Nat} {th th' : Thread K V} (hth : s.threads.get? t = some th)
    (hthr : s'.threads = s.threads.set t th') (p : Iter) :
    (s.Owing p → s'.Owing p ∨ th.pc.hashOwed = some p) ∧ (th'.pc.hashOwed = some p → s'.Owing p) := by
  refine ⟨fun ⟨u, x, hx, ho⟩ => ?_, fun ho => ⟨t, th', by rw [hthr, List.get?_eq_getElem?, List.getElem?_set_self (List.get?_eq_some.mp hth).1], ho⟩⟩
  by_cases hu : u = t
  · subst hu
    obtain rfl := Option.some.inj (hx.symm.trans hth)
    exact .inr ho
  · exact .inl ⟨u, x, by rw [hthr, List.get?_eq_getElem?, List.getElem?_set_ne (Ne.symm hu), ← List.get?_eq_getElem?]; exact hx, ho⟩

/-- What holds of a workload of lookups and erases, started idle with the calls `css` on
the map `m₀`, at every point of every run. -/
structure Erasing (m₀ : Map K V) (css : List (List (Call K V))) (s : Sys K V) : Prop where
  locks : SlotLocks s
  balanced : Balanced s
  length : s.map.buckets.length = m₀.buckets.length
  count : s.threads.length = css.length
  threads : ∀ t cs th, css.get? t = some cs → s.threads.get? t = some th → EraseThread m₀ cs th
  slots : ∀ p, SlotState (m₀.slotAt p) (s.map.slotAt p) (s.Erased css p) (s.Owing p)
  blocks : ∀ a, s.map.block? a ≠ m₀.block? a → ∃ p : Iter, m₀.ptrAt p.bucket p.offset = some a ∧ s.Erased css p

theorem Erasing.step {s s' : Sys K V} {t : Nat} {c : Bool} (he : Erasing m₀ css s)
    (h : step tr s t c = some s') : Erasing m₀ css s' := by
  obtain ⟨th, th', hth, hts, hthr⟩ := step_eq h
  have hw := he.locks.threads th (List.get?_mem hth)
  obtain ⟨hlen, hm, -⟩ := threadStep_slotsMove hw hts
  obtain ⟨cs, hcs⟩ : ∃ cs, css.get? t = some cs := by
    have ht : t < css.length := he.count ▸ (List.get?_eq_some.mp hth).1
    exact ⟨_, (List.get?_eq_getElem? _ _).trans (List.getElem?_eq_getElem ht)⟩
  have het := he.threads t cs th hcs hth
  obtain ⟨het', hmono, hnew⟩ := het.step hw
    (fun q sl a hq ha => by rw [Map.ptrAt_eq_slotAt]; exact (hq ▸ he.slots q).ptr ha) hts
  have hE := fun p => Sys.erased_step hcs hth hthr p
  have hO := fun p => Sys.owing_step hth hthr p
  have hdet : ∀ p, th.pc.detached = some p → s.Erased css p := fun p hd => ⟨t, cs, th, hcs, hth, .inr hd⟩
  refine ⟨he.locks.step h, balanced_step he.balanced h ?_, by rw [hlen, he.length],
    by rw [hthr, List.length_set, he.count], fun u cs' x hcs' hx => ?_, fun p => ?_, fun a ha => ?_⟩
  · intro x hx n rest _ hc
    obtain rfl := Option.some.inj (hx.symm.trans hth)
    exact Bool.false_ne_true (hw.2 (.reserve n) (by rw [hc]; exact List.mem_cons_self _ _))
  · rw [hthr] at hx
    rcases get?_set_cases hx with ⟨rfl, rfl⟩ | ⟨-, hx⟩
    · obtain rfl := Option.some.inj (hcs'.symm.trans hcs)
      exact het'
    · exact he.threads u cs' x hcs' hx
  · refine hm.slotState he.slots (fun p => (hE p).1 (hmono p)) (fun p hp => ?_) (fun p => (hO p).1)
      (fun p => (hO p).2) hdet (fun p hd => ⟨t, cs, th', hcs, by rw [hthr, List.get?_eq_getElem?, List.getElem?_set_self (List.get?_eq_some.mp hth).1], .inr hd⟩)
      (fun it a hpc => het.block it _ a hpc rfl) p
    · rcases (hE p).2 hp with hp | hp
      · exact .inl hp
      · exact (hnew p hp).imp_left fun hp => ⟨t, cs, th, hcs, hth, hp⟩
  · by_cases hold : s.map.block? a = m₀.block? a
    · obtain ⟨q, st, hpc, hb, hpast⟩ := hm.block_changed (by rwa [← hold] at ha)
      exact ⟨q, het.block q st a hpc hb, (hE q).1 (hmono q) (hdet q (by simp [hpc, Pc.detached, hpast]))⟩
    · obtain ⟨q, hq, hEq⟩ := he.blocks a hold
      exact ⟨q, hq, (hE q).1 (hmono q) hEq⟩

theorem Steps.erasing {s s' : Sys K V} (h : Steps tr s s') (he : Erasing m₀ css s) : Erasing m₀ css s' := by
  induction h with
  | refl => exact he
  | step t c hs _ ih => exact ih (he.step hs)

theorem erasing_init (hf : ∀ cs ∈ css, ∀ c ∈ cs, c.lookupOrErase) (hc : Coherent tr m₀) :
    Erasing m₀ css (Sys.init m₀ css) := by
  have hth : ∀ t th, (Sys.init m₀ css).threads.get? t = some th →
      ∃ cs, css.get? t = some cs ∧ th = ⟨cs, .idle, []⟩ := fun t th h => by
    simp only [Sys.init, List.get?_eq_getElem?, List.getElem?_map] at h
    obtain ⟨cs, hcs, rfl⟩ := Option.map_eq_some'.mp h
    exact ⟨cs, by rwa [List.get?_eq_getElem?], rfl⟩
  have hE : ∀ p, ¬ (Sys.init m₀ css).Erased css p := by
    rintro p ⟨t, cs, th, -, hth', he⟩
    obtain ⟨_, _, rfl⟩ := hth t th hth'
    simp [Thread.Erased, Pc.detached] at he
  refine ⟨slotLocks_init hf hc.lockedAt, balanced_of_atRest hc.atRest (quiet_init m₀ css), rfl,
    by simp [Sys.init], fun t cs th hcs hth' => ?_, fun p => ?_, fun a ha => absurd rfl ha⟩
  · obtain ⟨cs', hcs', rfl⟩ := hth t th hth'
    obtain rfl := Option.some.inj (hcs'.symm.trans hcs)
    exact ⟨by simp [Pc.current], fun _ _ _ h => by cases h⟩
  · show SlotState (m₀.slotAt p) (m₀.slotAt p) _ _
    cases m₀.slotAt p with
    | none => rfl
    | some sl₀ => exact ⟨sl₀, rfl, .inl ⟨rfl, rfl, .inr (hE p)⟩⟩

/-- Buckets with slots at the same offsets have as many. -/
theorem Bucket.count_eq_of_slot? {b b' : Bucket} (h : ∀ o, (b'.slot? o).isSome = (b.slot? o).isSome) :
    b'.count = b.count := by
  have key : ∀ {b b' : Bucket}, (∀ o, (b'.slot? o).isSome = (b.slot? o).isSome) → b.count ≤ b'.count := by
    intro b b' h
    by_contra hlt
    obtain ⟨sl, hsl⟩ := Bucket.slot?_of_lt_count (Nat.lt_of_not_le hlt)
    obtain ⟨sl', hsl'⟩ := Option.isSome_iff_exists.mp ((h b'.count).trans (by rw [hsl]; rfl))
    exact absurd (Bucket.lt_count_of_slot? hsl') (lt_irrefl _)
  exact Nat.le_antisymm (key fun o => (h o).symm) (key h)

/-- Once every thread of a workload of lookups and erases has made all its calls, from a
coherent map where no two slots point at one block: the map is coherent, and it
dereferences as the starting map did except at the positions an erase named. -/
theorem Erasing.quiescent {s : Sys K V} (he : Erasing m₀ css s) (hc : Coherent tr m₀)
    (hu : ∀ b i b' i' a, m₀.ptrAt b i = some a → m₀.ptrAt b' i' = some a → b = b' ∧ i = i')
    (hq : ∀ th ∈ s.threads, th.pc = .idle ∧ th.calls = []) :
    Coherent tr s.map ∧ ∀ p, s.map.deref? p = if erasedBy css p then none else m₀.deref? p := by
  have hdone : ∀ t cs th, css.get? t = some cs → s.threads.get? t = some th → cs.take th.log.length = cs := by
    intro t cs th hcs hth
    have hs := (he.threads t cs th hcs hth).split
    rw [(hq th (List.get?_mem hth)).1, (hq th (List.get?_mem hth)).2] at hs
    simpa [Pc.current] using hs.symm
  /- What is erased is what the calls name. -/
  have hE : ∀ p, s.Erased css p ↔ erasedBy css p = true := by
    intro p
    constructor
    · rintro ⟨t, cs, th, hcs, hth, hp | hp⟩
      · rw [hdone t cs th hcs hth] at hp
        exact List.any_eq_true.mpr ⟨cs, List.get?_mem hcs, hp⟩
      · rw [(hq th (List.get?_mem hth)).1] at hp; cases hp
    · intro h
      obtain ⟨cs, hmem, hany⟩ := List.any_eq_true.mp h
      obtain ⟨t, hcs⟩ := List.mem_iff_get?.mp hmem
      have ht : t < s.threads.length := he.count ▸ (List.get?_eq_some.mp hcs).1
      obtain ⟨th, hth⟩ : ∃ th, s.threads.get? t = some th :=
        ⟨_, (List.get?_eq_getElem? _ _).trans (List.getElem?_eq_getElem ht)⟩
      exact ⟨t, cs, th, hcs, hth, .inl (by rw [hdone t cs th hcs hth]; exact hany)⟩
  have hO : ∀ p, ¬ s.Owing p := by
    rintro p ⟨t, th, hth, ho⟩
    rw [(hq th (List.get?_mem hth)).1] at ho; cases ho
  have hfree : ∀ p, s.map.lockedAt p = false := fun p => by
    have h0 : slotHolders s p = 0 :=
      List.countP_eq_zero.mpr fun th hth => by simp [(hq th hth).1, Pc.slotHeld]
    simpa [h0] using he.locks.locked p
  /- Each slot is the starting one, or `Slot.zero` where an erase named it. -/
  have hslot : ∀ b o, (s.map.bucketD b).slot? o = if erasedBy css ⟨b, o⟩ then
      ((m₀.bucketD b).slot? o).map (fun _ => Slot.zero) else (m₀.bucketD b).slot? o := by
    intro b o
    have hst := he.slots ⟨b, o⟩
    have hl := hfree ⟨b, o⟩
    simp only [Map.slotAt_mk, Map.lockedAt] at hst hl
    cases h0 : (m₀.bucketD b).slot? o with
    | none =>
      rw [h0] at hst
      rw [show (s.map.bucketD b).slot? o = none from hst]
      split <;> rfl
    | some sl₀ =>
      rw [h0] at hst
      obtain ⟨x, hx, hcase⟩ := hst
      rw [hx] at hl ⊢
      obtain ⟨hl₀, hco⟩ := hc.slot h0
      rcases hcase with ⟨hp, hh, hn⟩ | ⟨hp, hEr, hh⟩
      · have hx0 : x = sl₀ := Slot.ext hp (hl.trans hl₀.symm) hh
        split
        · have hnull := hn.resolve_right (not_not.mpr ((hE _).mpr ‹_›))
          simp only [hnull] at hco
          simp only [Option.map_some', Option.some.injEq]
          exact Slot.ext (hp.trans hnull) hl (hh.trans hco)
        · rw [hx0]
      · rw [if_pos ((hE _).mp hEr)]
        exact congrArg some (Slot.ext hp hl (hh.resolve_right (hO _)))
  have hblk : ∀ b o a, erasedBy css ⟨b, o⟩ = false → m₀.ptrAt b o = some a → s.map.block? a = m₀.block? a := by
    intro b o a hn hp
    by_contra hne
    obtain ⟨q, hq', hEq⟩ := he.blocks a hne
    obtain ⟨qb, qo⟩ := q
    obtain ⟨rfl, rfl⟩ := hu _ _ _ _ a hq' hp
    rw [(hE _).mp hEq] at hn
    cases hn
  exact hc.erasedAt (erasedBy css) (he.balanced.atRest (quiet_of_idle fun th hth => (hq th hth).1))
    he.length hslot hblk

/-- Erases and lookups side by side, to the end: in every interleaving of threads that
only look up and erase, started idle on a coherent map where no two slots point at one
block, once every thread has made all its calls, the map is coherent, and it holds the
pairs it held but those at the positions an erase named. -/
theorem Steps.erasures_quiesce {s : Sys K V} (hf : ∀ cs ∈ css, ∀ c ∈ cs, c.lookupOrErase)
    (hc : Coherent tr m₀) (hu : ∀ b i b' i' a, m₀.ptrAt b i = some a → m₀.ptrAt b' i' = some a → b = b' ∧ i = i')
    (h : Steps tr (Sys.init m₀ css) s) (hq : ∀ th ∈ s.threads, th.pc = .idle ∧ th.calls = []) :
    Coherent tr s.map ∧
      s.map.contents = (m₀.livePositions.filter fun p => !erasedBy css p).filterMap m₀.deref? := by
  have he := h.erasing (erasing_init hf hc)
  obtain ⟨hc', hd⟩ := he.quiescent hc hu hq
  refine ⟨hc', Map.contents_of_erased _ he.length (fun b => Bucket.count_eq_of_slot? fun o => ?_) hd⟩
  have := he.slots ⟨b, o⟩
  simp only [Map.slotAt_mk] at this
  cases h0 : (m₀.bucketD b).slot? o with
  | none => rw [h0] at this; simp [SlotState] at this; simp [this]
  | some sl₀ => rw [h0] at this; obtain ⟨x, hx, -⟩ := this; simp [hx]

end

/-- Two erases of slot 0 side by side: the second locks the slot after the first moved its
pointer out, finds it null, and does no more; the first then zeroes the hash and frees
the value.  The map ends coherent and empty. -/
theorem erasures_quiesce_double_erase :
    ∃ s, run intTraits (Sys.init (Map.withEntry intTraits 5 5 1) [[.erase ⟨0, 0⟩], [.erase ⟨0, 0⟩]])
        (List.replicate 5 (0, true) ++ List.replicate 8 (1, true) ++ List.replicate 5 (0, true)) = some s ∧
      (∀ th ∈ s.threads, th.pc = .idle ∧ th.calls = []) ∧ s.map.contents = [] ∧
      Coherent intTraits s.map ∧ s.map.contents =
        ((Map.withEntry intTraits 5 5 1 : Map Nat Nat).livePositions.filter
          fun p => !erasedBy [[(Call.erase ⟨0, 0⟩ : Call Nat Nat)], [.erase ⟨0, 0⟩]] p).filterMap
          (Map.withEntry intTraits 5 5 1 : Map Nat Nat).deref? := by
  have hr : run intTraits (Sys.init (Map.withEntry intTraits 5 5 1) [[.erase ⟨0, 0⟩], [.erase ⟨0, 0⟩]])
      (List.replicate 5 (0, true) ++ List.replicate 8 (1, true) ++ List.replicate 5 (0, true)) =
      some ⟨⟨1, [⟨2, 2, false, some [⟨none, false, 0⟩, Slot.zero]⟩], [⟨1, none, 1, [8]⟩]⟩,
        [⟨[], .idle, [.iter ⟨0, 1⟩]⟩, ⟨[], .idle, [.iter ⟨0, 1⟩]⟩]⟩ := by
    decide
  have hq : ∀ th ∈ ([⟨[], .idle, [.iter ⟨0, 1⟩]⟩, ⟨[], .idle, [.iter ⟨0, 1⟩]⟩] : List (Thread Nat Nat)),
      th.pc = .idle ∧ th.calls = [] := by decide
  exact ⟨_, hr, hq, by decide, Steps.erasures_quiesce (by decide) (Map.coherent_withEntry 5 5 1)
    (Sys.owned_withEntry intTraits 5 5 1 [[.erase ⟨0, 0⟩], [.erase ⟨0, 0⟩]]).unique (Steps.of_run _ hr) hq⟩

end ConcurrentUnorderedMap
