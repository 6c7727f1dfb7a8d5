/-
# `ConcurrentUnorderedMap.Insert` — what `_size` counts, and a key stored twice

**`_size` counts the inserts that returned `true`.**  `++_size` and the `true` return
are the last step of `insert`, and nothing else changes `_size` but `clear`
(`pcStep_size`).  So on every run in which no thread calls `clear`, `_size` has grown
by exactly the number of inserts that returned `true` (`Steps.size_add_inserted`),
whatever the interleaving.

**Keys from construction.**  No bucket ever has a slot, so no insert returns `true`,
no live slot holds a key, and `_size` stays at the `0` it counts.  (`insert` has no
second key comparison under the slot lock; two inserts of one key that both miss would
both store it, on buckets the code's own growth does not produce.)

**Proved here.**

    a step moves _size by one exactly when it returns true, outside clear     (`threadStep_size`)
    with no clear, _size + (true returns before) = _size₀ + (true returns after) (`Steps.size_add_inserted`)
    from construction no two live slots hold equal keys, no insert returns
    true, and _size counts the true returns                                   (`fresh_keys_distinct`)
-/
import ConcurrentUnorderedMap.Construction

namespace ConcurrentUnorderedMap

/-- An insert that returned `second == true`. -/
def Ret.inserted : Ret → Bool
  | .pair _ true => true
  | _ => false

/-- Replacing the element `x` at `t` by `y` trades `x`'s matches for `y`'s. -/
theorem countP_flatMap_set {α β : Type} (g : α → List β) (p : β → Bool) :
    ∀ {l : List α} {t : Nat} {x : α}, l.get? t = some x → ∀ y,
      ((l.set t y).flatMap g).countP p + (g x).countP p = (l.flatMap g).countP p + (g y).countP p
  | _ :: _, 0, _, h, y => by
    cases h
    simp only [List.set_cons_zero, List.flatMap_cons, List.countP_append]
    omega
  | _ :: _, _ + 1, _, h, y => by
    have := countP_flatMap_set g p (List.get?_cons_succ ▸ h) y
    simp only [List.set_cons_succ, List.flatMap_cons, List.countP_append]
    omega

section
variable {K V : Type} {tr : Traits K}

/-- The inserts that returned `true`, over every thread's log. -/
def Sys.inserted (s : Sys K V) : Nat := (s.threads.flatMap Thread.log).countP Ret.inserted

/-- Inside `clear`. -/
def Pc.clearing : Pc K V → Bool
  | .clear .. | .clearSize => true
  | _ => false

/-- No thread is inside `clear` or has one to make. -/
def NoClear (s : Sys K V) : Prop :=
  ∀ th ∈ s.threads, th.pc.clearing = false ∧ Call.clear ∉ th.calls

/-- No step outside `clear` leads into it. -/
theorem pcStep_clearing {c : Bool} {m m' : Map K V} {pc pc' : Pc K V}
    (hc : pc.clearing = false) (h : pcStep tr c m pc = some (m', .go pc')) :
    pc'.clearing = false := by
  cases pc
  case idle | fault => cases h
  case clear | clearSize => cases hc
  all_goals rename_i st; cases st
  all_goals simp only [pcStep, findStep, insertStep, bucketInsertStep, eraseStep] at h
  case insert.count | bucketInsert.allocate | bucketInsert.construct | bucketInsert.catchFree |
      erase.destroy | erase.free =>
    (repeat' split at h) <;> cases h <;> rfl
  all_goals rcases onBucket_eq h with ⟨-, h'⟩ | ⟨bk, bk', -, hf, -⟩
  all_goals try cases h'
  case find.enter | insert.enter | bucketInsert.claimEnter | bucketInsert.publishEnter |
      bucketInsert.catchEnter | erase.enter =>
    rcases (enter_eq hf).2 with ⟨_, h'⟩ | h' <;> cases h' <;> rfl
  case bucketInsert.resize => rcases (drain_eq hf).2 with ⟨_, h'⟩ | h' <;> cases h' <;> rfl
  all_goals (repeat' split at hf) <;> cases hf <;> rfl

/-- The first step of a call changes no `_size` and returns no insertion. -/
theorem callStep_size (m : Map K V) (call : Call K V) :
    (callStep tr m call).1.size = m.size ∧ ∀ it, (callStep tr m call).2 ≠ .ret (.pair it true) := by
  cases call <;> unfold callStep <;> (repeat' split) <;> exact ⟨rfl, by simp⟩

theorem countP_after_log {th : Thread K V} {calls : List (Call K V)} {n : Next K V}
    (hn : ∀ it, n ≠ .ret (.pair it true)) :
    (th.after calls n).log.countP Ret.inserted = th.log.countP Ret.inserted := by
  cases n with
  | go _ => rfl
  | ret r =>
    cases r <;> simp_all [Thread.after, Ret.inserted]
  | fault => simp [Thread.after, Ret.inserted]

/-- One thread's step outside `clear` moves `_size` by one exactly when it returns `true`. -/
theorem threadStep_size {c : Bool} {m m' : Map K V} {th th' : Thread K V}
    (hc : th.pc.clearing = false) (h : threadStep tr c m th = some (m', th')) :
    m'.size + th.log.countP Ret.inserted = m.size + th'.log.countP Ret.inserted ∧
      th'.pc.clearing = false ∨ (th.pc = .idle ∧ th.calls.head? = some .clear ∧ m' = m) := by
  unfold threadStep at h
  split at h
  · cases h
  · rename_i call rest hi hcalls
    cases h
    obtain ⟨hs, hr⟩ := @callStep_size K V tr m call
    by_cases hcl : call = .clear
    · exact .inr ⟨hi, by simp [hcalls, hcl], by simp [hcl, callStep]⟩
    refine .inl ⟨by rw [hs, countP_after_log hr], ?_⟩
    cases call <;> simp only [Thread.after_pc, callStep, not_true_eq_false] at hcl ⊢ <;>
      (repeat' split) <;> rfl
  · obtain ⟨⟨m₁, n⟩, hs, he⟩ := Option.map_eq_some'.mp h
    cases he
    refine .inl ⟨?_, ?_⟩
    · rcases pcStep_size hs with ⟨hm, hn⟩ | ⟨k, x, bi, hint, o, hpc, hm⟩ | ⟨hpc, -⟩
      · rw [hm, countP_after_log hn]
      · rw [hpc] at hs
        cases hs
        simp [hm, Thread.after, Ret.inserted, hpc]
        omega
      · rw [hpc] at hc; cases hc
    · cases n with
      | go pc' => exact pcStep_clearing hc hs
      | ret _ | fault => rfl

theorem NoClear.step {s s' : Sys K V} {t : Nat} {c : Bool} (hn : NoClear s)
    (h : step tr s t c = some s') :
    NoClear s' ∧ s'.map.size + s.inserted = s.map.size + s'.inserted := by
  obtain ⟨th, th', hth, hs, he⟩ := step_eq h
  have hmem := List.get?_mem hth
  rcases threadStep_size (hn th hmem).1 hs with ⟨hsz, hc⟩ | ⟨-, hcl, -⟩
  · refine ⟨fun x hx => ?_, ?_⟩
    · rw [he] at hx
      rcases List.mem_or_eq_of_mem_set hx with hx | rfl
      · exact hn x hx
      · exact ⟨hc, fun hm => (hn th hmem).2 (threadStep_calls hs _ hm)⟩
    · have hsum := countP_flatMap_set Thread.log Ret.inserted hth th'
      simp only [Sys.inserted, he]
      omega
  · exact absurd (List.mem_of_mem_head? hcl) (hn th hmem).2

/-- On every run with no `clear`, `_size` grows by the number of inserts that returned
`true`. -/
theorem Steps.size_add_inserted {s s' : Sys K V} (h : Steps tr s s') (hn : NoClear s) :
    s'.map.size + s.inserted = s.map.size + s'.inserted := by
  induction h with
  | refl => rfl
  | step _ _ hs _ ih =>
    obtain ⟨hn', he⟩ := hn.step hs
    have := ih hn'
    omega

/-- One insert on a bucket with one empty slot, run to its end: it returns `true` once,
so `_size` is 1. -/
theorem single_insert_counted :
    ∃ s, run intTraits (Sys.init (Map.withSlots 1) [[.insert 7 1]]) (List.replicate 24 (0, true)) =
      some s ∧ s.inserted = 1 ∧ s.map.size = 1 := by
  have hr : (run intTraits (Sys.init (Map.withSlots 1) [[.insert 7 1]])
      (List.replicate 24 (0, true))).map Sys.inserted = some 1 := by
    decide
  obtain ⟨s, hs, hi⟩ := Option.map_eq_some'.mp hr
  have h := Steps.size_add_inserted (Steps.of_run _ hs)
    (by simp [NoClear, Sys.init, Pc.clearing])
  rw [hi] at h
  exact ⟨s, hs, hi, by simpa [Sys.inserted, Sys.init, Map.withSlots] using h⟩

/-! ## Keys from construction -/

/-- The keys of the values the live slots point at, bucket by bucket. -/
def Map.keys (m : Map K V) : List K :=
  m.buckets.flatMap fun b => (b.items.getD []).filterMap fun sl =>
    sl.ptr.bind fun a => (m.block? a).bind fun bl => bl.value.map (·.1)

/-- From construction, whatever the threads call: no two live slots hold keys that
`_key_equal` takes for equal, since none holds a key; no insert has returned `true`; and
`_size` is the number of those that have. -/
theorem fresh_keys_distinct {n : Nat} {css : List (List (Call K V))} {s : Sys K V}
    (h : Steps tr (Sys.init (Map.init n) css) s) :
    s.map.keys.Pairwise (fun a b => tr.keyEqual a b = false) ∧ s.inserted = 0 ∧
      s.map.size = s.inserted := by
  have hu := h.unfilled (unfilled_init n css)
  have hk : s.map.keys = [] := List.flatMap_eq_nil_iff.mpr fun bk hbk => by
    rw [Map.items_of_counts hu.slots bk hbk]; rfl
  have hi : s.inserted = 0 := List.countP_eq_zero.mpr fun r hr hins => by
    obtain ⟨th, hth, hr⟩ := List.mem_flatMap.mp hr
    match r, hins with
    | .pair it true, _ => exact hu.logs th hth it hr
  exact ⟨by rw [hk]; exact List.Pairwise.nil, hi, by rw [hu.size, hi]⟩

end

/-- The three threads of `freshRace`, two of them inserting the key `5`. -/
theorem fresh_race_keys_distinct :
    ∃ s, run intTraits (Sys.init (Map.init 1) freshRace) freshRaceSchedule = some s ∧
      s.map.keys.Pairwise (fun a b => intTraits.keyEqual a b = false) ∧ s.inserted = 0 ∧
        s.map.size = s.inserted :=
  ⟨_, freshRace_run, fresh_keys_distinct (Steps.of_run _ freshRace_run)⟩

end ConcurrentUnorderedMap
