/-
# `ConcurrentUnorderedMap.Exclusion` — with two threads, `using_` keeps `resize` out

`scopes_exclude_resize_fails` takes three threads: one inside its scope, one in
`resize`, and a third whose back-off evens the counters between `resize`'s two loads.
With two threads the wait does what the code's comment says: no thread reallocates or
frees a bucket's `items` while the other is inside a scope on that bucket.

**Why.**  The thread in `resize` or `clear` holds `resize_lock` from before its first
load, so the other cannot enter a scope on the bucket meanwhile (`using_` returns only
past a free lock), and a thread inside a scope moves neither counter
(`BucketMove.counters_stay`).  So while the other thread stays inside, the counter the
first load read stands as it was (`Drain.Tracks`).  It is then the only thread counted,
so `entered` is `exited + 1` and the second load cannot match the first.

**How.**  `pcStep_guarded` says once what a step can do to the three facts this rests
on (`Guarded`): a thread enters a scope only past a free `resize_lock`, a drain's second
load follows its first, and `items` is rewritten only after a second load that matched.
`Excludes` is the invariant of one thread against the other; `Exclusive` adds
`Balanced`, the absence of `reserve`, and the bound of two threads, and every step keeps
it.

**Proved here.**

    what a step can do to scopes, loads and rewrites             (`pcStep_guarded`, `threadStep_guarded`)
    every step of two threads keeps the invariant                 (`Exclusive.step`, `Steps.exclusive`)
    so no reachable state has items rewritten under a scope       (`Exclusive.rewritesInScope`)
-/
import ConcurrentUnorderedMap.Scope

namespace ConcurrentUnorderedMap

section
variable {K V : Type} {tr : Traits K}

/-! ## Drains, scopes and the lock -/

/-- The head of `resize` or `clear` a control is in on bucket `b`. -/
def Pc.drainOn (b : Nat) : Pc K V → Option Drain
  | .bucketInsert _ _ b' _ (.resize _ _ d) | .clear b' (.drain d) => if b' = b then some d else none
  | _ => none

/-- What a drain's first load says while the other thread is `inside` a scope on the
bucket: the value loaded is the counter as it stands. -/
def Drain.Tracks (bk : Bucket) (inside : Bool) : Drain → Prop
  | .second e v => inside → v = Bucket.load (if e then bk.entered else bk.exited)
  | _ => True

theorem Pc.counted_of_inScope {pc : Pc K V} {b : Nat} (h : pc.inScope b) : pc.counted b := by
  unfold Pc.inScope at h; split at h <;> simp_all

/-- A drain is counted nowhere: the scope before `resize` has been left. -/
theorem Pc.counted_of_drainOn {pc : Pc K V} {b : Nat} {d : Drain} (h : pc.drainOn b = some d) :
    pc.counted b = false := by
  unfold Pc.drainOn at h; split at h <;> simp_all

/-- Past its first load a drain holds `resize_lock`. -/
theorem Pc.holds_of_drainOn {pc : Pc K V} {b e v} (h : pc.drainOn b = some (.second e v)) :
    pc.holds b := by
  unfold Pc.drainOn at h; split at h <;> (try split_ifs at h) <;> simp_all

/-- A thread about to rewrite `items` holds `resize_lock` and is counted nowhere. -/
theorem Pc.holds_of_rewritesItems {pc : Pc K V} {b : Nat} (h : pc.rewritesItems b) :
    pc.holds b ∧ pc.counted b = false := by
  unfold Pc.rewritesItems at h; split at h <;> simp_all

theorem Balanced.lock_of_holds {s : Sys K V} (hb : Balanced s) {th : Thread K V} (hth : th ∈ s.threads)
    {b : Nat} (hh : th.pc.holds b) : (s.map.bucketD b).resizeLock = true :=
  (hb.lock b).mpr (List.countP_pos_iff.mpr ⟨th, hth, hh⟩)

/-- Of two threads, when one is counted on a bucket and the other is not, one is in flight. -/
theorem inflight_pair {s : Sys K V} {t u b : Nat} {th th' : Thread K V} (hl : s.threads.length ≤ 2)
    (htu : t ≠ u) (ht : s.threads.get? t = some th) (hu : s.threads.get? u = some th')
    (hc : th.pc.counted b = false) (hc' : th'.pc.counted b) : inflight s b = 1 := by
  have := (List.get?_eq_some.mp ht).1
  have := (List.get?_eq_some.mp hu).1
  obtain ⟨x, y, hxy⟩ := List.length_eq_two.mp (show s.threads.length = 2 by omega)
  unfold inflight
  rw [hxy] at ht hu ⊢
  rcases t with _ | _ | t <;> rcases u with _ | _ | u <;> (try omega) <;> simp_all

/-! ## What a step can do -/

/-- What a step from `pc` to `pc'` on the map `m` can do at bucket `b`, as far as the
exclusion needs it. -/
structure Guarded (m : Map K V) (pc pc' : Pc K V) (b : Nat) : Prop where
  /-- a scope is entered only past a free `resize_lock` -/
  scope : pc'.inScope b → pc.inScope b ∨ (m.bucketD b).resizeLock = false
  /-- a drain's second load follows its first, which loaded the counter -/
  second : ∀ e v, pc'.drainOn b = some (.second e v) → pc.drainOn b = some .first ∧
    v = Bucket.load (if e then (m.bucketD b).entered else (m.bucketD b).exited)
  /-- `items` is rewritten only after a second load that matched -/
  pass : pc'.rewritesItems b → ∃ e v, pc.drainOn b = some (.second e v) ∧
    v = Bucket.load (if e then (m.bucketD b).exited else (m.bucketD b).entered)

/-- The element at `t'` of a list whose element at `t` was replaced. -/
theorem get?_set_cases {α : Type} {l : List α} {t t' : Nat} {x x' : α}
    (h : (l.set t x').get? t' = some x) : (t' = t ∧ x = x') ∨ (t' ≠ t ∧ l.get? t' = some x) := by
  rw [List.get?_eq_getElem?, List.getElem?_set] at h
  split at h
  · split at h <;> simp_all
  · exact .inr ⟨Ne.symm ‹_›, by rwa [List.get?_eq_getElem?]⟩

/-- A step that enters no scope, makes no load and rewrites nothing. -/
theorem Guarded.plain {m : Map K V} {pc pc' : Pc K V} {b : Nat} (hs : pc'.inScope b → pc.inScope b)
    (hd : ∀ e v, pc'.drainOn b ≠ some (.second e v)) (hr : pc'.rewritesItems b = false) :
    Guarded m pc pc' b :=
  ⟨fun h => .inl (hs h), fun e v h => absurd h (hd e v), fun h => by simp [hr] at h⟩

/-- `using_`'s constructor returns only from its check, and only past a free lock. -/
theorem enter_done {b b' : Bucket} {e : Entry} {stay : Entry → Pc K V} {done : Pc K V}
    {n : Next K V} (h : enter b e stay done = some (b', n)) :
    (∃ e', n = .go (stay e')) ∨ (n = .go done ∧ b.resizeLock = false) := by
  unfold enter at h
  obtain ⟨⟨b₁, e'⟩, hu, he⟩ := Option.map_eq_some'.mp h
  cases he
  cases e' with
  | some e' => exact .inl ⟨e', rfl⟩
  | none =>
    refine .inr ⟨rfl, ?_⟩
    cases e <;> simp only [usingStep] at hu <;> (try split at hu) <;> simp_all

/-- The drain's steps: its second load follows its first, and it passes only when the
two loads match. -/
theorem drainStep_next {c : Bool} {b b' : Bucket} {d : Drain} {r : Option Drain}
    (h : drainStep c b d = some (b', r)) :
    (∀ e v, r = some (.second e v) → d = .first ∧ v = Bucket.load (if e then b.entered else b.exited)) ∧
      (r = none → ∃ e v, d = .second e v ∧ v = Bucket.load (if e then b.exited else b.entered)) := by
  cases d <;> simp only [drainStep] at h <;> (try split at h) <;>
    simp only [Option.some.injEq, Prod.mk.injEq, reduceCtorEq] at h <;> obtain ⟨rfl, rfl⟩ := h <;>
    simp_all

/-- A drain step of `resize` or `clear` on bucket `bi`, as `Guarded` sees it. -/
theorem drain_guarded {c : Bool} {m : Map K V} {pc : Pc K V} {bi b : Nat} {bk bk' : Bucket}
    {d : Drain} {stay : Drain → Pc K V} {done : Pc K V} {n : Next K V}
    (hb : m.bucket? bi = some bk) (h : drain c bk d stay done = some (bk', n))
    (hpc : pc.drainOn b = if bi = b then some d else none)
    (hs : ∀ d', (stay d').inScope b = false ∧ (stay d').drainOn b = (if bi = b then some d' else none) ∧
      (stay d').rewritesItems b = false)
    (hd : done.inScope b = false ∧ done.drainOn b = none ∧ done.rewritesItems b = (bi == b)) :
    Guarded m pc (pc.after n) b := by
  have hD : m.bucketD bi = bk := by simp [Map.bucketD, hb]
  unfold drain at h
  obtain ⟨⟨b₁, r⟩, hu, he⟩ := Option.map_eq_some'.mp h
  cases he
  obtain ⟨hsec, hpass⟩ := drainStep_next hu
  cases r with
  | some d' =>
    refine ⟨fun h => by simp [(hs d').1] at h, fun e v h => ?_, fun h => by simp [(hs d').2.2] at h⟩
    simp only [Pc.after, (hs d').2.1] at h
    split_ifs at h with hbi
    subst hbi
    obtain ⟨rfl, rfl⟩ := hsec e v h
    simp [hpc, hD]
  | none =>
    refine ⟨fun h => by simp [hd.1] at h, fun e v h => by simp [hd.2.1] at h, fun h => ?_⟩
    simp only [Pc.after, hd.2.2, beq_iff_eq] at h
    subst h
    obtain ⟨e, v, rfl, hv⟩ := hpass rfl
    exact ⟨e, v, by simp [hpc], by rw [hD]; exact hv⟩

/-- A step of `using_`'s constructor on bucket `bi`, as `Guarded` sees it. -/
theorem enter_guarded {m : Map K V} {pc : Pc K V} {bi b : Nat} {bk bk' : Bucket}
    {e : Entry} {stay : Entry → Pc K V} {done : Pc K V} {n : Next K V}
    (hb : m.bucket? bi = some bk) (h : enter bk e stay done = some (bk', n))
    (hs : ∀ e', (stay e').inScope b = false ∧ (stay e').drainOn b = none ∧ (stay e').rewritesItems b = false)
    (hd : (done.inScope b → bi = b) ∧ done.drainOn b = none ∧ done.rewritesItems b = false) :
    Guarded m pc (pc.after n) b := by
  rcases enter_done h with ⟨e', rfl⟩ | ⟨rfl, hl⟩
  · exact Guarded.plain (by simp [(hs e').1]) (by simp [(hs e').2.1]) (hs e').2.2
  · refine ⟨fun h => .inr ?_, by simp [hd.2.1], by simp [hd.2.2]⟩
    obtain rfl := hd.1 h
    simpa [Map.bucketD, hb] using hl

/-- A step on `_buckets[bi]` is guarded when its body is; one past the vector faults. -/
theorem onBucket_guarded {m m' : Map K V} {pc : Pc K V} {bi b : Nat}
    {f : Bucket → Option (Bucket × Next K V)} {n : Next K V} (h : onBucket m bi f = some (m', n))
    (hf : ∀ bk bk', m.bucket? bi = some bk → f bk = some (bk', n) → Guarded m pc (pc.after n) b) :
    Guarded m pc (pc.after n) b := by
  rcases onBucket_eq h with ⟨rfl, rfl⟩ | ⟨bk, bk', hb, hf', rfl⟩
  · exact Guarded.plain (by simp [Pc.inScope]) (by simp [Pc.drainOn]) rfl
  · exact hf bk bk' hb hf'

/-- Every step inside a call is guarded. -/
theorem pcStep_guarded {c : Bool} {m m' : Map K V} {pc : Pc K V} {n : Next K V}
    (h : pcStep tr c m pc = some (m', n)) (b : Nat) : Guarded m pc (pc.after n) b := by
  cases pc
  case idle | fault => cases h
  case clearSize => cases h; exact Guarded.plain (by simp [Pc.inScope]) (by simp [Pc.drainOn]) rfl
  all_goals rename_i st; cases st
  all_goals simp only [pcStep, findStep, insertStep, bucketInsertStep, eraseStep, clearStep] at h
  case insert.count | bucketInsert.allocate | bucketInsert.construct | bucketInsert.catchFree |
      erase.destroy | erase.free | clear.free =>
    (repeat' split at h) <;> cases h <;>
      exact Guarded.plain (by simp [Pc.inScope]) (by simp [Pc.drainOn]) rfl
  case find.enter | insert.enter | bucketInsert.claimEnter | bucketInsert.publishEnter |
      bucketInsert.catchEnter | erase.enter =>
    exact onBucket_guarded h fun _ _ hb hf => enter_guarded hb hf
      (fun _ => ⟨by simp [Pc.inScope], rfl, rfl⟩) ⟨by simp [Pc.inScope], rfl, rfl⟩
  case bucketInsert.resize | clear.drain =>
    exact onBucket_guarded h fun _ _ hb hf => drain_guarded hb hf rfl
      (fun _ => ⟨by simp [Pc.inScope], rfl, rfl⟩) ⟨by simp [Pc.inScope], rfl, rfl⟩
  all_goals refine onBucket_guarded h fun bk bk' _ hf => ?_
  all_goals (repeat' split at hf) <;> simp only [Option.some.injEq, Prod.mk.injEq, reduceCtorEq] at hf
  all_goals obtain ⟨rfl, rfl⟩ := hf
  all_goals exact Guarded.plain (by simp [Pc.inScope]) (by simp [Pc.drainOn]) rfl

/-- The first step of a call enters no scope and starts no load. -/
theorem callStep_guarded (m : Map K V) (call : Call K V) (b : Nat) :
    Guarded m .idle (Pc.idle.after (callStep tr m call).2) b := by
  cases call <;> simp only [callStep] <;> (repeat' split) <;>
    exact Guarded.plain (by simp [Pc.inScope]) (by simp [Pc.drainOn]) rfl

theorem threadStep_guarded {c : Bool} {m m' : Map K V} {th th' : Thread K V}
    (h : threadStep tr c m th = some (m', th')) (b : Nat) : Guarded m th.pc th'.pc b := by
  unfold threadStep at h
  split at h
  · cases h
  · rename_i call rest hpc _
    simp only [Option.some.injEq, Prod.mk.injEq] at h
    obtain ⟨rfl, rfl⟩ := h
    simpa [hpc] using @callStep_guarded K V tr m call b
  · obtain ⟨⟨m₁, n⟩, hs, he⟩ := Option.map_eq_some'.mp h
    cases he
    simpa using pcStep_guarded hs b

/-! ## The invariant -/

/-- The thread at `pc` against the thread at `pc'`: its drains track the counters while
`pc'` is inside a scope, and it rewrites no `items` that `pc'` is inside. -/
def Excludes (m : Map K V) (pc pc' : Pc K V) : Prop :=
  ∀ b, (∀ d, pc.drainOn b = some d → d.Tracks (m.bucketD b) (pc'.inScope b)) ∧
    (pc.rewritesItems b → pc'.inScope b = false)

/-- Two threads that make no `reserve` call, with honest counters, each excluding the
other. -/
structure Exclusive (s : Sys K V) : Prop where
  balanced : Balanced s
  noReserve : NoReserve s
  two : s.threads.length ≤ 2
  pair : ∀ t u th th', t ≠ u → s.threads.get? t = some th → s.threads.get? u = some th' →
    Excludes s.map th.pc th'.pc

section
variable {s : Sys K V} {m' : Map K V} {t u : Nat}

/-- The stepping thread against the other: a drain it is in still tracks, and it rewrites
nothing under the other's scope, the other being then the only thread counted. -/
theorem Excludes.step_self {th th' thu : Thread K V} (hx : Exclusive s) (htu : t ≠ u)
    (ht : s.threads.get? t = some th) (hu : s.threads.get? u = some thu)
    (hg : ∀ b, Guarded s.map th.pc th'.pc b)
    (hm : ∀ b, BucketMove (s.map.bucketD b) (m'.bucketD b) (th.pc.counted b) (th'.pc.counted b)
      (th.pc.holds b) (th'.pc.holds b)) :
    Excludes m' th'.pc thu.pc := by
  intro b
  refine ⟨fun d hd => ?_, fun hr => ?_⟩
  · cases d with
    | second e v =>
      obtain ⟨h1, hv⟩ := (hg b).second e v hd
      have hmv := hm b
      rw [Pc.counted_of_drainOn h1, Pc.counted_of_drainOn hd] at hmv
      intro _
      rw [hmv.counters_stay.1, hmv.counters_stay.2]
      exact hv
    | _ => trivial
  · obtain ⟨e, v, hd, hv⟩ := (hg b).pass hr
    cases hi : thu.pc.inScope b
    · rfl
    have htr : v = _ := (hx.pair t u th thu htu ht hu b).1 _ hd hi
    have hc : (s.map.bucketD b).entered = (s.map.bucketD b).exited + 1 := by
      rw [hx.balanced.counters b,
        inflight_pair hx.two htu ht hu (Pc.counted_of_drainOn hd) (Pc.counted_of_inScope hi)]
    cases e <;> simp only [Bool.false_eq_true, ↓reduceIte, hc, Bucket.load] at htr hv <;> omega

/-- A thread against the one that stepped: under the lock the first holds, the stepper
cannot have entered a scope, and inside one it moved no counter. -/
theorem Excludes.step_other {th thu thu' : Thread K V} (hx : Exclusive s) (htu : t ≠ u)
    (ht : s.threads.get? t = some th) (hu : s.threads.get? u = some thu)
    (hg : ∀ b, Guarded s.map thu.pc thu'.pc b)
    (hm : ∀ b, BucketMove (s.map.bucketD b) (m'.bucketD b) (thu.pc.counted b) (thu'.pc.counted b)
      (thu.pc.holds b) (thu'.pc.holds b)) :
    Excludes m' th.pc thu'.pc := by
  intro b
  have hold := hx.pair t u th thu htu ht hu b
  have hin : th.pc.holds b → thu'.pc.inScope b → thu.pc.inScope b := fun hh hi =>
    ((hg b).scope hi).resolve_right (by simp [hx.balanced.lock_of_holds (List.get?_mem ht) hh])
  refine ⟨fun d hd => ?_, fun hr => ?_⟩
  · cases d with
    | second e v =>
      intro hi
      have hi₀ := hin (Pc.holds_of_drainOn hd) hi
      have hmv := hm b
      rw [Pc.counted_of_inScope hi₀, Pc.counted_of_inScope hi] at hmv
      rw [hmv.counters_stay.1, hmv.counters_stay.2]
      exact hold.1 _ hd hi₀
    | _ => trivial
  · cases hi : thu'.pc.inScope b
    · rfl
    have := hold.2 hr
    rw [hin (Pc.holds_of_rewritesItems hr).1 hi] at this
    cases this

/-- Every step of two threads keeps the invariant. -/
theorem Exclusive.step {s' : Sys K V} {c : Bool} (hx : Exclusive s) (h : step tr s t c = some s') :
    Exclusive s' := by
  obtain ⟨th, th', hth, hs, he⟩ := step_eq h
  have hg := threadStep_guarded hs
  have hm := threadStep_move hs (hx.noReserve.notReserving t th hth)
  refine ⟨balanced_step hx.balanced h (hx.noReserve.notReserving t), hx.noReserve.step h,
    by rw [step_length h]; exact hx.two, fun t₁ u₁ th₁ thu₁ hne h₁ h₂ => ?_⟩
  rw [he] at h₁ h₂
  rcases get?_set_cases h₁ with ⟨rfl, rfl⟩ | ⟨hne₁, ht₁⟩ <;>
    rcases get?_set_cases h₂ with ⟨rfl, rfl⟩ | ⟨hne₂, hu₁⟩
  · exact absurd rfl hne
  · exact Excludes.step_self hx hne hth hu₁ hg hm
  · exact Excludes.step_other hx hne ht₁ hth hg hm
  · have := (List.get?_eq_some.mp hth).1
    have := (List.get?_eq_some.mp ht₁).1
    have := (List.get?_eq_some.mp hu₁).1
    have := hx.two
    omega

end

theorem Steps.exclusive {s s' : Sys K V} (h : Steps tr s s') (hx : Exclusive s) : Exclusive s' := by
  induction h with
  | refl => exact hx
  | step t c hs _ ih => exact ih (hx.step hs)

/-- At most two threads, started between calls on a map at rest, none of them calling
`reserve`. -/
theorem exclusive_init {m : Map K V} {css : List (List (Call K V))} (hl : css.length ≤ 2)
    (hn : ∀ cs ∈ css, ∀ n, Call.reserve n ∉ cs) (hm : m.AtRest) : Exclusive (Sys.init m css) := by
  refine ⟨balanced_of_atRest hm (quiet_init m css), fun th hth n hr => ?_, by simpa [Sys.init] using hl,
    fun t u th th' _ ht _ => ?_⟩
  · obtain ⟨cs, hcs, rfl⟩ := List.mem_map.mp hth
    exact hn cs hcs n hr
  · simp only [Sys.init, List.get?_eq_getElem?, List.getElem?_map] at ht
    obtain ⟨_, -, rfl⟩ := Option.map_eq_some'.mp ht
    exact fun b => ⟨fun d hd => (by cases hd), fun hr => (by cases hr)⟩

/-- So no state the two threads reach has a thread about to reallocate or free `items`
while the other is inside a scope on the bucket. -/
theorem Exclusive.rewritesInScope {s : Sys K V} (hx : Exclusive s) (b : Nat) :
    s.rewritesInScope b = false := by
  by_contra hc
  simp only [Sys.rewritesInScope, Bool.not_eq_false, Bool.and_eq_true, List.any_eq_true] at hc
  obtain ⟨⟨th, hth, hr⟩, ⟨thu, hthu, hi⟩⟩ := hc
  obtain ⟨t, ht⟩ := List.get?_of_mem hth
  obtain ⟨u, hu⟩ := List.get?_of_mem hthu
  by_cases htu : t = u
  · subst htu
    cases ht.symm.trans hu
    simpa [Pc.counted_of_inScope hi] using (Pc.holds_of_rewritesItems hr).2
  · simpa [hi] using (hx.pair t u th thu htu ht hu b).2 hr

end

end ConcurrentUnorderedMap
