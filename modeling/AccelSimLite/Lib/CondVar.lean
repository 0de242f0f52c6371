import AccelSimLite.Lib.Threads

/-!
# Condition variables

The wait set of a condition variable, read off the local states of a family of
threads: a thread sleeps until it is woken, and is then on its way back to its
critical section until it has the mutex again. A signal wakes at least one
sleeper if there is one, a broadcast wakes all.

The rules keep a bound of the kind that shows that no wakeup is lost: while
somebody sleeps, at least as many threads are on their way back as there are
items for them to find.

## Main definitions

- `CondVar` — which local states sleep, which are woken, and what waking does
- `CondVar.Signals`, `CondVar.broadcast` — the two ways to wake
- `CondVar.Covered` — while anyone sleeps, enough others are on their way
-/

/-- How the local states of threads take part in one condition variable. -/
structure CondVar (σ : Type*) where
  asleep : σ → Bool
  woken : σ → Bool
  wake : σ → σ
  woken_wake : ∀ s, asleep s → woken (wake s)
  not_asleep_wake : ∀ s, asleep s → ¬asleep (wake s)
  not_woken_of_asleep : ∀ s, asleep s → ¬woken s

namespace CondVar

variable {ι σ : Type*} (cv : CondVar σ)

/-- Nothing happens but that sleepers are woken. -/
def Wakes (threads threads' : ι → σ) : Prop :=
  ∀ i, threads' i = threads i ∨ cv.asleep (threads i) ∧ threads' i = cv.wake (threads i)

/-- A signal wakes sleepers only, and at least one if there is one. -/
structure Signals (threads threads' : ι → σ) : Prop where
  wakes : cv.Wakes threads threads'
  exists_woken : ∀ i, cv.asleep (threads i) →
    ∃ j, cv.asleep (threads j) ∧ threads' j = cv.wake (threads j)

/-- A broadcast wakes every sleeper. -/
def broadcast (threads : ι → σ) : ι → σ :=
  fun i => if cv.asleep (threads i) then cv.wake (threads i) else threads i

/-- The number of threads that have been woken and are not back yet. -/
def wokenCount [Fintype ι] (threads : ι → σ) : ℕ := Threads.count (fun s => cv.woken s) threads

/-- While anyone sleeps, at least `demand` others are on their way back. -/
def Covered [Fintype ι] (demand : ℕ) (threads : ι → σ) : Prop :=
  ∀ i, cv.asleep (threads i) → demand ≤ cv.wokenCount threads

variable {cv} {threads threads' : ι → σ}

theorem not_asleep_broadcast (cv : CondVar σ) (threads : ι → σ) (i : ι) :
    ¬cv.asleep (cv.broadcast threads i) := by
  unfold broadcast
  by_cases h : cv.asleep (threads i)
  · rw [if_pos h]
    exact cv.not_asleep_wake _ h
  · rw [if_neg h]
    exact h

theorem wakes_broadcast (cv : CondVar σ) (threads : ι → σ) :
    cv.Wakes threads (cv.broadcast threads) := by
  intro i
  unfold broadcast
  by_cases h : cv.asleep (threads i)
  · exact .inr ⟨h, if_pos h⟩
  · exact .inl (if_neg h)

/-- What holds of a thread after some have been woken. -/
theorem Wakes.of_thread (h : cv.Wakes threads threads') (P : σ → Prop) {i : ι}
    (hi : P (threads' i)) : P (threads i) ∨ cv.asleep (threads i) ∧ P (cv.wake (threads i)) := by
  obtain hsame | ⟨hold, hwake⟩ := h i
  · exact .inl (hsame ▸ hi)
  · exact .inr ⟨hold, hwake ▸ hi⟩

/-- Waking changes no total of a weight that it does not change. -/
theorem Wakes.total_eq [Fintype ι] {M : Type*} [AddCommMonoid M] (h : cv.Wakes threads threads')
    {weight : σ → M} (hweight : ∀ s, cv.asleep s → weight (cv.wake s) = weight s) :
    Threads.total weight threads' = Threads.total weight threads := by
  apply Threads.total_congr
  intro i
  obtain hsame | ⟨hold, hwake⟩ := h i
  · rw [hsame]
  · rw [hwake, hweight _ hold]

/-- Whoever sleeps still slept before and was not woken. -/
theorem Wakes.of_asleep (h : cv.Wakes threads threads') {i : ι}
    (hi : cv.asleep (threads' i)) : cv.asleep (threads i) ∧ threads' i = threads i := by
  obtain hsame | ⟨hold, hwake⟩ := h i
  · exact ⟨hsame ▸ hi, hsame⟩
  · rw [hwake] at hi
    exact absurd hi (cv.not_asleep_wake _ hold)

/-- Where nobody sleeps a signal does nothing. -/
theorem signals_of_not_asleep (h : ∀ i, ¬cv.asleep (threads i)) : cv.Signals threads threads where
  wakes _ := .inl rfl
  exists_woken i hi := absurd hi (h i)

theorem Signals.woken (h : cv.Signals threads threads') {i : ι} (hi : cv.woken (threads i)) :
    cv.woken (threads' i) := by
  obtain hsame | ⟨hold, hwake⟩ := h.wakes i
  · exact hsame ▸ hi
  · exact hwake ▸ cv.woken_wake _ hold

variable [Fintype ι] {n : ℕ}

theorem Covered.mono {m : ℕ} (h : cv.Covered n threads) (hle : m ≤ n) : cv.Covered m threads :=
  fun i hi => hle.trans (h i hi)

theorem covered_zero (cv : CondVar σ) (threads : ι → σ) : cv.Covered 0 threads :=
  fun _ _ => Nat.zero_le _

theorem covered_of_not_asleep (h : ∀ i, ¬cv.asleep (threads i)) (n : ℕ) : cv.Covered n threads :=
  fun i hi => absurd hi (h i)

/-- The bound depends only on who sleeps and who is woken. -/
theorem Covered.congr (h : cv.Covered n threads)
    (hasleep : ∀ i, cv.asleep (threads' i) = cv.asleep (threads i))
    (hwoken : ∀ i, cv.woken (threads' i) = cv.woken (threads i)) : cv.Covered n threads' := by
  intro i hi
  rw [hasleep] at hi
  have hcount : cv.wokenCount threads' = cv.wokenCount threads :=
    Threads.count_congr fun j => by rw [hwoken]
  exact hcount ▸ h i hi

/-- **A signal covers one more.** -/
theorem Covered.signal (h : cv.Covered n threads) (hs : cv.Signals threads threads') :
    cv.Covered (n + 1) threads' := by
  intro i hi
  have hold := (hs.wakes.of_asleep hi).1
  obtain ⟨j, hj, hwake⟩ := hs.exists_woken i hold
  -- the signal adds the thread it wakes to those on their way
  have hlt : cv.wokenCount threads < cv.wokenCount threads' :=
    Threads.count_lt (fun _ => hs.woken) (cv.not_woken_of_asleep _ hj)
      (hwake ▸ cv.woken_wake _ hj)
  exact (h i hold).trans_lt hlt

/-- After a broadcast nobody sleeps. -/
theorem covered_broadcast (cv : CondVar σ) (threads : ι → σ) (n : ℕ) :
    cv.Covered n (cv.broadcast threads) :=
  covered_of_not_asleep (cv.not_asleep_broadcast threads) n

/-- **Nobody sleeps for nothing**: if someone sleeps and no one is on the way
    back, there is nothing to find. -/
theorem Covered.eq_zero (h : cv.Covered n threads) {i : ι} (hi : cv.asleep (threads i))
    (hnone : ∀ j, ¬cv.woken (threads j)) : n = 0 := by
  have hcount : cv.wokenCount threads = 0 := by
    unfold wokenCount Threads.count
    apply Threads.total_eq_zero
    intro j
    exact if_neg (hnone j)
  exact Nat.le_zero.mp (hcount ▸ h i hi)

section Update

variable [DecidableEq ι] {i : ι} {s : σ}

/-- A thread that does not fall asleep and does not stop being woken. -/
theorem Covered.update (h : cv.Covered n threads) (hasleep : cv.asleep s → cv.asleep (threads i))
    (hwoken : cv.woken (threads i) → cv.woken s) :
    cv.Covered n (Function.update threads i s) := by
  intro j hj
  have hold : cv.asleep (threads j) := by
    by_cases hji : j = i
    · subst hji
      rw [Function.update_self] at hj
      exact hasleep hj
    · rwa [Function.update_of_ne hji] at hj
  refine (h j hold).trans (Threads.count_mono fun k hk => ?_)
  by_cases hki : k = i
  · subst hki
    rw [Function.update_self]
    exact hwoken hk
  · rwa [Function.update_of_ne hki]

omit [Fintype ι] in
/-- To wake one sleeper is enough for a signal. -/
theorem signals_wake (hi : cv.asleep (threads i)) :
    cv.Signals threads (Function.update threads i (cv.wake (threads i))) where
  wakes j := by
    by_cases hj : j = i
    · subst hj
      exact .inr ⟨hi, Function.update_self ..⟩
    · exact .inl (Function.update_of_ne hj ..)
  exists_woken _ _ := ⟨i, hi, Function.update_self ..⟩

/-- A spurious wakeup. -/
theorem Covered.wake (h : cv.Covered n threads) (hi : cv.asleep (threads i)) :
    cv.Covered n (Function.update threads i (cv.wake (threads i))) :=
  h.update (fun hw => absurd hw (cv.not_asleep_wake _ hi)) fun _ => cv.woken_wake _ hi

/-- **A thread that comes back covers one less.** -/
theorem Covered.leave (h : cv.Covered (n + 1) threads) (hs : ¬cv.asleep s) :
    cv.Covered n (Function.update threads i s) := by
  intro j hj
  have hold : cv.asleep (threads j) := by
    by_cases hji : j = i
    · subst hji
      rw [Function.update_self] at hj
      exact absurd hj hs
    · rwa [Function.update_of_ne hji] at hj
  have hle := h j hold
  have hcount := Threads.count_update (fun s => cv.woken s) threads i s
  have hone : (if cv.woken (threads i) then 1 else 0) ≤ 1 := by split <;> omega
  unfold wokenCount at hle ⊢
  omega

end Update

end CondVar
