import Mathlib.Data.List.Induction
import Mathlib.Logic.Function.Basic

/-!
# Last writes

A log of writes at addresses, and the value that was written last at an address. A store
that keeps one value for each address holds what was written last, or what it held before
the log.

## Main definitions

- `LastWrite.last?` — the value that was written last

## Main results

- `LastWrite.get_foldl` — what a store holds after a log
- `LastWrite.find?_reverse` — a search from the end of the log
-/

namespace LastWrite

variable {κ α σ : Type*} [DecidableEq κ]

/-- The value that was written last at an address, if there is one. -/
def last? (log : List (κ × α)) (a : κ) : Option α :=
  log.foldl (fun old entry => if a = entry.1 then some entry.2 else old) none

@[simp] theorem last?_nil (a : κ) : last? ([] : List (κ × α)) a = none := rfl

theorem last?_concat (log : List (κ × α)) (entry : κ × α) (a : κ) :
    last? (log ++ [entry]) a = if a = entry.1 then some entry.2 else last? log a := by
  rw [last?, List.foldl_append]
  rfl

theorem last?_eq_none_iff {log : List (κ × α)} {a : κ} :
    last? log a = none ↔ a ∉ log.map Prod.fst := by
  induction log using List.reverseRecOn with
  | nil => simp
  | append_singleton log entry ih =>
    rw [last?_concat, List.map_append, List.mem_append, not_or, ← ih]
    split_ifs with heq <;> simp [heq]

/-- **What a store holds after a log** at an address, where only a write at this address
    changes what is read there. -/
theorem get_foldl (get : σ → α) {set : σ → κ × α → σ} {a : κ}
    (hset : ∀ s entry, get (set s entry) = if a = entry.1 then entry.2 else get s)
    (log : List (κ × α)) (s : σ) : get (log.foldl set s) = (last? log a).getD (get s) := by
  induction log using List.reverseRecOn with
  | nil => rfl
  | append_singleton log entry ih =>
    rw [List.foldl_append, last?_concat]
    change get (set (log.foldl set s) entry) = _
    rw [hset, ih]
    split_ifs <;> rfl

/-- A search from the end of the log finds the last write. -/
theorem find?_reverse (log : List (κ × α)) (a : κ) :
    (log.reverse.find? fun entry => entry.1 = a).map Prod.snd = last? log a := by
  induction log using List.reverseRecOn with
  | nil => rfl
  | append_singleton log entry ih =>
    rw [List.reverse_append, List.reverse_singleton, List.singleton_append, List.find?_cons,
      last?_concat]
    by_cases heq : entry.1 = a
    · simp [heq]
    · simp [heq, Ne.symm heq, ih]

end LastWrite
