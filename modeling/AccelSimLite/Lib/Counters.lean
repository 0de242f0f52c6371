import Mathlib.Algebra.GroupWithZero.Nat
import Mathlib.Data.List.Sort
import Mathlib.Order.Basic
import Mathlib.Order.Defs.LinearOrder

/-!
# Counter maps

Finite maps from a linearly ordered key type to natural numbers, kept in key
order: ordered associative containers whose entries are only ever created,
added to, or raised.

## Main definitions

- `Counters κ` — the map, with the order of its keys as a field
- `Counters.bump` — `m[k] += amount`, creating the entry when it is missing
- `Counters.updateMax` — raise an entry to a candidate, creating it when missing
- `Counters.count` — the stored value, zero when there is no entry
- `Counters.scanMax` — a scan for the first of the largest values
-/

/-- The value an entry list stores at a key. -/
def lookupEntry {κ : Type*} [LinearOrder κ] (k : κ) : List (κ × ℕ) → Option ℕ
  | [] => none
  | (k', v) :: rest => if k = k' then some v else lookupEntry k rest

/-- Replace the value stored at a key of an ordered entry list by `f` of the old
    one, inserting a new entry in key order when there is none. -/
def alterEntry {κ : Type*} [LinearOrder κ] (k : κ) (f : Option ℕ → ℕ) :
    List (κ × ℕ) → List (κ × ℕ)
  | [] => [(k, f none)]
  | (k', v) :: rest =>
    if k < k' then (k, f none) :: (k', v) :: rest
    else if k = k' then (k', f (some v)) :: rest
    else (k', v) :: alterEntry k f rest

theorem mem_keys_alterEntry {κ : Type*} [LinearOrder κ] (k : κ) (f : Option ℕ → ℕ)
    (l : List (κ × ℕ)) (x : κ) :
    x ∈ (alterEntry k f l).map Prod.fst ↔ x = k ∨ x ∈ l.map Prod.fst := by
  induction l with
  | nil => simp [alterEntry]
  | cons e rest ih =>
    obtain ⟨k', v⟩ := e
    simp only [alterEntry]
    split_ifs with hlt heq
    · simp
    · subst heq
      simp
    · simp only [List.map_cons, List.mem_cons, ih]
      tauto

theorem sorted_alterEntry {κ : Type*} [LinearOrder κ] (k : κ) (f : Option ℕ → ℕ)
    (l : List (κ × ℕ)) (h : (l.map Prod.fst).Pairwise (· < ·)) :
    ((alterEntry k f l).map Prod.fst).Pairwise (· < ·) := by
  induction l with
  | nil => simp [alterEntry]
  | cons e rest ih =>
    obtain ⟨k', v⟩ := e
    rw [List.map_cons, List.pairwise_cons] at h
    simp only [alterEntry]
    split_ifs with hlt heq
    · rw [List.map_cons, List.pairwise_cons]
      refine ⟨?_, by simpa using h⟩
      intro x hx
      rcases List.mem_cons.mp hx with rfl | hx
      · exact hlt
      · exact hlt.trans (h.1 x hx)
    · simpa using h
    · rw [List.map_cons, List.pairwise_cons]
      refine ⟨?_, ih h.2⟩
      intro x hx
      rcases (mem_keys_alterEntry k f rest x).mp hx with rfl | hx
      · exact lt_of_le_of_ne (not_lt.mp hlt) (Ne.symm heq)
      · exact h.1 x hx

theorem lookupEntry_eq_none {κ : Type*} [LinearOrder κ] {k : κ} {l : List (κ × ℕ)}
    (h : k ∉ l.map Prod.fst) : lookupEntry k l = none := by
  induction l with
  | nil => rfl
  | cons e rest ih =>
    obtain ⟨k', v⟩ := e
    rw [List.map_cons, List.mem_cons, not_or] at h
    simp [lookupEntry, h.1, ih h.2]

/-- Below the head of a sorted entry list there is no entry. -/
theorem lookupEntry_of_lt_head {κ : Type*} [LinearOrder κ] {k k' : κ} {v : ℕ}
    {rest : List (κ × ℕ)} (h : (((k', v) :: rest).map Prod.fst).Pairwise (· < ·))
    (hlt : k < k') : lookupEntry k ((k', v) :: rest) = none := by
  rw [List.map_cons, List.pairwise_cons] at h
  apply lookupEntry_eq_none
  rw [List.map_cons, List.mem_cons, not_or]
  refine ⟨hlt.ne, ?_⟩
  intro hmem
  exact lt_irrefl k (hlt.trans (h.1 k hmem))

theorem lookupEntry_alterEntry {κ : Type*} [LinearOrder κ] (k : κ) (f : Option ℕ → ℕ)
    (l : List (κ × ℕ)) (h : (l.map Prod.fst).Pairwise (· < ·)) (x : κ) :
    lookupEntry x (alterEntry k f l) =
      if x = k then some (f (lookupEntry k l)) else lookupEntry x l := by
  induction l with
  | nil => simp [alterEntry, lookupEntry]
  | cons e rest ih =>
    obtain ⟨k', v⟩ := e
    have htail : (rest.map Prod.fst).Pairwise (· < ·) := (List.pairwise_cons.mp h).2
    by_cases hlt : k < k'
    · rw [lookupEntry_of_lt_head h hlt, alterEntry, if_pos hlt, lookupEntry]
    · by_cases heq : k = k'
      · subst heq
        by_cases hx : x = k <;> simp [alterEntry, lookupEntry, hx]
      · rw [alterEntry, if_neg hlt, if_neg heq, lookupEntry, ih htail]
        by_cases hx : x = k
        · subst hx
          simp [lookupEntry, heq]
        · simp [lookupEntry, hx]

/-- A map from keys to counts whose entries are listed in key order. -/
structure Counters (κ : Type*) [LinearOrder κ] where
  entries : List (κ × ℕ)
  sorted : (entries.map Prod.fst).Pairwise (· < ·)

namespace Counters

variable {κ : Type*} [LinearOrder κ]

/-- The map without entries. -/
def empty : Counters κ := ⟨[], by simp⟩

/-- The entry stored at a key, if there is one. -/
def find? (m : Counters κ) (k : κ) : Option ℕ := lookupEntry k m.entries

/-- The count stored at a key; a missing entry counts zero. -/
def count (m : Counters κ) (k : κ) : ℕ := (m.find? k).getD 0

/-- Replace the value at a key, creating the entry when it is missing. -/
def alter (m : Counters κ) (k : κ) (f : Option ℕ → ℕ) : Counters κ :=
  ⟨alterEntry k f m.entries, sorted_alterEntry k f m.entries m.sorted⟩

/-- `m[k] += amount`. -/
def bump (m : Counters κ) (k : κ) (amount : ℕ) : Counters κ :=
  m.alter k (fun old => old.getD 0 + amount)

/-- Store `candidate` at `k` when there is no entry or a smaller one. -/
def updateMax (m : Counters κ) (k : κ) (candidate : ℕ) : Counters κ :=
  m.alter k fun
    | none => candidate
    | some old => if old < candidate then candidate else old

@[simp] theorem find?_empty (k : κ) : (empty : Counters κ).find? k = none := rfl

@[simp] theorem count_empty (k : κ) : (empty : Counters κ).count k = 0 := rfl

theorem find?_alter (m : Counters κ) (k : κ) (f : Option ℕ → ℕ) (x : κ) :
    (m.alter k f).find? x = if x = k then some (f (m.find? k)) else m.find? x :=
  lookupEntry_alterEntry k f m.entries m.sorted x

/-- Adding to one entry changes its count by the amount and no other count. -/
@[simp] theorem count_bump (m : Counters κ) (k : κ) (amount : ℕ) (x : κ) :
    (m.bump k amount).count x = m.count x + if x = k then amount else 0 := by
  simp only [count, bump, find?_alter]
  split_ifs with hx
  · simp [hx]
  · simp

/-- Raising one entry takes its maximum with the candidate. -/
@[simp] theorem count_updateMax (m : Counters κ) (k : κ) (candidate : ℕ) (x : κ) :
    (m.updateMax k candidate).count x =
      if x = k then max (m.count k) candidate else m.count x := by
  simp only [count, updateMax, find?_alter]
  split_ifs with hx
  · cases hm : m.find? k with
    | none => simp
    | some old =>
      simp only [Option.getD_some]
      split_ifs <;> omega
  · rfl

/-- Raising an entry creates it, and creates and removes no other. -/
theorem isSome_find?_updateMax (m : Counters κ) (k : κ) (candidate : ℕ) (x : κ) :
    ((m.updateMax k candidate).find? x).isSome ↔ x = k ∨ (m.find? x).isSome := by
  rw [updateMax, find?_alter]
  split_ifs with hx
  · simp [hx]
  · simp [hx]

/-- Add one to the entry of every key of a list. -/
def bumpAll (m : Counters κ) (ks : List κ) : Counters κ := ks.foldl (fun m k => m.bump k 1) m

@[simp] theorem bumpAll_nil (m : Counters κ) : m.bumpAll [] = m := rfl

@[simp] theorem bumpAll_cons (m : Counters κ) (k : κ) (ks : List κ) :
    m.bumpAll (k :: ks) = (m.bump k 1).bumpAll ks := rfl

theorem sum_count_bump (m : Counters κ) (k : κ) {keys : List κ} (hkeys : keys.Nodup) :
    (keys.map (m.bump k 1).count).sum = (keys.map m.count).sum + if k ∈ keys then 1 else 0 := by
  induction keys with
  | nil => rfl
  | cons x keys ih =>
    obtain ⟨hx, hkeys⟩ := List.nodup_cons.mp hkeys
    rw [List.map_cons, List.sum_cons, ih hkeys, count_bump, List.map_cons, List.sum_cons]
    by_cases hk : x = k
    · subst hk
      simp only [hx, if_true, if_false, List.mem_cons_self]
      omega
    · simp only [List.mem_cons, hk, Ne.symm hk, if_false, false_or]
      omega

/-- Bumping raises the sum over some keys by how many of the bumped keys are among them. -/
theorem sum_count_bumpAll (m : Counters κ) (ks : List κ) {keys : List κ} (hkeys : keys.Nodup) :
    (keys.map (m.bumpAll ks).count).sum =
      (keys.map m.count).sum + ks.countP fun k => k ∈ keys := by
  induction ks generalizing m with
  | nil => rfl
  | cons k ks ih =>
    rw [bumpAll_cons, ih, sum_count_bump m k hkeys, List.countP_cons]
    simp only [decide_eq_true_eq]
    omega

theorem mem_entries_iff (m : Counters κ) {k : κ} {v : ℕ} :
    (k, v) ∈ m.entries ↔ m.find? k = some v := by
  obtain ⟨entries, hsorted⟩ := m
  change (k, v) ∈ entries ↔ lookupEntry k entries = some v
  induction entries with
  | nil => simp [lookupEntry]
  | cons e rest ih =>
    obtain ⟨k', v'⟩ := e
    rw [List.map_cons, List.pairwise_cons] at hsorted
    rw [lookupEntry, List.mem_cons]
    by_cases hk : k = k'
    · subst hk
      have hnot : (k, v) ∉ rest := fun hmem =>
        lt_irrefl k (hsorted.1 k (List.mem_map_of_mem hmem))
      simp [hnot, eq_comm]
    · simp [hk, ih hsorted.2]

/-- A scan for the first of the largest values above that of `best`. -/
def scanMax {β : Type*} (name : κ → β) (best : β × ℕ) (entries : List (κ × ℕ)) : β × ℕ :=
  entries.foldl (fun best entry => if entry.2 > best.2 then (name entry.1, entry.2) else best) best

omit [LinearOrder κ] in
/-- The scan keeps `best` when nothing is above it, and else finds an entry that is above
    all before it and that nothing after it is above. -/
theorem scanMax_spec {β : Type*} (name : κ → β) (best : β × ℕ) (entries : List (κ × ℕ)) :
    ((∀ entry ∈ entries, entry.2 ≤ best.2) ∧ scanMax name best entries = best) ∨
      ∃ before entry after, entries = before ++ entry :: after ∧
        scanMax name best entries = (name entry.1, entry.2) ∧ best.2 < entry.2 ∧
        (∀ e ∈ before, e.2 < entry.2) ∧ ∀ e ∈ after, e.2 ≤ entry.2 := by
  induction entries generalizing best with
  | nil => exact .inl ⟨fun _ h => absurd h List.not_mem_nil, rfl⟩
  | cons e rest ih =>
    have hfirst : scanMax name best (e :: rest) =
        scanMax name (if e.2 > best.2 then (name e.1, e.2) else best) rest := rfl
    rw [hfirst]
    by_cases hmore : e.2 > best.2
    · rw [if_pos hmore]
      refine .inr ?_
      rcases ih (name e.1, e.2) with ⟨hle, heq⟩ | ⟨before, entry, after, rfl, heq, hlt, hb, ha⟩
      · exact ⟨[], e, rest, rfl, heq, hmore, fun _ h => absurd h List.not_mem_nil, hle⟩
      · refine ⟨e :: before, entry, after, rfl, heq, hmore.trans hlt, ?_, ha⟩
        rw [List.forall_mem_cons]
        exact ⟨hlt, hb⟩
    · rw [if_neg hmore]
      rcases ih best with ⟨hle, heq⟩ | ⟨before, entry, after, rfl, heq, hlt, hb, ha⟩
      · refine .inl ⟨?_, heq⟩
        rw [List.forall_mem_cons]
        exact ⟨Nat.le_of_not_lt hmore, hle⟩
      · refine .inr ⟨e :: before, entry, after, rfl, heq, hlt, ?_, ha⟩
        rw [List.forall_mem_cons]
        exact ⟨(Nat.le_of_not_lt hmore).trans_lt hlt, hb⟩

/-- The first of the keys with the largest count, unless all counts are zero. -/
theorem scanMax_entries {β : Type*} (name : κ → β) (noName : β) (m : Counters κ) :
    ((∀ k, m.count k = 0) ∧ (scanMax name (noName, 0) m.entries).1 = noName) ∨
      ∃ k, (scanMax name (noName, 0) m.entries).1 = name k ∧ 0 < m.count k ∧
        (∀ k', m.count k' ≤ m.count k) ∧ ∀ k', k' < k → m.count k' < m.count k := by
  have hcount : ∀ k v, (k, v) ∈ m.entries → m.count k = v := by
    intro k v hmem
    rw [count, m.mem_entries_iff.mp hmem, Option.getD_some]
  have hzero : ∀ k, m.count k = 0 ∨ (k, m.count k) ∈ m.entries := by
    intro k
    cases hk : m.find? k with
    | none => exact .inl (by rw [count, hk, Option.getD_none])
    | some v => exact .inr (m.mem_entries_iff.mpr (by rw [count, hk, Option.getD_some]))
  rcases scanMax_spec name (noName, 0) m.entries with
    ⟨hle, heq⟩ | ⟨before, ⟨k, v⟩, after, hsplit, heq, hpos, hbefore, hafter⟩
  · refine .inl ⟨fun k => ?_, by rw [heq]⟩
    rcases hzero k with hk | hmem
    · exact hk
    · exact Nat.le_zero.mp (hle _ hmem)
  · have hk : m.count k = v := hcount k v (by simp [hsplit])
    have hsorted := m.sorted
    rw [hsplit, List.map_append, List.map_cons, List.pairwise_append] at hsorted
    refine .inr ⟨k, by rw [heq], hk.symm ▸ hpos, fun k' => ?_, fun k' hlt => ?_⟩
    · rw [hk]
      rcases hzero k' with hk' | hmem
      · omega
      · rw [hsplit, List.mem_append, List.mem_cons] at hmem
        rcases hmem with hmem | heq' | hmem
        · exact (hbefore _ hmem).le
        · exact (congrArg Prod.snd heq').le
        · exact hafter _ hmem
    · rw [hk]
      rcases hzero k' with hk' | hmem
      · rw [hk']
        exact hpos
      · rw [hsplit, List.mem_append, List.mem_cons] at hmem
        rcases hmem with hmem | heq' | hmem
        · exact hbefore _ hmem
        · exact absurd (congrArg Prod.fst heq') hlt.ne
        · have hgt := (List.pairwise_cons.mp hsorted.2.1).1 k' (List.mem_map_of_mem hmem)
          exact absurd hlt hgt.asymm

end Counters
