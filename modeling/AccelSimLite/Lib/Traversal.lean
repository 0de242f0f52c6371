import Mathlib.Data.Finset.Card
import Mathlib.Data.Set.Card
import Mathlib.Logic.Relation

/-!
# Breadth-first traversal and the count of components

A graph given by successor lists is traversed from one vertex after the other with
one set of visited vertices. Every traversal adds what its root reaches; over the
vertices of a symmetric graph, the traversals that were started are as many as there
are classes of connected vertices.

## Main definitions

- `Traversal.State` — the visited vertices and the queue
- `Traversal.drain` — the loop of one traversal, `none` when the fuel is used up
- `Traversal.components` — one traversal for each vertex not yet visited
- `Traversal.Reach` — there is a path

## Main results

- `Exploring.mem_iff` — what one traversal visits
- `exists_drain` — a traversal ends
- `components_eq` — the count of components
-/

namespace Traversal

variable {α : Type*}

/-! ### Paths -/

/-- A path of the graph leads from `a` to `b`. -/
def Reach (next : α → List α) : α → α → Prop := Relation.ReflTransGen fun a b => b ∈ next a

/-- What can be reached from a vertex. -/
def component (next : α → List α) (a : α) : Set α := {b | Reach next a b}

variable {next : α → List α}

theorem Reach.symm (hsymm : ∀ a b, b ∈ next a → a ∈ next b) {a b : α} (h : Reach next a b) :
    Reach next b a := by
  induction h with
  | refl => exact .refl
  | tail _ hbc ih => exact .head (hsymm _ _ hbc) ih

/-- A set that is closed under successors is closed under paths. -/
theorem Reach.mem_of_closed {s : Set α} (hs : ∀ a ∈ s, ∀ b ∈ next a, b ∈ s) {a b : α}
    (h : Reach next a b) (ha : a ∈ s) : b ∈ s := by
  induction h with
  | refl => exact ha
  | tail _ hbc ih => exact hs _ ih _ hbc

theorem component_eq_iff (hsymm : ∀ a b, b ∈ next a → a ∈ next b) {a b : α} :
    component next a = component next b ↔ Reach next a b := by
  constructor
  · intro h
    have hb : b ∈ component next b := Relation.ReflTransGen.refl
    rwa [← h] at hb
  · intro h
    ext c
    exact ⟨fun hac => (h.symm hsymm).trans hac, fun hbc => h.trans hbc⟩

/-- A vertex is alone in its class when no edge joins it with another one. -/
theorem eqvGen_alone_iff {r : α → α → Prop} {a : α} :
    (∀ b, Relation.EqvGen r a b → b = a) ↔ ∀ b, r a b ∨ r b a → b = a := by
  constructor
  · rintro h b (hab | hba)
    · exact h b (.rel a b hab)
    · exact h b (.symm b a (.rel b a hba))
  · intro h b hab
    have hsame {x y : α} (hxy : Relation.EqvGen r x y) : x = a ↔ y = a := by
      induction hxy with
      | rel x y hxy =>
        constructor
        · rintro rfl
          exact h y (.inl hxy)
        · rintro rfl
          exact h x (.inr hxy)
      | refl x => rfl
      | symm x y _ ih => exact ih.symm
      | trans x y z _ _ hxy hyz => exact hxy.trans hyz
    exact (hsame hab).mp rfl

/-! ### One traversal -/

variable [DecidableEq α]

structure State (α : Type*) where
  visited : Finset α
  pending : List α

/-- A vertex that was not visited yet is marked and enqueued. -/
def State.discover (s : State α) (a : α) : State α :=
  if a ∈ s.visited then s else ⟨insert a s.visited, s.pending ++ [a]⟩

/-- The front of the queue is removed, and its successors are discovered. -/
def State.step (next : α → List α) (s : State α) : State α :=
  match s.pending with
  | [] => s
  | current :: pending => (next current).foldl State.discover ⟨s.visited, pending⟩

/-- Steps until the queue is empty, at most `fuel` of them. -/
def drain (next : α → List α) : ℕ → State α → Option (Finset α)
  | 0, s => if s.pending = [] then some s.visited else none
  | fuel + 1, s => if s.pending = [] then some s.visited else drain next fuel (s.step next)

theorem mem_visited_discover (l : List α) (s : State α) (a : α) :
    a ∈ (l.foldl State.discover s).visited ↔ a ∈ s.visited ∨ a ∈ l := by
  induction l generalizing s with
  | nil => simp
  | cons b l ih =>
    rw [List.foldl_cons, ih, List.mem_cons]
    by_cases hb : b ∈ s.visited
    · rw [State.discover, if_pos hb]
      constructor
      · rintro (ha | ha)
        · exact .inl ha
        · exact .inr (.inr ha)
      · rintro (ha | rfl | ha)
        · exact .inl ha
        · exact .inl hb
        · exact .inr ha
    · rw [State.discover, if_neg hb, Finset.mem_insert]
      tauto

theorem mem_pending_discover (l : List α) (s : State α) (a : α) :
    a ∈ (l.foldl State.discover s).pending ↔ a ∈ s.pending ∨ a ∈ l ∧ a ∉ s.visited := by
  induction l generalizing s with
  | nil => simp
  | cons b l ih =>
    rw [List.foldl_cons, ih, List.mem_cons]
    by_cases hb : b ∈ s.visited
    · rw [State.discover, if_pos hb]
      constructor
      · rintro (ha | ⟨ha, hvisited⟩)
        · exact .inl ha
        · exact .inr ⟨.inr ha, hvisited⟩
      · rintro (ha | ⟨rfl | ha, hvisited⟩)
        · exact .inl ha
        · exact absurd hb hvisited
        · exact .inr ⟨ha, hvisited⟩
    · rw [State.discover, if_neg hb, Finset.mem_insert, List.mem_append, List.mem_singleton]
      by_cases hab : a = b
      · subst hab
        simp [hb]
      · simp [hab]

/-- Every discovered vertex is marked once and enqueued once. -/
theorem length_pending_discover (l : List α) (s : State α) :
    (l.foldl State.discover s).pending.length + s.visited.card =
      s.pending.length + (l.foldl State.discover s).visited.card := by
  induction l generalizing s with
  | nil => rfl
  | cons b l ih =>
    rw [List.foldl_cons]
    have hrest := ih (s.discover b)
    by_cases hb : b ∈ s.visited
    · rw [State.discover, if_pos hb] at hrest ⊢
      exact hrest
    · rw [State.discover, if_neg hb] at hrest ⊢
      rw [Finset.card_insert_of_notMem hb, List.length_append, List.length_singleton] at hrest
      omega

/-- A traversal from `root`, started when the vertices of `old` were visited. -/
structure Exploring (next : α → List α) (old : Finset α) (root : α) (s : State α) : Prop where
  old_subset : old ⊆ s.visited
  root_mem : root ∈ s.visited
  pending : ∀ a ∈ s.pending, a ∈ s.visited ∧ Reach next root a
  visited : ∀ a ∈ s.visited, a ∈ old ∨ Reach next root a
  /-- The successors of what has left the queue are visited. -/
  closed : ∀ a ∈ s.visited, a ∉ s.pending → ∀ b ∈ next a, b ∈ s.visited

namespace Exploring

variable {old : Finset α} {root : α} {s : State α}

theorem start (hclosed : ∀ a ∈ old, ∀ b ∈ next a, b ∈ old) :
    Exploring next old root ⟨insert root old, [root]⟩ where
  old_subset := Finset.subset_insert root old
  root_mem := Finset.mem_insert_self root old
  pending a ha := by
    rw [List.mem_singleton] at ha
    subst ha
    exact ⟨Finset.mem_insert_self a old, .refl⟩
  visited a ha := by
    rcases Finset.mem_insert.mp ha with rfl | ha
    · exact .inr .refl
    · exact .inl ha
  closed a ha hnot b hb := by
    rcases Finset.mem_insert.mp ha with rfl | ha
    · exact absurd (List.mem_singleton.mpr rfl) hnot
    · exact Finset.mem_insert_of_mem (hclosed a ha b hb)

theorem step (h : Exploring next old root s) : Exploring next old root (s.step next) := by
  obtain ⟨visited, pending⟩ := s
  cases pending with
  | nil => exact h
  | cons current pending =>
    obtain ⟨hcurrent, hreach⟩ := h.pending current List.mem_cons_self
    have hvisited (a : α) := mem_visited_discover (next current) ⟨visited, pending⟩ a
    have hpending (a : α) := mem_pending_discover (next current) ⟨visited, pending⟩ a
    refine ⟨?_, ?_, ?_, ?_, ?_⟩
    · intro a ha
      exact (hvisited a).mpr (.inl (h.old_subset ha))
    · exact (hvisited root).mpr (.inl h.root_mem)
    · intro a ha
      rcases (hpending a).mp ha with hold | ⟨hnew, -⟩
      · obtain ⟨hmem, hpath⟩ := h.pending a (List.mem_cons_of_mem current hold)
        exact ⟨(hvisited a).mpr (.inl hmem), hpath⟩
      · exact ⟨(hvisited a).mpr (.inr hnew), hreach.tail hnew⟩
    · intro a ha
      rcases (hvisited a).mp ha with hold | hnew
      · exact h.visited a hold
      · exact .inr (hreach.tail hnew)
    · intro a ha hnot b hb
      rw [State.step, hpending, not_or, not_and, not_not] at hnot
      rw [State.step, hvisited] at ha ⊢
      by_cases hac : a = current
      · subst hac
        exact .inr hb
      · have hmem : a ∈ visited := ha.elim id hnot.2
        exact .inl (h.closed a hmem (by simpa [hac] using hnot.1) b hb)

theorem drain {fuel : ℕ} {visited : Finset α} (h : Exploring next old root s)
    (hdrain : Traversal.drain next fuel s = some visited) :
    Exploring next old root ⟨visited, []⟩ := by
  induction fuel generalizing s with
  | zero =>
    obtain ⟨seen, pending⟩ := s
    rw [Traversal.drain] at hdrain
    split at hdrain
    · rename_i hempty
      cases hdrain
      cases hempty
      exact h
    · cases hdrain
  | succ fuel ih =>
    obtain ⟨seen, pending⟩ := s
    rw [Traversal.drain] at hdrain
    split at hdrain
    · rename_i hempty
      cases hdrain
      cases hempty
      exact h
    · exact ih h.step hdrain

omit [DecidableEq α] in
/-- A finished traversal has visited exactly what its root reaches. -/
theorem mem_iff {visited : Finset α} (h : Exploring next old root ⟨visited, []⟩) (b : α) :
    b ∈ visited ↔ b ∈ old ∨ Reach next root b := by
  constructor
  · exact h.visited b
  · rintro (hold | hreach)
    · exact h.old_subset hold
    · exact hreach.mem_of_closed (s := {a | a ∈ visited})
        (fun a ha c hc => h.closed a ha List.not_mem_nil c hc) h.root_mem

end Exploring

/-- One step removes one vertex from the queue, and every vertex enters it once. -/
theorem exists_drain {all : Finset α} (hall : ∀ a ∈ all, ∀ b ∈ next a, b ∈ all) (fuel : ℕ)
    (s : State α) (hvisited : s.visited ⊆ all) (hpending : ∀ a ∈ s.pending, a ∈ s.visited)
    (hfuel : all.card + s.pending.length ≤ fuel + s.visited.card) :
    ∃ visited, drain next fuel s = some visited := by
  induction fuel generalizing s with
  | zero =>
    have hcard := Finset.card_le_card hvisited
    have hempty : s.pending = [] := List.length_eq_zero_iff.mp (by omega)
    exact ⟨s.visited, if_pos hempty⟩
  | succ fuel ih =>
    obtain ⟨visited, pending⟩ := s
    cases pending with
    | nil => exact ⟨visited, rfl⟩
    | cons current pending =>
      have hcurrent : current ∈ visited := hpending current List.mem_cons_self
      have hmem (a : α) := mem_visited_discover (next current) ⟨visited, pending⟩ a
      have hlength := length_pending_discover (next current) ⟨visited, pending⟩
      refine ih (State.step next ⟨visited, current :: pending⟩) ?_ ?_ ?_
      · intro a ha
        rcases (hmem a).mp ha with hold | hnew
        · exact hvisited hold
        · exact hall current (hvisited hcurrent) a hnew
      · intro a ha
        rw [State.step, mem_pending_discover] at ha
        rw [State.step, hmem]
        rcases ha with hold | ⟨hnew, -⟩
        · exact .inl (hpending a (List.mem_cons_of_mem current hold))
        · exact .inr hnew
      · simp only [List.length_cons] at hfuel hlength
        simp only [State.step]
        omega

/-! ### The sweep over all vertices -/

/-- One traversal is started and counted, unless the vertex is visited already. -/
def visit (next : α → List α) (fuel : ℕ) (acc : Finset α × ℕ) (root : α) : Option (Finset α × ℕ) :=
  if root ∈ acc.1 then some acc
  else (drain next fuel ⟨insert root acc.1, [root]⟩).map fun visited => (visited, acc.2 + 1)

/-- The number of traversals that are started when the vertices are taken in some order. -/
def components (next : α → List α) (fuel : ℕ) (order : List α) : Option ℕ :=
  (order.foldlM (visit next fuel) (∅, 0)).map Prod.snd

/-- The vertices of `done` have been taken. -/
structure Swept (next : α → List α) (done : List α) (acc : Finset α × ℕ) : Prop where
  mem_iff : ∀ b, b ∈ acc.1 ↔ ∃ a ∈ done, Reach next a b
  count : acc.2 = (component next '' {a | a ∈ done}).ncard

omit [DecidableEq α] in
theorem Swept.closed {done : List α} {acc : Finset α × ℕ} (h : Swept next done acc) :
    ∀ a ∈ acc.1, ∀ b ∈ next a, b ∈ acc.1 := by
  intro a ha b hb
  obtain ⟨root, hroot, hreach⟩ := (h.mem_iff a).mp ha
  exact (h.mem_iff b).mpr ⟨root, hroot, hreach.tail hb⟩

section

variable (hsymm : ∀ a b, b ∈ next a → a ∈ next b) {all : Finset α}
  (hall : ∀ a ∈ all, ∀ b ∈ next a, b ∈ all) {fuel : ℕ} (hfuel : all.card ≤ fuel)

include hsymm hall hfuel

theorem Swept.visit {done : List α} {acc : Finset α × ℕ} (h : Swept next done acc)
    (hdone : ∀ a ∈ done, a ∈ all) {root : α} (hroot : root ∈ all) :
    ∃ acc', Traversal.visit next fuel acc root = some acc' ∧ Swept next (done ++ [root]) acc' := by
  have hsnoc : {a | a ∈ done ++ [root]} = insert root {a | a ∈ done} := by
    ext a
    simp [or_comm]
  by_cases hmem : root ∈ acc.1
  · -- the component of the root has been counted
    obtain ⟨a₀, ha₀, hreach⟩ := (h.mem_iff root).mp hmem
    refine ⟨acc, if_pos hmem, ?_, ?_⟩
    · intro b
      rw [h.mem_iff]
      constructor
      · rintro ⟨a, ha, hab⟩
        exact ⟨a, List.mem_append_left [root] ha, hab⟩
      · rintro ⟨a, ha, hab⟩
        rcases List.mem_append.mp ha with ha | ha
        · exact ⟨a, ha, hab⟩
        · rw [List.mem_singleton] at ha
          subst ha
          exact ⟨a₀, ha₀, hreach.trans hab⟩
    · rw [h.count, hsnoc, Set.image_insert_eq, Set.insert_eq_of_mem]
      exact ⟨a₀, ha₀, (component_eq_iff hsymm).mpr hreach⟩
  · have hsub : acc.1 ⊆ all := by
      intro b hb
      obtain ⟨a, ha, hab⟩ := (h.mem_iff b).mp hb
      exact hab.mem_of_closed (s := {a | a ∈ all}) hall (hdone a ha)
    obtain ⟨visited, hdrain⟩ := exists_drain hall fuel ⟨insert root acc.1, [root]⟩
      (Finset.insert_subset hroot hsub) (by simp) (by
        rw [Finset.card_insert_of_notMem hmem, List.length_singleton]
        omega)
    have hvisited := (Exploring.start h.closed).drain hdrain
    refine ⟨(visited, acc.2 + 1), ?_, ?_, ?_⟩
    · rw [Traversal.visit, if_neg hmem, hdrain, Option.map_some]
    · intro b
      rw [hvisited.mem_iff, h.mem_iff]
      constructor
      · rintro (⟨a, ha, hab⟩ | hrb)
        · exact ⟨a, List.mem_append_left [root] ha, hab⟩
        · exact ⟨root, List.mem_append_right done (List.mem_singleton.mpr rfl), hrb⟩
      · rintro ⟨a, ha, hab⟩
        rcases List.mem_append.mp ha with ha | ha
        · exact .inl ⟨a, ha, hab⟩
        · rw [List.mem_singleton] at ha
          subst ha
          exact .inr hab
    · have hnew : component next root ∉ component next '' {a | a ∈ done} := by
        rintro ⟨a, ha, heq⟩
        exact hmem ((h.mem_iff root).mpr ⟨a, ha, (component_eq_iff hsymm).mp heq⟩)
      have hfinite : (component next '' {a | a ∈ done}).Finite := (List.finite_toSet done).image _
      rw [hsnoc, Set.image_insert_eq, Set.ncard_insert_of_notMem hnew hfinite, h.count]

theorem Swept.foldlM {done : List α} {acc : Finset α × ℕ} (h : Swept next done acc)
    (hdone : ∀ a ∈ done, a ∈ all) (order : List α) (horder : ∀ a ∈ order, a ∈ all) :
    ∃ acc', order.foldlM (Traversal.visit next fuel) acc = some acc' ∧
      Swept next (done ++ order) acc' := by
  induction order generalizing done acc with
  | nil => exact ⟨acc, rfl, by rwa [List.append_nil]⟩
  | cons root order ih =>
    have hroot := horder root List.mem_cons_self
    obtain ⟨acc', hvisit, hswept⟩ := h.visit hsymm hall hfuel hdone hroot
    have hdone' : ∀ a ∈ done ++ [root], a ∈ all := by
      intro a ha
      rcases List.mem_append.mp ha with ha | ha
      · exact hdone a ha
      · rwa [List.mem_singleton.mp ha]
    obtain ⟨acc'', hfold, hrest⟩ :=
      ih hswept hdone' fun a ha => horder a (List.mem_cons_of_mem root ha)
    refine ⟨acc'', ?_, by rwa [List.append_cons]⟩
    rw [List.foldlM_cons, hvisit]
    exact hfold

/-- The sweep ends, and counts the sets of vertices that reach one another. -/
theorem components_eq_ncard (order : List α) (horder : ∀ a ∈ order, a ∈ all) :
    components next fuel order = some (component next '' {a | a ∈ order}).ncard := by
  have hstart : Swept next [] (∅, 0) := ⟨by simp, by simp⟩
  obtain ⟨acc, hfold, hswept⟩ :=
    hstart.foldlM hsymm hall hfuel (by simp) order horder
  rw [components, hfold, Option.map_some, hswept.count, List.nil_append]

end

/-! ### Classes of connected vertices -/

section

omit [DecidableEq α]

variable (hsymm : ∀ a b, b ∈ next a → a ∈ next b) {s : Set α}
  (hs : ∀ a ∈ s, ∀ b ∈ next a, b ∈ s)

include hsymm hs

theorem eqvGen_iff_reach (a b : s) :
    Relation.EqvGen (fun a b : s => (b : α) ∈ next a) a b ↔ Reach next a b := by
  constructor
  · intro h
    induction h with
    | rel a b hab => exact .single hab
    | refl a => exact .refl
    | symm a b _ ih => exact ih.symm hsymm
    | trans a b c _ _ hab hbc => exact hab.trans hbc
  · obtain ⟨a, ha⟩ := a
    obtain ⟨b, hb⟩ := b
    intro h
    change Reach next a b at h
    induction h with
    | refl => exact .refl _
    | @tail b c hab hbc ih =>
      have hmem : b ∈ s := Reach.mem_of_closed hs hab ha
      exact .trans _ ⟨b, hmem⟩ _ (ih hmem) (.rel _ _ hbc)

/-- The sets of connected vertices are the classes of the generated equivalence. -/
theorem ncard_component_image :
    (component next '' s).ncard =
      Nat.card (Quotient (Relation.EqvGen.setoid fun a b : s => (b : α) ∈ next a)) := by
  have hclass (a b : s) : Relation.EqvGen (fun a b : s => (b : α) ∈ next a) a b ↔
      component next (a : α) = component next b := by
    rw [eqvGen_iff_reach hsymm hs, component_eq_iff hsymm]
  let f : Quotient (Relation.EqvGen.setoid fun a b : s => (b : α) ∈ next a) → Set α :=
    Quotient.lift (fun a : s => component next (a : α)) fun a b hab => (hclass a b).mp hab
  have hinjective : Function.Injective f := by
    intro x y
    induction x using Quotient.inductionOn with | h a =>
    induction y using Quotient.inductionOn with | h b =>
    intro heq
    exact Quotient.sound ((hclass a b).mpr heq)
  have hrange : Set.range f = component next '' s := by
    ext c
    constructor
    · rintro ⟨x, rfl⟩
      induction x using Quotient.inductionOn with | h a =>
      exact ⟨a, a.2, rfl⟩
    · rintro ⟨a, ha, rfl⟩
      exact ⟨Quotient.mk _ ⟨a, ha⟩, rfl⟩
  rw [← hrange, Set.ncard_range_of_injective hinjective]

end

end Traversal
