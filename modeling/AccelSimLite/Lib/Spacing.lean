import Mathlib.Data.List.DropRight
import Mathlib.Data.List.Forall2

/-!
# Blanks in a text

Texts over an alphabet in which some symbols are blank and some separate fields.
Adding blanks at the ends of a text or next to one of its separators is kept by
splitting the text and by trimming it, so that the same relation holds of a text, of
its fields and of the fields of a field.

## Main definitions

- `Spacing.trim` — a text without the blanks at its ends
- `Spacing.Spaced` — blanks added at one place

## Main results

- `Spacing.Spaced.trim` — a trimmed text is spaced alike
- `Spacing.Spaced.splitOn` — so are the fields
- `Spacing.Spaced.trim_iff` — what is said of trimmed texts without separators
-/

namespace Spacing

variable {α : Type*} (blank : α → Bool) (separators : List α)

def trim (x : List α) : List α := (x.dropWhile blank).rdropWhile blank

/-- Blanks are added at an end of the text, or next to a separator. -/
inductive Spaced : List α → List α → Prop
  | start {x pad : List α} (hpad : ∀ c ∈ pad, blank c = true) : Spaced x (pad ++ x)
  | stop {x pad : List α} (hpad : ∀ c ∈ pad, blank c = true) : Spaced x (x ++ pad)
  | before {a b pad : List α} {c : α} (hc : c ∈ separators)
      (hpad : ∀ c ∈ pad, blank c = true) : Spaced (a ++ c :: b) (a ++ pad ++ c :: b)
  | after {a b pad : List α} {c : α} (hc : c ∈ separators)
      (hpad : ∀ c ∈ pad, blank c = true) : Spaced (a ++ c :: b) (a ++ c :: (pad ++ b))

variable {blank separators}

theorem Spaced.refl (x : List α) : Spaced blank separators x x := by
  change Spaced blank separators x ([] ++ x)
  exact .start (by simp)

/-! ### Trimming -/

section Trim

variable {x pad a b : List α} {c : α}

theorem trim_start (hpad : ∀ c ∈ pad, blank c = true) : trim blank (pad ++ x) = trim blank x := by
  rw [trim, List.dropWhile_append_of_pos hpad, trim]

theorem rdropWhile_stop (hpad : ∀ c ∈ pad, blank c = true) :
    (x ++ pad).rdropWhile blank = x.rdropWhile blank := by
  have hreverse : ∀ c ∈ pad.reverse, blank c = true := by simpa using hpad
  rw [List.rdropWhile, List.reverse_append, List.dropWhile_append_of_pos hreverse,
    List.rdropWhile]

/-- Behind a text, blanks stay if anything of the text does. -/
theorem dropWhile_stop (x : List α) (hpad : ∀ c ∈ pad, blank c = true) :
    ∃ pad', (∀ c ∈ pad', blank c = true) ∧
      (x ++ pad).dropWhile blank = x.dropWhile blank ++ pad' := by
  rw [List.dropWhile_append]
  split
  · rename_i hblank
    have hnil : x.dropWhile blank = [] := by simpa using hblank
    refine ⟨[], by simp, ?_⟩
    rw [hnil, List.dropWhile_eq_nil_iff.mpr hpad, List.append_nil]
  · exact ⟨pad, hpad, rfl⟩

theorem rdropWhile_start (x : List α) (hpad : ∀ c ∈ pad, blank c = true) :
    ∃ pad', (∀ c ∈ pad', blank c = true) ∧
      (pad ++ x).rdropWhile blank = pad' ++ x.rdropWhile blank := by
  have hreverse : ∀ c ∈ pad.reverse, blank c = true := by simpa using hpad
  obtain ⟨pad', hpad', hdrop⟩ := dropWhile_stop x.reverse hreverse
  refine ⟨pad'.reverse, by simpa using hpad', ?_⟩
  rw [List.rdropWhile, List.reverse_append, hdrop, List.reverse_append, List.rdropWhile]

theorem trim_stop (hpad : ∀ c ∈ pad, blank c = true) : trim blank (x ++ pad) = trim blank x := by
  obtain ⟨pad', hpad', hdrop⟩ := dropWhile_stop x hpad
  rw [trim, hdrop, rdropWhile_stop hpad', trim]

/-- A symbol that is not blank keeps the blanks on its two sides apart. -/
theorem trim_append_cons (hc : blank c = false) :
    trim blank (a ++ c :: b) = a.dropWhile blank ++ c :: b.rdropWhile blank := by
  have hleft : (a ++ c :: b).dropWhile blank = a.dropWhile blank ++ c :: b := by
    rw [List.dropWhile_append]
    split
    · rename_i hblank
      rw [List.isEmpty_iff.mp hblank]
      exact List.dropWhile_cons_of_neg (by simp [hc])
    · rfl
  have hright (l : List α) : (l ++ c :: b).rdropWhile blank = l ++ c :: b.rdropWhile blank := by
    simp only [List.rdropWhile, List.reverse_append, List.reverse_cons, List.append_assoc]
    rw [List.dropWhile_append]
    split
    · rename_i hblank
      rw [List.isEmpty_iff.mp hblank]
      simp [hc]
    · simp
  rw [trim, hleft, hright]

theorem mem_trim_append_cons (hc : blank c = false) : c ∈ trim blank (a ++ c :: b) := by
  rw [trim_append_cons hc]
  simp

end Trim

namespace Spaced

variable {x x' : List α}

protected theorem trim (h : Spaced blank separators x x')
    (hseparators : ∀ c ∈ separators, blank c = false) :
    Spaced blank separators (trim blank x) (trim blank x') := by
  cases h with
  | start hpad =>
    rw [trim_start hpad]
    exact .refl _
  | stop hpad =>
    rw [trim_stop hpad]
    exact .refl _
  | @before a b pad c hc hpad =>
    obtain ⟨pad', hpad', hdrop⟩ := dropWhile_stop a hpad
    rw [trim_append_cons (hseparators c hc), trim_append_cons (hseparators c hc), hdrop]
    exact .before hc hpad'
  | @after a b pad c hc hpad =>
    obtain ⟨pad', hpad', hdrop⟩ := rdropWhile_start b hpad
    rw [trim_append_cons (hseparators c hc), trim_append_cons (hseparators c hc), hdrop]
    exact .after hc hpad'

/-- What is only ever true of texts without separators does not see the blanks. -/
theorem trim_iff {P : List α → Prop} (h : Spaced blank separators x x')
    (hseparators : ∀ c ∈ separators, blank c = false)
    (hP : ∀ y, P y → ∀ c ∈ separators, c ∉ y) : P (trim blank x) ↔ P (trim blank x') := by
  have hnot (a b : List α) {c : α} (hc : c ∈ separators) : ¬P (trim blank (a ++ c :: b)) :=
    fun hy => hP _ hy c hc (mem_trim_append_cons (hseparators c hc))
  cases h with
  | start hpad => rw [trim_start hpad]
  | stop hpad => rw [trim_stop hpad]
  | before hc hpad => exact iff_of_false (hnot _ _ hc) (hnot _ _ hc)
  | after hc hpad => exact iff_of_false (hnot _ _ hc) (hnot _ _ hc)

/-- The symbols that are not blank are the same. -/
theorem mem_iff (h : Spaced blank separators x x') {d : α} (hd : blank d = false) :
    d ∈ x ↔ d ∈ x' := by
  have hnot {pad : List α} (hpad : ∀ c ∈ pad, blank c = true) : d ∉ pad := by
    intro hmem
    simp [hpad d hmem] at hd
  cases h with
  | start hpad => simp [hnot hpad]
  | stop hpad => simp [hnot hpad]
  | before hc hpad => simp [hnot hpad]
  | after hc hpad => simp [hnot hpad]

end Spaced

/-! ### Splitting -/

theorem forall₂_refl (l : List (List α)) : List.Forall₂ (Spaced blank separators) l l :=
  List.forall₂_same.mpr fun x _ => .refl x

theorem forall₂_append {l₁ l₂ r₁ r₂ : List (List α)}
    (hl : List.Forall₂ (Spaced blank separators) l₁ l₂)
    (hr : List.Forall₂ (Spaced blank separators) r₁ r₂) :
    List.Forall₂ (Spaced blank separators) (l₁ ++ r₁) (l₂ ++ r₂) :=
  List.rel_append hl hr

section Split

variable [DecidableEq α] {d : α}

theorem splitOn_start (b : List α) :
    ∃ first rest, b.splitOn d = first :: rest ∧
      ∀ mid, d ∉ mid → (mid ++ b).splitOn d = (mid ++ first) :: rest := by
  obtain ⟨first, rest, hsplit⟩ := List.exists_cons_of_ne_nil (List.splitOn_ne_nil d b)
  refine ⟨first, rest, hsplit, ?_⟩
  intro mid hmid
  induction mid with
  | nil => exact hsplit
  | cons c mid ih =>
    rw [List.mem_cons, not_or] at hmid
    obtain ⟨hc, hmid⟩ := hmid
    have hbeq : ¬(c == d) = true := by simpa using Ne.symm hc
    rw [List.cons_append, List.splitOn_cons_eq_if_modifyHead, if_neg hbeq, ih hmid]
    rfl

/-- Between two texts, what is not split is put between the last field of the one
    and the first of the other. -/
theorem splitOn_middle (a b : List α) :
    ∃ init last first rest, a.splitOn d = init ++ [last] ∧ b.splitOn d = first :: rest ∧
      ∀ mid, d ∉ mid → (a ++ mid ++ b).splitOn d = init ++ (last ++ mid ++ first) :: rest := by
  induction a with
  | nil =>
    obtain ⟨first, rest, hsplit, hstart⟩ := splitOn_start (d := d) b
    exact ⟨[], [], first, rest, rfl, hsplit, hstart⟩
  | cons c a ih =>
    obtain ⟨init, last, first, rest, ha, hb, hmiddle⟩ := ih
    simp only [List.cons_append, List.splitOn_cons_eq_if_modifyHead, ha]
    by_cases hc : (c == d) = true
    · refine ⟨[] :: init, last, first, rest, ?_, hb, ?_⟩
      · rw [if_pos hc, List.cons_append]
      · intro mid hmid
        rw [if_pos hc, hmiddle mid hmid, List.cons_append]
    · cases init with
      | nil =>
        refine ⟨[], c :: last, first, rest, ?_, hb, ?_⟩
        · rw [if_neg hc]
          rfl
        · intro mid hmid
          rw [if_neg hc, hmiddle mid hmid]
          rfl
      | cons i init =>
        refine ⟨(c :: i) :: init, last, first, rest, ?_, hb, ?_⟩
        · rw [if_neg hc]
          rfl
        · intro mid hmid
          rw [if_neg hc, hmiddle mid hmid]
          rfl

variable {x x' : List α}

protected theorem Spaced.splitOn (h : Spaced blank separators x x') (hd : blank d = false) :
    List.Forall₂ (Spaced blank separators) (x.splitOn d) (x'.splitOn d) := by
  have hnot {pad : List α} (hpad : ∀ c ∈ pad, blank c = true) : d ∉ pad := by
    intro hmem
    simp [hpad d hmem] at hd
  have hstart (x : List α) {pad : List α} (hpad : ∀ c ∈ pad, blank c = true) :
      List.Forall₂ (Spaced blank separators) (x.splitOn d) ((pad ++ x).splitOn d) := by
    obtain ⟨first, rest, hsplit, hfields⟩ := splitOn_start (d := d) x
    rw [hsplit, hfields pad (hnot hpad)]
    exact .cons (.start hpad) (forall₂_refl rest)
  have hstop (x : List α) {pad : List α} (hpad : ∀ c ∈ pad, blank c = true) :
      List.Forall₂ (Spaced blank separators) (x.splitOn d) ((x ++ pad).splitOn d) := by
    obtain ⟨init, last, first, rest, hsplit, hnil, hfields⟩ := splitOn_middle (d := d) x []
    rw [List.splitOn_nil] at hnil
    cases hnil
    have hfields := hfields pad (hnot hpad)
    rw [List.append_nil, List.append_nil] at hfields
    rw [hsplit, hfields]
    exact forall₂_append (forall₂_refl init) (.cons (.stop hpad) .nil)
  cases h with
  | start hpad => exact hstart x hpad
  | stop hpad => exact hstop x hpad
  | @before a b pad c hc hpad =>
    by_cases hcd : c = d
    · -- the text is split there, and the blanks end the field before
      subst hcd
      rw [List.splitOn_append_cons_self, List.splitOn_append_cons_self]
      exact forall₂_append (hstop a hpad) (forall₂_refl _)
    · -- the separator stays within one field
      obtain ⟨init, last, first, rest, -, -, hfields⟩ := splitOn_middle (d := d) a b
      have hbefore := hfields [c] (by simpa using Ne.symm hcd)
      have hafter := hfields (pad ++ [c]) (by simpa [hnot hpad] using Ne.symm hcd)
      simp only [List.append_assoc, List.cons_append, List.nil_append] at hbefore hafter
      rw [List.append_assoc, hbefore, hafter]
      refine forall₂_append (forall₂_refl init) (.cons ?_ (forall₂_refl rest))
      rw [← List.append_assoc last pad]
      exact .before hc hpad
  | @after a b pad c hc hpad =>
    by_cases hcd : c = d
    · subst hcd
      rw [List.splitOn_append_cons_self, List.splitOn_append_cons_self]
      exact forall₂_append (forall₂_refl _) (hstart b hpad)
    · obtain ⟨init, last, first, rest, -, -, hfields⟩ := splitOn_middle (d := d) a b
      have hbefore := hfields [c] (by simpa using Ne.symm hcd)
      have hafter := hfields (c :: pad) (by simpa [hnot hpad] using Ne.symm hcd)
      simp only [List.append_assoc, List.cons_append, List.nil_append] at hbefore hafter
      rw [hbefore, hafter]
      exact forall₂_append (forall₂_refl init) (.cons (.after hc hpad) (forall₂_refl rest))

end Split

end Spacing
