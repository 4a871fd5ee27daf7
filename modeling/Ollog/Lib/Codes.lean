import Mathlib.Data.List.Basic

/-!
# Texts that can be taken apart

A printer writes a value in front of other text.  The value can be read off if no other value has a
text that begins the same way; for some printers, such as that of a number, this needs that what
follows begins with a symbol that the text cannot go on with.

`Determines` says so of two values, and `flatMap_inj` lifts it to lists of them up to a closing
symbol.
-/

set_option autoImplicit false

namespace Ollog.Codes

variable {α χ : Type} {ends : χ → Prop} {code : α → List χ}

/-- Text that is empty or begins with a symbol of a kind. -/
def Begins (ends : χ → Prop) (r : List χ) : Prop := ∀ c ∈ r.head?, ends c

@[simp] theorem begins_nil : Begins ends [] := by simp [Begins]

@[simp] theorem begins_cons {c : χ} {r : List χ} : Begins ends (c :: r) ↔ ends c := by
  simp [Begins]

/-- In front of text of the right kind, the texts of two values are the same only if the values
are. -/
def Determines (ends : χ → Prop) (code : α → List χ) (a b : α) : Prop :=
  ∀ r r', Begins ends r → Begins ends r' → code a ++ r = code b ++ r' → a = b ∧ r = r'

/-- A text from symbols of one kind in front of symbols of the other kind. -/
theorem append_inj_of_begins {p : χ → Bool} {cs ds r r' : List χ} (hcs : ∀ c ∈ cs, p c = true)
    (hds : ∀ c ∈ ds, p c = true) (hr : Begins (p · = false) r) (hr' : Begins (p · = false) r')
    (h : cs ++ r = ds ++ r') : cs = ds ∧ r = r' := by
  have hspan : ∀ {cs r : List χ}, (∀ c ∈ cs, p c = true) → Begins (p · = false) r →
      (cs ++ r).takeWhile p = cs := by
    intro cs r hcs hr
    rw [List.takeWhile_append_of_pos hcs]
    rcases r with _ | ⟨c, r⟩
    · simp
    · simp [begins_cons.1 hr]
  have hcode : cs = ds := (hspan hcs hr).symm.trans ((congrArg (List.takeWhile p) h).trans
    (hspan hds hr'))
  subst hcode
  exact ⟨rfl, List.append_cancel_left h⟩

/-- **A list up to a closing symbol** can be read off if its elements can, and none of them is
mistaken for the closing symbol. -/
theorem flatMap_inj (ends : χ → Prop) {close : χ} {xs ys : List α} {r r' : List χ}
    (hclose : ends close)
    (hstart : ∀ x, ∃ c cs, code x = c :: cs ∧ ends c ∧ c ≠ close)
    (hcode : ∀ x ∈ xs, ∀ y ∈ ys, Determines ends code x y)
    (h : xs.flatMap code ++ close :: r = ys.flatMap code ++ close :: r') : xs = ys ∧ r = r' := by
  have hbegins : ∀ (zs : List α) (r : List χ), Begins ends (zs.flatMap code ++ close :: r) := by
    rintro (_ | ⟨z, zs⟩) r
    · simpa using hclose
    · obtain ⟨c, cs, hz, hc, -⟩ := hstart z
      simpa [hz] using hc
  induction xs generalizing ys with
  | nil =>
    rcases ys with _ | ⟨y, ys⟩
    · simpa using h
    · obtain ⟨c, cs, hy, -, hne⟩ := hstart y
      simp [hy, hne.symm] at h
  | cons x xs ih =>
    rcases ys with _ | ⟨y, ys⟩
    · obtain ⟨c, cs, hx, -, hne⟩ := hstart x
      simp [hx, hne] at h
    · rw [List.flatMap_cons, List.flatMap_cons, List.append_assoc, List.append_assoc] at h
      obtain ⟨rfl, hrest⟩ := hcode x List.mem_cons_self y List.mem_cons_self _ _
        (hbegins xs r) (hbegins ys r') h
      obtain ⟨rfl, hr⟩ := ih (fun x hx y hy ↦
        hcode x (List.mem_cons_of_mem _ hx) y (List.mem_cons_of_mem _ hy)) hrest
      exact ⟨rfl, hr⟩

/-! ## Separated lists -/

/-- A separated list is a list in which each element is written behind a separator. -/
theorem cons_intercalate (sep : χ) (x : α) (xs : List α) :
    sep :: [sep].intercalate ((x :: xs).map code) = (x :: xs).flatMap fun x ↦ sep :: code x := by
  induction xs generalizing x with
  | nil => simp
  | cons y ys ih =>
    have hy := ih y
    rw [List.map_cons] at hy
    rw [List.map_cons, List.map_cons, List.intercalate_cons_cons, List.flatMap_cons, ← hy]
    simp

/-- **A separated list up to a closing symbol** can be read off if its elements can. -/
theorem intercalate_inj {sep close : χ} {xs ys : List α} {r r' : List χ} (hsep : ends sep)
    (hclose : ends close) (hne : sep ≠ close)
    (hxs : ∀ x ∈ xs, ∃ c cs, code x = c :: cs ∧ c ≠ close)
    (hys : ∀ y ∈ ys, ∃ c cs, code y = c :: cs ∧ c ≠ close)
    (hcode : ∀ x ∈ xs, ∀ y ∈ ys, Determines ends code x y)
    (h : [sep].intercalate (xs.map code) ++ close :: r =
      [sep].intercalate (ys.map code) ++ close :: r') : xs = ys ∧ r = r' := by
  have hempty : ∀ {x : α} {xs : List α} {r r' : List χ}, (∃ c cs, code x = c :: cs ∧ c ≠ close) →
      close :: r ≠ [sep].intercalate ((x :: xs).map code) ++ close :: r' := by
    rintro x xs r r' ⟨c, cs, hx, hc⟩ h
    have h' := congrArg (sep :: ·) h
    simp only [← List.cons_append, cons_intercalate] at h'
    simp [hx, hc.symm] at h'
  rcases xs with _ | ⟨x, xs⟩ <;> rcases ys with _ | ⟨y, ys⟩
  · simpa using h
  · exact absurd (by simpa using h) (hempty (hys y List.mem_cons_self))
  · exact absurd (by simpa using h.symm) (hempty (hxs x List.mem_cons_self))
  · have h' := congrArg (sep :: ·) h
    simp only [← List.cons_append, cons_intercalate] at h'
    refine flatMap_inj ends hclose (fun x ↦ ⟨sep, code x, rfl, hsep, hne⟩)
      (fun x hx y hy r r' hr hr' heq ↦ ?_) h'
    exact hcode x hx y hy r r' hr hr' (List.cons.inj heq).2

end Ollog.Codes
