import Ollog.Lib.Effects

/-!
# Programs on a part of a store

A store is often made of parts, and a program is written for the store although it only looks at
one of them.  `Focuses view rest m m'` says that `m` does on the part `view s` of its store what
`m'` does on a store that is nothing but this part, and that the `rest` of the store stays as it is.

The rules follow the structure of programs, so a program focuses when the calls it makes of the
store do.  What it is good for is said at the end: nothing outside of the part changes
(`Focuses.rest_after`), and nothing outside of it matters (`Focuses.result_eq`).
-/

set_option autoImplicit false

namespace Effects

variable {ε σ τ ρ α β ι : Type}

/-- `m` does on a part of its store what `m'` does on the part alone, and leaves the rest alone. -/
def Focuses (view : σ → τ) (rest : σ → ρ) (m : EStateM ε σ α) (m' : EStateM ε τ α) : Prop :=
  ∀ s, wp m' (fun a t ↦ ∃ s', m s = .ok a s' ∧ view s' = t ∧ rest s' = rest s)
    (fun e t ↦ ∃ s', m s = .error e s' ∧ view s' = t ∧ rest s' = rest s) (view s)

/-- What a program has returned or raised. -/
def result (m : EStateM ε σ α) (s : σ) : Except ε α :=
  match m s with
  | .ok a _ => .ok a
  | .error e _ => .error e

namespace Focuses

variable {view : σ → τ} {rest : σ → ρ}

/-! ## Rules -/

theorem pure (a : α) :
    Focuses view rest (Pure.pure a : EStateM ε σ α) (Pure.pure a : EStateM ε τ α) :=
  fun s ↦ ⟨s, rfl, rfl, rfl⟩

theorem throw (e : ε) : Focuses view rest (throw e : EStateM ε σ α) (throw e : EStateM ε τ α) :=
  fun s ↦ ⟨s, rfl, rfl, rfl⟩

theorem ofExcept (r : Except ε α) :
    Focuses view rest (ofExcept r : EStateM ε σ α) (ofExcept r : EStateM ε τ α) := by
  cases r with
  | error e => exact .throw e
  | ok a => exact .pure a

theorem bind {m : EStateM ε σ α} {m' : EStateM ε τ α} {f : α → EStateM ε σ β}
    {f' : α → EStateM ε τ β} (h : Focuses view rest m m')
    (hf : ∀ a, Focuses view rest (f a) (f' a)) :
    Focuses view rest (m >>= f) (m' >>= f') := by
  intro s
  rw [wp_bind]
  refine wp_mono (h s) ?_ ?_
  · rintro a _ ⟨t, hm, rfl, hrest⟩
    refine wp_mono (hf a t) ?_ ?_
    · rintro b _ ⟨u, hb, rfl, hrest'⟩
      exact ⟨u, run_bind_eq_ok.2 ⟨a, t, hm, hb⟩, rfl, hrest'.trans hrest⟩
    · rintro e _ ⟨u, he, rfl, hrest'⟩
      exact ⟨u, run_bind_eq_error.2 (.inr ⟨a, t, hm, he⟩), rfl, hrest'.trans hrest⟩
  · rintro e _ ⟨t, hm, rfl, hrest⟩
    exact ⟨t, run_bind_eq_error.2 (.inl hm), rfl, hrest⟩

theorem catching {m : EStateM ε σ α} {m' : EStateM ε τ α} {h : ε → EStateM ε σ α}
    {h' : ε → EStateM ε τ α} (hm : Focuses view rest m m')
    (hh : ∀ e, Focuses view rest (h e) (h' e)) :
    Focuses view rest (tryCatch m h) (tryCatch m' h') := by
  intro s
  have htry : (tryCatch m h : EStateM ε σ α) s = EStateM.tryCatch m h s := rfl
  refine wp_tryCatch.2 (wp_mono (hm s) ?_ ?_)
  · rintro a _ ⟨t, hok, rfl, hrest⟩
    exact ⟨t, by rw [htry, EStateM.tryCatch, hok], rfl, hrest⟩
  · rintro e _ ⟨t, herror, rfl, hrest⟩
    have hcaught : (tryCatch m h : EStateM ε σ α) s = h e t := by
      rw [htry, EStateM.tryCatch, herror]
      rfl
    rw [← hrest, hcaught]
    exact hh e t

theorem ite {c : Prop} [Decidable c] {m n : EStateM ε σ α} {m' n' : EStateM ε τ α}
    (hm : c → Focuses view rest m m') (hn : ¬ c → Focuses view rest n n') :
    Focuses view rest (if c then m else n) (if c then m' else n') := by
  split
  · exact hm ‹c›
  · exact hn ‹¬ c›

theorem foldlM {f : β → ι → EStateM ε σ β} {f' : β → ι → EStateM ε τ β}
    (h : ∀ b i, Focuses view rest (f b i) (f' b i)) (items : List ι) (b : β) :
    Focuses view rest (items.foldlM f b) (items.foldlM f' b) := by
  induction items generalizing b with
  | nil => exact .pure b
  | cons i items ih =>
    rw [List.foldlM_cons, List.foldlM_cons]
    exact (h b i).bind ih

/-! ## What focusing is good for -/

variable {m : EStateM ε σ α} {m' : EStateM ε τ α}

/-- What is left of the part is what the program on the part leaves. -/
theorem view_after (h : Focuses view rest m m') (s : σ) : view (after m s) = after m' (view s) := by
  have hs := h s
  rw [wp] at hs
  rw [after, after]
  cases hm' : m' (view s) with
  | ok a t =>
    rw [hm'] at hs
    obtain ⟨s', hm, rfl, -⟩ := hs
    rw [hm]
  | error e t =>
    rw [hm'] at hs
    obtain ⟨s', hm, rfl, -⟩ := hs
    rw [hm]

/-- **Nothing outside of the part changes.** -/
theorem rest_after (h : Focuses view rest m m') (s : σ) : rest (after m s) = rest s := by
  have hs := h s
  rw [wp] at hs
  rw [after]
  cases hm' : m' (view s) with
  | ok a t =>
    rw [hm'] at hs
    obtain ⟨s', hm, -, hrest⟩ := hs
    rw [hm, hrest]
  | error e t =>
    rw [hm'] at hs
    obtain ⟨s', hm, -, hrest⟩ := hs
    rw [hm, hrest]

/-- What the program returns or raises is what the program on the part does. -/
theorem result_view (h : Focuses view rest m m') (s : σ) : result m s = result m' (view s) := by
  have hs := h s
  rw [wp] at hs
  rw [result, result]
  cases hm' : m' (view s) with
  | ok a t =>
    rw [hm'] at hs
    obtain ⟨s', hm, -, -⟩ := hs
    rw [hm]
  | error e t =>
    rw [hm'] at hs
    obtain ⟨s', hm, -, -⟩ := hs
    rw [hm]

/-- **Nothing outside of the part matters.** -/
theorem result_eq (h : Focuses view rest m m') {s s' : σ} (hview : view s = view s') :
    result m s = result m s' ∧ view (after m s) = view (after m s') := by
  rw [h.result_view, h.result_view, h.view_after, h.view_after, hview]
  exact ⟨rfl, rfl⟩

end Focuses

end Effects
