import Mathlib.Tactic.Common

/-!
# Coroutines

A coroutine works on a state that it shares with others.  It is not interrupted until it awaits
something: then the others have their turn, and it goes on with the answer, which may be an
exception.

Two ways to look at a coroutine are given.  `advance` is one turn, from one `await` to the next; a
scheduler is made of these.  `wp` is about the whole run, with everything that may happen during the
turns of the others; `wp_iff_advance` says that it goes turn by turn.

Whoever cancels a coroutine has an exception delivered where it awaits.  `Forwards` says that the
coroutine ends at once when this happens, except while it awaits one of the things for which it does
not.
-/

set_option autoImplicit false

namespace Coroutine

variable {σ ε ω α β ι : Type} {ρ : ω → Type}

/-- A coroutine on a state of type `σ`: an `await` of `o` is answered by an exception or by what
`ρ o` is the type of. -/
inductive Coro (σ ε : Type) {ω : Type} (ρ : ω → Type) (α : Type) where
  | pure (a : α)
  | throw (e : ε)
  | get (k : σ → Coro σ ε ρ α)
  | set (s : σ) (k : Coro σ ε ρ α)
  | await (o : ω) (k : Except ε (ρ o) → Coro σ ε ρ α)

namespace Coro

/-- One coroutine, and another one on its result. -/
def bind (c : Coro σ ε ρ α) (f : α → Coro σ ε ρ β) : Coro σ ε ρ β :=
  match c with
  | pure a => f a
  | throw e => throw e
  | get k => get fun s ↦ bind (k s) f
  | set s k => set s (bind k f)
  | await o k => await o fun r ↦ bind (k r) f

instance : Monad (Coro σ ε ρ) where
  pure := pure
  bind := bind

/-- `try: ... except ...`. -/
def catching (c : Coro σ ε ρ α) (h : ε → Coro σ ε ρ α) : Coro σ ε ρ α :=
  match c with
  | pure a => pure a
  | throw e => h e
  | get k => get fun s ↦ catching (k s) h
  | set s k => set s (catching k h)
  | await o k => await o fun r ↦ catching (k r) h

/-- The state. -/
def state : Coro σ ε ρ σ := get pure

/-- Change the state. -/
def modify (f : σ → σ) : Coro σ ε ρ Unit := get fun s ↦ set (f s) (pure ())

/-- The result of something that is over. -/
def ofExcept (r : Except ε α) : Coro σ ε ρ α :=
  match r with
  | .ok a => pure a
  | .error e => throw e

/-- Await something. -/
def awaiting (o : ω) : Coro σ ε ρ (ρ o) := await o ofExcept

/-! ## One turn -/

/-- Where a coroutine is after a turn. -/
inductive Stage (σ ε : Type) {ω : Type} (ρ : ω → Type) (α : Type) where
  | returned (a : α)
  | raised (e : ε)
  | waiting (o : ω) (k : Except ε (ρ o) → Coro σ ε ρ α)

/-- One turn of a coroutine. -/
def advance (c : Coro σ ε ρ α) (s : σ) : Stage σ ε ρ α × σ :=
  match c with
  | pure a => (.returned a, s)
  | throw e => (.raised e, s)
  | get k => advance (k s) s
  | set s' k => advance k s'
  | await o k => (.waiting o k, s)

/-! ## A whole run -/

/-- What the others may do in their turn, and what they may answer. -/
structure Surroundings (σ ε : Type) {ω : Type} (ρ : ω → Type) where
  moves : σ → σ → Prop
  answers : (o : ω) → σ → Except ε (ρ o) → Prop

variable {W : Surroundings σ ε ρ} {Q : α → σ → Prop} {E : ε → σ → Prop} {s : σ}

/-- Whatever the others do, everything that is awaited can be answered, and the coroutine returns
with `Q` or raises with `E`. -/
def wp (W : Surroundings σ ε ρ) (c : Coro σ ε ρ α) (Q : α → σ → Prop) (E : ε → σ → Prop)
    (s : σ) : Prop :=
  match c with
  | pure a => Q a s
  | throw e => E e s
  | get k => wp W (k s) Q E s
  | set s' k => wp W k Q E s'
  | await o k => (∃ t r, W.moves s t ∧ W.answers o t r) ∧
      ∀ t r, W.moves s t → W.answers o t r → wp W (k r) Q E t

@[simp] theorem wp_pure {a : α} : wp W (Pure.pure a) Q E s ↔ Q a s := Iff.rfl

@[simp] theorem wp_throw {e : ε} : wp W (throw e) Q E s ↔ E e s := Iff.rfl

@[simp] theorem wp_state {Q : σ → σ → Prop} : wp W state Q E s ↔ Q s s := Iff.rfl

@[simp] theorem wp_modify {Q : Unit → σ → Prop} {f : σ → σ} :
    wp W (modify f) Q E s ↔ Q () (f s) := Iff.rfl

theorem wp_bind {c : Coro σ ε ρ α} {f : α → Coro σ ε ρ β} {Q : β → σ → Prop} :
    wp W (c >>= f) Q E s ↔ wp W c (fun a ↦ wp W (f a) Q E) E s := by
  show wp W (c.bind f) Q E s ↔ _
  induction c generalizing s with
  | pure a => exact Iff.rfl
  | throw e => exact Iff.rfl
  | get k ih => exact ih s
  | set s' k ih => exact ih
  | await o k ih => exact and_congr_right' (forall₄_congr fun t r _ _ ↦ ih r)

theorem wp_catching {c : Coro σ ε ρ α} {h : ε → Coro σ ε ρ α} :
    wp W (c.catching h) Q E s ↔ wp W c Q (fun e ↦ wp W (h e) Q E) s := by
  induction c generalizing s with
  | pure a => exact Iff.rfl
  | throw e => exact Iff.rfl
  | get k ih => exact ih s
  | set s' k ih => exact ih
  | await o k ih => exact and_congr_right' (forall₄_congr fun t r _ _ ↦ ih r)

theorem wp_ofExcept {r : Except ε α} : wp W (ofExcept r) Q E s ↔
    (∀ a, r = .ok a → Q a s) ∧ ∀ e, r = .error e → E e s := by
  cases r with
  | ok a => exact ⟨fun h ↦ ⟨fun _ ha ↦ Except.ok.inj ha ▸ h, fun _ he ↦ nomatch he⟩,
      fun h ↦ h.1 a rfl⟩
  | error e => exact ⟨fun h ↦ ⟨fun _ ha ↦ (nomatch ha), fun _ he ↦ Except.error.inj he ▸ h⟩,
      fun h ↦ h.2 e rfl⟩

theorem wp_awaiting {o : ω} {Q : ρ o → σ → Prop}
    (hanswer : ∃ t r, W.moves s t ∧ W.answers o t r)
    (hQ : ∀ t a, W.moves s t → W.answers o t (.ok a) → Q a t)
    (hE : ∀ t e, W.moves s t → W.answers o t (.error e) → E e t) :
    wp W (awaiting o) Q E s := by
  refine ⟨hanswer, fun t r hmoves hr ↦ wp_ofExcept.2 ⟨?_, ?_⟩⟩
  · rintro a rfl
    exact hQ t a hmoves hr
  · rintro e rfl
    exact hE t e hmoves hr

/-- What a run guarantees may be weakened. -/
theorem wp_mono {c : Coro σ ε ρ α} {Q' : α → σ → Prop} {E' : ε → σ → Prop} (h : wp W c Q E s)
    (hQ : ∀ a t, Q a t → Q' a t) (hE : ∀ e t, E e t → E' e t) : wp W c Q' E' s := by
  induction c generalizing s with
  | pure a => exact hQ a s h
  | throw e => exact hE e s h
  | get k ih => exact ih s h
  | set s' k ih => exact ih h
  | await o k ih => exact ⟨h.1, fun t r hmoves hr ↦ ih r (h.2 t r hmoves hr)⟩

/-- **Loops**, with what has been done so far. -/
theorem wp_forM {f : ι → Coro σ ε ρ Unit} (I : List ι → σ → Prop) {xs : List ι}
    (hf : ∀ done x todo t, xs = done ++ x :: todo → I done t →
      wp W (f x) (fun _ ↦ I (done ++ [x])) E t)
    (h : I [] s) : wp W (xs.forM f) (fun _ ↦ I xs) E s := by
  have hrest : ∀ todo done t, xs = done ++ todo → I done t →
      wp W (todo.forM f) (fun _ ↦ I xs) E t := by
    intro todo
    induction todo with
    | nil =>
      rintro done t hxs hI
      rw [List.append_nil] at hxs
      exact hxs ▸ hI
    | cons x todo ih =>
      intro done t hxs hI
      refine wp_bind.2 (wp_mono (hf done x todo t hxs hI) (fun _ t' hI' ↦ ?_) fun _ _ hE ↦ hE)
      exact ih (done ++ [x]) t' (by rw [hxs, List.append_assoc]; rfl) hI'
  exact hrest xs [] s rfl h

/-- A run goes turn by turn. -/
theorem wp_iff_advance {c : Coro σ ε ρ α} : wp W c Q E s ↔
    match advance c s with
    | (.returned a, t) => Q a t
    | (.raised e, t) => E e t
    | (.waiting o k, t) => (∃ t' r, W.moves t t' ∧ W.answers o t' r) ∧
        ∀ t' r, W.moves t t' → W.answers o t' r → wp W (k r) Q E t' := by
  induction c generalizing s with
  | pure a => exact Iff.rfl
  | throw e => exact Iff.rfl
  | get k ih => exact ih s
  | set s' k ih => exact ih
  | await o k => exact Iff.rfl

/-! ## Cancellation -/

variable {swallows : ω → Prop} {e : ε}

/-- Whatever the coroutine awaits, the exception that cancels it goes through at once, unless it
awaits something for which it is swallowed. -/
def Forwards (swallows : ω → Prop) (e : ε) (c : Coro σ ε ρ α) : Prop :=
  match c with
  | pure _ => True
  | throw _ => True
  | get k => ∀ s, Forwards swallows e (k s)
  | set _ k => Forwards swallows e k
  | await o k => (¬ swallows o → k (.error e) = throw e) ∧ ∀ r, Forwards swallows e (k r)

theorem forwards_pure (a : α) : Forwards swallows e (Pure.pure a : Coro σ ε ρ α) := trivial

theorem forwards_ofExcept (r : Except ε α) : Forwards swallows e (ofExcept r : Coro σ ε ρ α) := by
  cases r <;> exact trivial

theorem forwards_awaiting (o : ω) : Forwards swallows e (awaiting o : Coro σ ε ρ (ρ o)) :=
  ⟨fun _ ↦ rfl, forwards_ofExcept⟩

theorem Forwards.bind {c : Coro σ ε ρ α} {f : α → Coro σ ε ρ β} (hc : Forwards swallows e c)
    (hf : ∀ a, Forwards swallows e (f a)) : Forwards swallows e (c >>= f) := by
  show Forwards swallows e (c.bind f)
  induction c with
  | pure a => exact hf a
  | throw _ => exact trivial
  | get k ih => exact fun s ↦ ih s (hc s)
  | set _ k ih => exact ih hc
  | await o k ih =>
    refine ⟨fun ho ↦ ?_, fun r ↦ ih r (hc.2 r)⟩
    show (k (.error e)).bind f = throw e
    rw [hc.1 ho]
    rfl

/-- A handler that raises the exception again lets it through. -/
theorem Forwards.catching {c : Coro σ ε ρ α} {h : ε → Coro σ ε ρ α} (hc : Forwards swallows e c)
    (hh : ∀ e', Forwards swallows e (h e')) (he : h e = throw e) :
    Forwards swallows e (c.catching h) := by
  induction c with
  | pure _ => exact trivial
  | throw e' => exact hh e'
  | get k ih => exact fun s ↦ ih s (hc s)
  | set _ k ih => exact ih hc
  | await o k ih =>
    refine ⟨fun ho ↦ ?_, fun r ↦ ih r (hc.2 r)⟩
    show (k (.error e)).catching h = throw e
    rw [hc.1 ho]
    exact he

theorem forwards_forM {f : ι → Coro σ ε ρ Unit} {xs : List ι}
    (hf : ∀ x ∈ xs, Forwards swallows e (f x)) : Forwards swallows e (xs.forM f) := by
  induction xs with
  | nil => exact trivial
  | cons x xs ih =>
    show Forwards swallows e (f x >>= fun _ ↦ xs.forM f)
    exact (hf x (List.mem_cons_self ..)).bind fun _ ↦ ih fun y hy ↦ hf y (List.mem_cons_of_mem _ hy)

/-- After a turn, a coroutine that forwards the exception waits where it would forward it. -/
theorem Forwards.advance {c : Coro σ ε ρ α} (hc : Forwards swallows e c) {o : ω}
    {k : Except ε (ρ o) → Coro σ ε ρ α} {t : σ} (h : advance c s = (.waiting o k, t)) :
    (¬ swallows o → k (.error e) = throw e) ∧ ∀ r, Forwards swallows e (k r) := by
  induction c generalizing s with
  | pure _ => cases h
  | throw _ => cases h
  | get k' ih => exact ih s (hc s) h
  | set s' k' ih => exact ih hc h
  | await o' k' =>
    cases h
    exact hc

end Coro

end Coroutine
