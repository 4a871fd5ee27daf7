import Mathlib.Tactic.Common

/-!
# Programs over a store that may raise

A program with a store `σ` and exceptions `ε` is an `EStateM ε σ α`: it ends by returning a value
or by raising an exception, and in *both* cases leaves a store behind.  The second store matters
as much as the first, since a request that fails half-way has still written what it wrote.

`wp m Q E s` says that `m`, started in `s`, satisfies `Q` if it returns and `E` if it raises.  The
rules below compute it along the structure of a program, so a specification is proved by
simplifying `wp` and answering what is left at the leaves.  `after m s` is the store that is left
either way, and `Runs` iterates it over a list of requests.
-/

set_option autoImplicit false

namespace Effects

variable {ε σ α β ι : Type}

/-! ## Computations that may raise -/

theorem bind_eq_ok {x : Except ε α} {f : α → Except ε β} {b : β} :
    x >>= f = .ok b ↔ ∃ a, x = .ok a ∧ f a = .ok b := by
  cases x with
  | error e => simp only [bind, Except.bind, reduceCtorEq, false_and, exists_false]
  | ok a => simp only [bind, Except.bind, Except.ok.injEq, exists_eq_left']

theorem bind_eq_error {x : Except ε α} {f : α → Except ε β} {e : ε} :
    x >>= f = .error e ↔ x = .error e ∨ ∃ a, x = .ok a ∧ f a = .error e := by
  cases x with
  | error e => simp only [bind, Except.bind, Except.error.injEq, reduceCtorEq, false_and,
      exists_false, or_false]
  | ok a => simp only [bind, Except.bind, reduceCtorEq, Except.ok.injEq, exists_eq_left', false_or]

/-- An invariant that every successful round keeps holds after a loop that succeeds. -/
theorem foldlM_invariant {f : β → α → Except ε β} (I : β → Prop) {xs : List α} {b b' : β}
    (hf : ∀ a ∈ xs, ∀ b b', f b a = .ok b' → I b → I b') (h : xs.foldlM f b = .ok b')
    (hb : I b) : I b' := by
  induction xs generalizing b with
  | nil => cases h; exact hb
  | cons a xs ih =>
    rw [List.foldlM_cons] at h
    obtain ⟨c, hc, hrest⟩ := bind_eq_ok.1 h
    exact ih (fun a ha ↦ hf a (List.mem_cons_of_mem _ ha)) hrest
      (hf a (List.mem_cons_self ..) b c hc hb)

/-- Every result of a successful `mapM` is the result of an element. -/
theorem exists_of_mem_mapM {f : α → Except ε β} {xs : List α} {ys : List β} {y : β}
    (h : xs.mapM f = .ok ys) (hy : y ∈ ys) : ∃ x ∈ xs, f x = .ok y := by
  induction xs generalizing ys with
  | nil =>
    rw [List.mapM_nil] at h
    cases h
    exact absurd hy List.not_mem_nil
  | cons x xs ih =>
    rw [List.mapM_cons] at h
    obtain ⟨z, hz, hrest⟩ := bind_eq_ok.1 h
    obtain ⟨zs, hzs, hys⟩ := bind_eq_ok.1 hrest
    cases hys
    rcases List.mem_cons.1 hy with rfl | hy
    · exact ⟨x, List.mem_cons_self .., hz⟩
    · obtain ⟨x', hx', hf⟩ := ih hzs hy
      exact ⟨x', List.mem_cons_of_mem _ hx', hf⟩

/-- A successful `mapM` has a result for every element. -/
theorem exists_of_mapM_of_mem {f : α → Except ε β} {xs : List α} {ys : List β} {x : α}
    (h : xs.mapM f = .ok ys) (hx : x ∈ xs) : ∃ y, f x = .ok y := by
  induction xs generalizing ys with
  | nil => exact absurd hx List.not_mem_nil
  | cons z xs ih =>
    rw [List.mapM_cons] at h
    obtain ⟨y, hy, hrest⟩ := bind_eq_ok.1 h
    obtain ⟨zs, hzs, -⟩ := bind_eq_ok.1 hrest
    rcases List.mem_cons.1 hx with rfl | hx
    · exact ⟨y, hy⟩
    · exact ih hzs hx

/-- A `mapM` whose function succeeds on every element succeeds. -/
theorem exists_mapM_of_forall {f : α → Except ε β} {xs : List α}
    (h : ∀ x ∈ xs, ∃ y, f x = .ok y) : ∃ ys, xs.mapM f = .ok ys := by
  induction xs with
  | nil => exact ⟨[], rfl⟩
  | cons x xs ih =>
    obtain ⟨y, hy⟩ := h x (List.mem_cons_self ..)
    obtain ⟨ys, hys⟩ := ih fun x hx ↦ h x (List.mem_cons_of_mem _ hx)
    exact ⟨y :: ys, by rw [List.mapM_cons, hy, hys]; rfl⟩

theorem length_of_mapM {f : α → Except ε β} {xs : List α} {ys : List β}
    (h : xs.mapM f = .ok ys) : ys.length = xs.length := by
  induction xs generalizing ys with
  | nil =>
    rw [List.mapM_nil] at h
    cases h
    rfl
  | cons x xs ih =>
    rw [List.mapM_cons] at h
    obtain ⟨z, -, hrest⟩ := bind_eq_ok.1 h
    obtain ⟨zs, hzs, hys⟩ := bind_eq_ok.1 hrest
    cases hys
    rw [List.length_cons, List.length_cons, ih hzs]

/-- Run a program and return the exception it raises instead of raising it. -/
def attempt {m : Type → Type} [Monad m] [MonadExceptOf ε m] (x : m α) : m (Except ε α) :=
  tryCatch (Except.ok <$> x) fun e ↦ pure (.error e)

/-! ## Weakest preconditions -/

/-- `m`, started in `s`, ends in `Q` when it returns and in `E` when it raises. -/
def wp (m : EStateM ε σ α) (Q : α → σ → Prop) (E : ε → σ → Prop) (s : σ) : Prop :=
  match m s with
  | .ok a t => Q a t
  | .error e t => E e t

section Rules

variable {Q : α → σ → Prop} {R : β → σ → Prop} {E : ε → σ → Prop} {s : σ}

@[simp] theorem wp_pure {a : α} : wp (pure a) Q E s ↔ Q a s := Iff.rfl

@[simp] theorem wp_throw {e : ε} : wp (throw e : EStateM ε σ α) Q E s ↔ E e s := Iff.rfl

@[simp] theorem wp_get {Q : σ → σ → Prop} : wp (get : EStateM ε σ σ) Q E s ↔ Q s s := Iff.rfl

@[simp] theorem wp_set {Q : PUnit → σ → Prop} {t : σ} :
    wp (set t : EStateM ε σ PUnit) Q E s ↔ Q ⟨⟩ t := Iff.rfl

@[simp] theorem wp_modify {Q : PUnit → σ → Prop} {f : σ → σ} :
    wp (modify f : EStateM ε σ PUnit) Q E s ↔ Q ⟨⟩ (f s) := Iff.rfl

@[simp] theorem wp_bind {m : EStateM ε σ α} {f : α → EStateM ε σ β} :
    wp (m >>= f) R E s ↔ wp m (fun a ↦ wp (f a) R E) E s := by
  have h : (m >>= f) s = EStateM.bind m f s := rfl
  rw [wp, wp, h, EStateM.bind]
  cases m s <;> rfl

/-- A handler starts in the store the exception left behind: nothing is rolled back. -/
@[simp] theorem wp_tryCatch {m : EStateM ε σ α} {h : ε → EStateM ε σ α} :
    wp (tryCatch m h) Q E s ↔ wp m Q (fun e ↦ wp (h e) Q E) s := by
  have hd : (tryCatch m h) s = EStateM.tryCatch m h s := rfl
  rw [wp, wp, hd, EStateM.tryCatch]
  cases m s <;> rfl

/-- A call of the store is what it is, wherever it is made from. -/
@[simp] theorem wp_liftM {m : EStateM ε σ α} :
    wp (liftM m : EStateM ε σ α) Q E s ↔ wp m Q E s := Iff.rfl

@[simp] theorem wp_ofExcept {r : Except ε α} :
    wp (ofExcept r : EStateM ε σ α) Q E s ↔
      (∀ a, r = .ok a → Q a s) ∧ ∀ e, r = .error e → E e s := by
  cases r with
  | error e => simp only [ofExcept, wp_throw, reduceCtorEq, false_imp_iff, implies_true,
      true_and, Except.error.injEq, forall_eq']
  | ok a => simp only [ofExcept, wp_pure, reduceCtorEq, false_imp_iff, implies_true, and_true,
      Except.ok.injEq, forall_eq']

@[simp] theorem wp_ite {c : Prop} [Decidable c] {m n : EStateM ε σ α} :
    wp (if c then m else n) Q E s ↔ (c → wp m Q E s) ∧ (¬c → wp n Q E s) := by
  split <;> rename_i h <;> simp only [h, true_imp_iff, not_true_eq_false, not_false_eq_true,
    false_imp_iff, and_true, true_and]

/-- What a program guarantees may be weakened. -/
theorem wp_mono {Q' : α → σ → Prop} {E' : ε → σ → Prop} {m : EStateM ε σ α}
    (h : wp m Q E s) (hQ : ∀ a t, Q a t → Q' a t) (hE : ∀ e t, E e t → E' e t) :
    wp m Q' E' s := by
  rw [wp] at h ⊢
  cases hm : m s with
  | ok a t => rw [hm] at h; exact hQ a t h
  | error e t => rw [hm] at h; exact hE e t h

/-- Two guarantees of one program. -/
theorem wp_and {Q' : α → σ → Prop} {E' : ε → σ → Prop} {m : EStateM ε σ α} (h : wp m Q E s)
    (h' : wp m Q' E' s) :
    wp m (fun a t ↦ Q a t ∧ Q' a t) (fun e t ↦ E e t ∧ E' e t) s := by
  rw [wp] at h h' ⊢
  cases hm : m s with
  | ok a t => rw [hm] at h h'; exact ⟨h, h'⟩
  | error e t => rw [hm] at h h'; exact ⟨h, h'⟩

theorem eq_ok_of_wp {m : EStateM ε σ α} {a : α} {t : σ}
    (h : wp m (fun b u ↦ b = a ∧ u = t) (fun _ _ ↦ False) s) : m s = .ok a t := by
  rw [wp] at h
  cases hm : m s with
  | ok b u => rw [hm] at h; rw [h.1, h.2]
  | error e u => rw [hm] at h; exact absurd h id

theorem eq_error_of_wp {m : EStateM ε σ α} {e : ε} {t : σ}
    (h : wp m (fun _ _ ↦ False) (fun e' u ↦ e' = e ∧ u = t) s) : m s = .error e t := by
  rw [wp] at h
  cases hm : m s with
  | ok b u => rw [hm] at h; exact absurd h id
  | error e' u => rw [hm] at h; rw [h.1, h.2]

/-- A program that does not raise. -/
theorem exists_ok_iff_wp {m : EStateM ε σ α} :
    (∃ a t, m s = .ok a t ∧ Q a t) ↔ wp m Q (fun _ _ ↦ False) s := by
  rw [wp]
  cases m s with
  | ok a t => simp only [EStateM.Result.ok.injEq, existsAndEq, true_and]
  | error e t => simp only [reduceCtorEq, false_and, exists_false]

/-- A program that raises. -/
theorem exists_error_iff_wp {m : EStateM ε σ α} :
    (∃ e t, m s = .error e t ∧ E e t) ↔ wp m (fun _ _ ↦ False) E s := by
  rw [wp]
  cases m s with
  | ok a t => simp only [reduceCtorEq, false_and, exists_false]
  | error e t => simp only [EStateM.Result.error.injEq, existsAndEq, true_and]

theorem run_bind_eq_ok {m : EStateM ε σ α} {f : α → EStateM ε σ β} {b : β} {u : σ} :
    (m >>= f) s = .ok b u ↔ ∃ a t, m s = .ok a t ∧ f a t = .ok b u := by
  have h : (m >>= f) s = EStateM.bind m f s := rfl
  rw [h, EStateM.bind]
  cases m s with
  | ok a t => simp only [EStateM.Result.ok.injEq, existsAndEq, true_and]
  | error e t => simp only [reduceCtorEq, false_and, exists_false]

theorem run_ofExcept_eq_ok {r : Except ε α} {a : α} {u : σ} :
    (ofExcept r : EStateM ε σ α) s = .ok a u ↔ r = .ok a ∧ u = s := by
  cases r with
  | error e => exact ⟨fun h ↦ (nomatch h), fun h ↦ (nomatch h.1)⟩
  | ok b =>
    constructor
    · intro h
      cases h
      exact ⟨rfl, rfl⟩
    · rintro ⟨h, rfl⟩
      cases h
      rfl

/-- A loop that returns has a result for every element. -/
theorem length_of_run_mapM {f : α → EStateM ε σ β} {xs : List α} {ys : List β}
    {s s' : σ} (h : xs.mapM f s = .ok ys s') : ys.length = xs.length := by
  induction xs generalizing ys s with
  | nil =>
    rw [List.mapM_nil] at h
    cases h
    rfl
  | cons x xs ih =>
    rw [List.mapM_cons] at h
    obtain ⟨y, t, -, hrest⟩ := run_bind_eq_ok.1 h
    obtain ⟨zs, t', hzs, hys⟩ := run_bind_eq_ok.1 hrest
    cases hys
    rw [List.length_cons, List.length_cons, ih hzs]

theorem run_bind_eq_error {m : EStateM ε σ α} {f : α → EStateM ε σ β} {e : ε} {u : σ} :
    (m >>= f) s = .error e u ↔ m s = .error e u ∨ ∃ a t, m s = .ok a t ∧ f a t = .error e u := by
  have h : (m >>= f) s = EStateM.bind m f s := rfl
  rw [h, EStateM.bind]
  cases m s with
  | ok a t => simp only [EStateM.Result.ok.injEq, existsAndEq, true_and, reduceCtorEq, false_or]
  | error e t => simp only [EStateM.Result.error.injEq, reduceCtorEq, false_and, exists_false,
      or_false]

@[simp] theorem wp_attempt {Q : Except ε α → σ → Prop} {m : EStateM ε σ α} :
    wp (attempt m) Q E s ↔ wp m (fun a ↦ Q (.ok a)) (fun e ↦ Q (.error e)) s := by
  simp only [attempt, map_eq_pure_bind, wp_tryCatch, wp_bind]
  rfl

/-- **Loops**, with what has been done so far: an invariant of the rounds that went through, and
what holds when one raises. -/
theorem wp_foldlM_done {f : β → α → EStateM ε σ β} (I : List α → β → σ → Prop)
    (F : List α → α → ε → σ → Prop) {xs : List α}
    (hf : ∀ done a todo b t, xs = done ++ a :: todo → I done b t →
      wp (f b a) (I (done ++ [a])) (F done a) t) {b : β} (h : I [] b s) :
    wp (xs.foldlM f b) (I xs)
      (fun e t ↦ ∃ done a todo, xs = done ++ a :: todo ∧ F done a e t) s := by
  have hrest : ∀ todo done b t, xs = done ++ todo → I done b t → wp (todo.foldlM f b) (I xs)
      (fun e t ↦ ∃ done a todo, xs = done ++ a :: todo ∧ F done a e t) t := by
    intro todo
    induction todo with
    | nil =>
      intro done b t hxs hI
      rw [List.append_nil] at hxs
      exact hxs ▸ hI
    | cons a todo ih =>
      intro done b t hxs hI
      rw [List.foldlM_cons, wp_bind]
      refine wp_mono (hf done a todo b t hxs hI) (fun b' t' hI' ↦ ?_) fun e t' hF ↦ ?_
      · exact ih (done ++ [a]) b' t' (by rw [hxs, List.append_assoc, List.singleton_append]) hI'
      · exact ⟨done, a, todo, hxs, hF⟩
  exact hrest xs [] b s rfl h

/-- **Loops.**  An invariant that every round keeps holds after any number of rounds. -/
theorem wp_foldlM {f : β → α → EStateM ε σ β} (I : β → σ → Prop) {xs : List α}
    (hf : ∀ b, ∀ a ∈ xs, ∀ t, I b t → wp (f b a) I E t) {b : β} (h : I b s) :
    wp (xs.foldlM f b) I E s := by
  refine wp_mono (wp_foldlM_done (fun _ ↦ I) (fun _ _ ↦ E) (fun done a todo b t hxs hI ↦ ?_) h)
    (fun _ _ h ↦ h) fun e t ⟨_, _, _, _, hE⟩ ↦ hE
  exact hf b a (hxs ▸ List.mem_append_right _ (List.mem_cons_self ..)) t hI

end Rules

/-- A loop that does something for every element, and adds what came of it to an accumulator, may
as well do everything first. -/
theorem foldlM_eq_mapM {m : Type → Type} [Monad m] [LawfulMonad m] (add : β → ι → α → β)
    (g : ι → m α) (is : List ι) (b : β) :
    is.foldlM (fun b i ↦ do return add b i (← g i)) b =
      (do return (is.zip (← is.mapM g)).foldl (fun b p ↦ add b p.1 p.2) b) := by
  induction is generalizing b with
  | nil => simp only [List.foldlM_nil, List.mapM_nil, pure_bind, List.zip_nil_left, List.foldl_nil]
  | cons i is ih =>
    simp only [List.foldlM_cons, List.mapM_cons, bind_assoc, pure_bind, ih, List.zip_cons_cons,
      List.foldl_cons]

/-! ## The store that is left -/

/-- The store `m` leaves behind, whether it returns or raises. -/
def after (m : EStateM ε σ α) (s : σ) : σ :=
  match m s with
  | .ok _ t => t
  | .error _ t => t

/-- What holds at both exits holds of the store that is left. -/
theorem after_of_wp {P : σ → Prop} {m : EStateM ε σ α} {s : σ}
    (h : wp m (fun _ ↦ P) (fun _ ↦ P) s) : P (after m s) := by
  rw [wp] at h
  rw [after]
  cases hm : m s with
  | ok a t => rw [hm] at h; exact h
  | error e t => rw [hm] at h; exact h

theorem after_bind_ok {m : EStateM ε σ α} {f : α → EStateM ε σ β} {s t : σ} {a : α}
    (h : m s = .ok a t) : after (m >>= f) s = after (f a) t := by
  have hb : (m >>= f) s = EStateM.bind m f s := rfl
  rw [after, hb, EStateM.bind, h]
  rfl

theorem after_bind_error {m : EStateM ε σ α} {f : α → EStateM ε σ β} {s t : σ} {e : ε}
    (h : m s = .error e t) : after (m >>= f) s = t := by
  have hb : (m >>= f) s = EStateM.bind m f s := rfl
  rw [after, hb, EStateM.bind, h]

/-- Wrapping a result up does not change the store. -/
theorem after_bind_pure (m : EStateM ε σ α) (f : α → β) (s : σ) :
    after (do return f (← m) : EStateM ε σ β) s = after m s := by
  have h : (m >>= fun a ↦ pure (f a) : EStateM ε σ β) s =
      EStateM.bind m (fun a ↦ pure (f a)) s := rfl
  rw [after, after, h, EStateM.bind]
  cases m s <;> rfl

/-- A handler that only returns leaves what the exception has left. -/
theorem after_tryCatch_pure (m : EStateM ε σ α) (h : ε → α) (s : σ) :
    after (tryCatch m fun e ↦ pure (h e)) s = after m s := by
  have hd : (tryCatch m fun e ↦ pure (h e)) s = EStateM.tryCatch m (fun e ↦ pure (h e)) s := rfl
  rw [after, after, hd, EStateM.tryCatch]
  cases m s <;> rfl

/-- Checking a result does not change the store. -/
theorem after_bind_ofExcept (m : EStateM ε σ α) (f : α → Except ε β) (s : σ) :
    after (do ofExcept (f (← m)) : EStateM ε σ β) s = after m s := by
  cases hm : m s with
  | ok a t =>
    rw [after_bind_ok hm, after, after, hm]
    cases hf : f a with
    | ok b => rfl
    | error e => rfl
  | error e t => rw [after_bind_error hm, after, hm]

/-- Throwing a result away does not change the store. -/
theorem after_discard (m : EStateM ε σ α) (s : σ) :
    after (do let _ ← m : EStateM ε σ PUnit) s = after m s :=
  after_bind_pure m (fun _ ↦ PUnit.unit) s

/-! ## Runs -/

section Runs

variable (step : σ → ι → σ)

/-- The store after a list of requests, one after another. -/
def run (s : σ) (is : List ι) : σ := is.foldl step s

@[simp] theorem run_nil (s : σ) : run step s [] = s := rfl

@[simp] theorem run_cons (s : σ) (i : ι) (is : List ι) :
    run step s (i :: is) = run step (step s i) is := rfl

theorem run_append (s : σ) (is js : List ι) :
    run step s (is ++ js) = run step (run step s is) js := List.foldl_append

/-- Every request of a run meets a condition on the store it finds. -/
def Guarded (cond : σ → ι → Prop) : σ → List ι → Prop
  | _, [] => True
  | s, i :: is => cond s i ∧ Guarded cond (step s i) is

variable {step}

/-- A property that every guarded request keeps holds at the end of every guarded run. -/
theorem Guarded.induction {cond : σ → ι → Prop} {I : σ → Prop}
    (hstep : ∀ s i, I s → cond s i → I (step s i)) {s : σ} {is : List ι} (h : I s)
    (hg : Guarded step cond s is) : I (run step s is) := by
  induction is generalizing s with
  | nil => exact h
  | cons i is ih => exact ih (hstep s i h hg.1) hg.2

instance decidableGuarded {cond : σ → ι → Prop} [∀ s i, Decidable (cond s i)] :
    ∀ (s : σ) (is : List ι), Decidable (Guarded step cond s is)
  | _, [] => .isTrue trivial
  | s, i :: is =>
    have : Decidable (Guarded step cond (step s i) is) := decidableGuarded (step s i) is
    inferInstanceAs (Decidable (cond s i ∧ _))

/-- A guarded run meets every condition that its invariant and its guard give. -/
theorem Guarded.mono_of_inv {cond cond' : σ → ι → Prop} {I : σ → Prop}
    (hstep : ∀ s i, I s → cond s i → I (step s i)) (h : ∀ s i, I s → cond s i → cond' s i) {s : σ}
    {is : List ι} (hg : Guarded step cond s is) (hs : I s) : Guarded step cond' s is := by
  induction is generalizing s with
  | nil => trivial
  | cons i is ih => exact ⟨h s i hs hg.1, ih hg.2 (hstep s i hs hg.1)⟩

theorem Guarded.mono {cond cond' : σ → ι → Prop} (h : ∀ s i, cond s i → cond' s i) {s : σ}
    {is : List ι} (hg : Guarded step cond s is) : Guarded step cond' s is :=
  hg.mono_of_inv (I := fun _ ↦ True) (fun _ _ _ _ ↦ trivial) (fun s i _ ↦ h s i) trivial

theorem guarded_append {cond : σ → ι → Prop} {s : σ} {is js : List ι} :
    Guarded step cond s (is ++ js) ↔
      Guarded step cond s is ∧ Guarded step cond (run step s is) js := by
  induction is generalizing s with
  | nil => exact ⟨fun h ↦ ⟨trivial, h⟩, fun h ↦ h.2⟩
  | cons i is ih => exact (and_congr_right fun _ ↦ ih).trans and_assoc.symm

/-- A condition on requests alone. -/
theorem guarded_of_forall {cond : ι → Prop} {is : List ι} (h : ∀ i ∈ is, cond i) (s : σ) :
    Guarded step (fun _ ↦ cond) s is := by
  induction is generalizing s with
  | nil => trivial
  | cons i is ih =>
    exact ⟨h i (List.mem_cons_self ..), ih (fun j hj ↦ h j (List.mem_cons_of_mem _ hj)) _⟩

/-- A property that every request keeps holds at the end of every run. -/
theorem run_induction {I : σ → Prop} (hstep : ∀ s i, I s → I (step s i)) {s : σ} (h : I s)
    (is : List ι) : I (run step s is) := by
  induction is generalizing s with
  | nil => exact h
  | cons i is ih => exact ih (hstep s i h)

/-- **Throughout a run.**  Where a condition on the next request decides whether a property is kept,
it decides, request by request, whether the property holds throughout. -/
theorem guarded_iff_throughout {cond : σ → ι → Prop} {I P : σ → Prop}
    (hI : ∀ s i, I s → I (step s i)) (hstep : ∀ s i, I s → P s → (P (step s i) ↔ cond s i))
    {s : σ} (hs : I s) (h : P s) (is : List ι) :
    (∀ before, before <+: is → P (run step s before)) ↔ Guarded step cond s is := by
  induction is generalizing s with
  | nil =>
    refine ⟨fun _ ↦ trivial, fun _ before hbefore ↦ ?_⟩
    rw [List.prefix_nil.1 hbefore]
    exact h
  | cons i is ih =>
    constructor
    · intro hall
      have hnext : P (step s i) := hall [i] ⟨is, rfl⟩
      refine ⟨(hstep s i hs h).1 hnext, (ih (hI s i hs) hnext).1 fun before hbefore ↦ ?_⟩
      exact hall (i :: before) (List.cons_prefix_cons.2 ⟨rfl, hbefore⟩)
    · rintro ⟨hcond, hrest⟩ before hbefore
      cases before with
      | nil => exact h
      | cons j before =>
        obtain ⟨rfl, hbehind⟩ := List.cons_prefix_cons.1 hbefore
        exact (ih (hI s j hs) ((hstep s j hs h).2 hcond)).2 hrest before hbehind

end Runs

end Effects
