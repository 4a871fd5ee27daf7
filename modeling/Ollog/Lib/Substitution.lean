import Mathlib.Tactic.Common

/-!
# Replacing what a pattern matches

A substitution goes through a text from the left.  Where its rule matches at the front, the match
gives way to a replacement and the search goes on behind it; elsewhere one element is kept.

`sub_induction` follows the substitution of one text, `sub_eq_of_lockstep` that of two: texts that
cannot be told apart at their front, and go on like that, become one.
-/

set_option autoImplicit false

namespace Substitution

variable {α : Type}

/-- What stands in the place of a match at the front of a text, and what is behind the match.  A
match is never empty. -/
structure Rule (α : Type) where
  apply : List α → Option (List α × List α)
  shorter : ∀ {text replacement rest}, apply text = some (replacement, rest) →
    rest.length < text.length

variable (rule : Rule α)

/-- The substitution, with a bound on the number of steps. -/
def subWithin : Nat → List α → List α
  | 0, _ => []
  | _ + 1, [] => []
  | fuel + 1, c :: text =>
    match rule.apply (c :: text) with
    | none => c :: subWithin fuel text
    | some (replacement, rest) => replacement ++ subWithin fuel rest

/-- Replace every match, from the left. -/
def sub (text : List α) : List α := subWithin rule text.length text

variable {rule}

theorem Rule.apply_nil : rule.apply [] = none := by
  cases h : rule.apply [] with
  | none => rfl
  | some result => exact absurd (rule.shorter h) (Nat.not_lt_zero _)

/-- A text has at most as many steps as elements. -/
theorem subWithin_congr {m n : Nat} {text : List α} (hm : text.length ≤ m) (hn : text.length ≤ n) :
    subWithin rule m text = subWithin rule n text := by
  induction m generalizing n text with
  | zero =>
    obtain rfl := List.eq_nil_of_length_eq_zero (Nat.le_zero.1 hm)
    cases n <;> rfl
  | succ m ih =>
    cases text with
    | nil => cases n <;> rfl
    | cons c text =>
      obtain _ | n := n
      · exact absurd hn (Nat.not_succ_le_zero _)
      rw [List.length_cons] at hm hn
      rw [subWithin, subWithin]
      split
      · rw [ih (Nat.le_of_succ_le_succ hm) (Nat.le_of_succ_le_succ hn)]
      · rename_i replacement rest hsome
        have hrest : rest.length ≤ text.length := Nat.le_of_lt_succ (rule.shorter hsome)
        exact congrArg (replacement ++ ·)
          (ih (Nat.le_trans hrest (Nat.le_of_succ_le_succ hm))
            (Nat.le_trans hrest (Nat.le_of_succ_le_succ hn)))

theorem subWithin_eq_sub {n : Nat} {text : List α} (h : text.length ≤ n) :
    subWithin rule n text = sub rule text := subWithin_congr h (Nat.le_refl _)

@[simp] theorem sub_nil : sub rule [] = [] := rfl

theorem sub_of_none {c : α} {text : List α} (h : rule.apply (c :: text) = none) :
    sub rule (c :: text) = c :: sub rule text := by
  rw [sub, List.length_cons, subWithin, h]
  rfl

theorem sub_of_some {text replacement rest : List α}
    (h : rule.apply text = some (replacement, rest)) :
    sub rule text = replacement ++ sub rule rest := by
  cases text with
  | nil => cases Rule.apply_nil.symm.trans h
  | cons c text =>
    rw [sub, List.length_cons, subWithin, h]
    exact congrArg (replacement ++ ·) (subWithin_eq_sub (Nat.le_of_lt_succ (rule.shorter h)))

/-- What one step of the substitution keeps, the substitution keeps. -/
theorem sub_induction {P : List α → List α → Prop} (nil : P [] [])
    (keep : ∀ c text, rule.apply (c :: text) = none → P text (sub rule text) →
      P (c :: text) (c :: sub rule text))
    (replace : ∀ text replacement rest, rule.apply text = some (replacement, rest) →
      P rest (sub rule rest) → P text (replacement ++ sub rule rest))
    (text : List α) : P text (sub rule text) := by
  induction hn : text.length using Nat.strongRecOn generalizing text with
  | _ n ih =>
    subst hn
    cases happly : rule.apply text with
    | some result =>
      rw [sub_of_some happly]
      exact replace _ _ _ happly (ih _ (rule.shorter happly) _ rfl)
    | none =>
      cases text with
      | nil => exact nil
      | cons c text =>
        rw [sub_of_none happly]
        exact keep c text happly (ih _ (Nat.lt_succ_self _) text rfl)

/-! ## Two texts at once -/

/-- The substitution does the same at the front of two texts, and what is left is related. -/
inductive Lockstep (rule : Rule α) (R : List α → List α → Prop) : List α → List α → Prop where
  | nil : Lockstep rule R [] []
  | keep {c : α} {text text' : List α} (h : rule.apply (c :: text) = none)
      (h' : rule.apply (c :: text') = none) (hR : R text text') :
      Lockstep rule R (c :: text) (c :: text')
  | replace {text text' replacement rest rest' : List α}
      (h : rule.apply text = some (replacement, rest))
      (h' : rule.apply text' = some (replacement, rest')) (hR : R rest rest') :
      Lockstep rule R text text'

/-- **Texts that stay in step become the same.** -/
theorem sub_eq_of_lockstep {R : List α → List α → Prop}
    (hR : ∀ text text', R text text' → Lockstep rule R text text') {text text' : List α}
    (h : R text text') : sub rule text = sub rule text' := by
  induction hn : text.length using Nat.strongRecOn generalizing text text' with
  | _ n ih =>
    subst hn
    cases hR text text' h with
    | nil => rfl
    | keep hnone hnone' hrest =>
      rw [sub_of_none hnone, sub_of_none hnone', ih _ (Nat.lt_succ_self _) hrest rfl]
    | replace hsome hsome' hrest =>
      rw [sub_of_some hsome, sub_of_some hsome', ih _ (rule.shorter hsome) hrest rfl]

end Substitution
