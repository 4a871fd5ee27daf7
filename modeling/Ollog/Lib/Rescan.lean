import Mathlib.Data.List.Infix

/-!
# Looking again from the beginning

A reader that does not remember how far it has looked collects what arrives, and after each piece
looks through everything that can be found in all of it, until it finds what it is waiting for.  What
it has noted on the way it notes again each time.

That this is as good as one look in the end takes two things: what has been found once stays where
it is when more arrives, and noting it again changes nothing (`Replays`).  `rescan_eq` is that fact.
-/

set_option autoImplicit false

namespace Ollog.Rescan

variable {σ β γ : Type}

/-! ## One look -/

/-- Note the items one after the other, up to one that ends the search. -/
def lookThrough (note : σ → γ → σ) (ends : γ → Bool) : σ → List γ → σ × Option γ
  | s, [] => (s, none)
  | s, x :: xs => if ends x then (s, some x) else lookThrough note ends (note s x) xs

/-- Noting a list after a first part of it is noting the list. -/
def Replays (note : σ → γ → σ) : Prop :=
  ∀ (s : σ) (xs ys : List γ),
    (xs ++ ys).foldl note (xs.foldl note s) = (xs ++ ys).foldl note s

/-- Where every item either decides what is noted or says nothing, the last one that decides
counts. -/
theorem foldl_eq_getLast? {note : Option σ → γ → Option σ} {f : γ → Option σ}
    (h : ∀ s x, note s x = (f x).or s) (xs : List γ) (s : Option σ) :
    xs.foldl note s = (xs.filterMap f).getLast?.or s := by
  induction xs generalizing s with
  | nil => rfl
  | cons x xs ih =>
    rw [List.foldl_cons, ih, h, ← Option.or_assoc, List.filterMap_cons]
    cases f x with
    | none => rw [Option.or_none]
    | some y => rw [List.getLast?_cons, Option.or_some]

/-- So noting replays. -/
theorem replays_of_or {note : Option σ → γ → Option σ} {f : γ → Option σ}
    (h : ∀ s x, note s x = (f x).or s) : Replays note := by
  intro s xs ys
  rw [List.foldl_append, List.foldl_append, foldl_eq_getLast? h xs (xs.foldl note s),
    foldl_eq_getLast? h xs s, ← Option.or_assoc, Option.or_self]

variable {note : σ → γ → σ} {ends : γ → Bool} {s t : σ} {x : γ} {xs ys : List γ}

theorem lookThrough_eq_none (h : lookThrough note ends s xs = (t, none)) :
    t = xs.foldl note s ∧ ∀ x ∈ xs, ends x = false := by
  induction xs generalizing s with
  | nil => exact ⟨(congrArg Prod.fst h).symm, fun _ h ↦ absurd h List.not_mem_nil⟩
  | cons y ys ih =>
    rw [lookThrough] at h
    split at h
    · cases h
    rename_i hy
    obtain ⟨ht, hys⟩ := ih h
    exact ⟨ht, List.forall_mem_cons.2 ⟨Bool.not_eq_true _ ▸ hy, hys⟩⟩

theorem lookThrough_append_of_none (h : ∀ x ∈ xs, ends x = false) (s : σ) (ys : List γ) :
    lookThrough note ends s (xs ++ ys) = lookThrough note ends (xs.foldl note s) ys := by
  induction xs generalizing s with
  | nil => rfl
  | cons x xs ih =>
    obtain ⟨hx, hxs⟩ := List.forall_mem_cons.1 h
    rw [List.cons_append, lookThrough, hx, if_neg Bool.false_ne_true, ih hxs, List.foldl_cons]

/-- What ends a search ends it whatever comes behind it. -/
theorem lookThrough_append_of_some (h : lookThrough note ends s xs = (t, some x)) (ys : List γ) :
    lookThrough note ends s (xs ++ ys) = (t, some x) := by
  induction xs generalizing s with
  | nil => cases h
  | cons y zs ih =>
    rw [lookThrough] at h
    rw [List.cons_append, lookThrough]
    split
    · rename_i hy
      rwa [if_pos hy] at h
    · rename_i hy
      rw [if_neg hy] at h
      exact ih h

/-- A search that has been in vain can be repeated in a longer list. -/
theorem lookThrough_again (hreplays : Replays note) (h : lookThrough note ends s xs = (t, none))
    (hle : xs <+: ys) : lookThrough note ends t ys = lookThrough note ends s ys := by
  obtain ⟨zs, rfl⟩ := hle
  obtain ⟨rfl, hxs⟩ := lookThrough_eq_none h
  have hagain : xs.foldl note (xs.foldl note s) = xs.foldl note s := by
    have hnil := hreplays s xs []
    rwa [List.append_nil] at hnil
  rw [lookThrough_append_of_none hxs, lookThrough_append_of_none hxs, hagain]

/-! ## Many looks -/

/-- Collect the pieces, and look through everything there is after each of them. -/
def rescan (note : σ → γ → σ) (ends : γ → Bool) (found : List β → List γ) :
    σ → List β → List (List β) → σ × Option γ
  | s, _, [] => (s, none)
  | s, payload, piece :: pieces =>
    match lookThrough note ends s (found (payload ++ piece)) with
    | (s, some x) => (s, some x)
    | (s, none) => rescan note ends found s (payload ++ piece) pieces

/-- What is found in the pieces received so far stays where it is when more of them arrive. -/
def Stable (found : List β → List γ) : List β → List (List β) → Prop
  | _, [] => True
  | payload, piece :: pieces =>
    found payload <+: found (payload ++ piece) ∧ Stable found (payload ++ piece) pieces

theorem Stable.isPrefix {found : List β → List γ} {payload : List β} {pieces : List (List β)}
    (h : Stable found payload pieces) : found payload <+: found (payload ++ pieces.flatten) := by
  induction pieces generalizing payload with
  | nil => simp
  | cons piece pieces ih =>
    have hrest := ih h.2
    rw [List.append_assoc] at hrest
    exact h.1.trans hrest

/-- **Looking again after each piece** finds what one look in the end does. -/
theorem rescan_eq {found : List β → List γ} (hreplays : Replays note) {payload : List β}
    {pieces : List (List β)} (hstable : Stable found payload pieces)
    (h : lookThrough note ends s (found payload) = (t, none)) :
    rescan note ends found t payload pieces =
      lookThrough note ends s (found (payload ++ pieces.flatten)) := by
  induction pieces generalizing payload t with
  | nil => rw [rescan, List.flatten_nil, List.append_nil, h]
  | cons piece pieces ih =>
    obtain ⟨hpiece, hrest⟩ := hstable
    rw [rescan, lookThrough_again hreplays h hpiece, List.flatten_cons, ← List.append_assoc]
    cases hlook : lookThrough note ends s (found (payload ++ piece)) with
    | mk u result =>
      cases result with
      | none => exact ih hrest hlook
      | some x =>
        obtain ⟨behind, hbehind⟩ := hrest.isPrefix
        rw [← hbehind, lookThrough_append_of_some hlook]

end Ollog.Rescan
