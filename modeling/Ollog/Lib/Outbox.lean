import Mathlib.Data.List.Count
import Mathlib.Data.List.Perm.Basic
import Ollog.Lib.Effects

/-!
# Storing and announcing

A call stores an item, and announces it in a later step; between the two, other calls take theirs.
`Accounts` says of one step, for every call, that what waits to be announced and what the step stores
is what the step announces and what waits afterwards.

Then the same holds of every history (`accounts_run`): what a call has stored it announces once, and
nothing else, unless it still waits at the end.  The order of the announcements need not be that in
which the items were stored, but where nothing waits at either end they are the same items
(`perm_of_quiet`).
-/

set_option autoImplicit false

namespace Outbox

open Effects

variable {σ κ ι α : Type}

/-- The items that a history brings, with the calls they are from. -/
def along (step : σ → κ → σ) (item : σ → κ → Option (ι × α)) : σ → List κ → List (ι × α)
  | _, [] => []
  | s, e :: es => (item s e).toList ++ along step item (step s e) es

theorem along_append {step : σ → κ → σ} {item : σ → κ → Option (ι × α)} (s : σ) (es es' : List κ) :
    along step item s (es ++ es') = along step item s es ++ along step item (run step s es) es' := by
  induction es generalizing s with
  | nil => rfl
  | cons e es ih => rw [List.cons_append, along, along, ih, List.append_assoc, run_cons]

variable [DecidableEq ι]

/-- The items of one call. -/
def itemsOf (i : ι) (items : List (ι × α)) : List α := (items.filter (·.1 = i)).map (·.2)

@[simp] theorem itemsOf_append (i : ι) (xs ys : List (ι × α)) :
    itemsOf i (xs ++ ys) = itemsOf i xs ++ itemsOf i ys := by
  rw [itemsOf, List.filter_append, List.map_append, itemsOf, itemsOf]

@[simp] theorem itemsOf_nil (i : ι) : itemsOf i ([] : List (ι × α)) = [] := rfl

@[simp] theorem itemsOf_singleton (i j : ι) (a : α) :
    itemsOf i [(j, a)] = if j = i then [a] else [] := by
  rw [itemsOf]
  by_cases hj : j = i <;> simp [hj]

/-- Items are told apart by the calls they are from. -/
theorem perm_of_itemsOf {xs ys : List (ι × α)} (h : ∀ i, itemsOf i xs = itemsOf i ys) :
    xs.Perm ys := by
  classical
  have hcount : ∀ (i : ι) (a : α) (zs : List (ι × α)),
      zs.count (i, a) = (itemsOf i zs).count a := by
    intro i a zs
    induction zs with
    | nil => rfl
    | cons z zs ih =>
      rw [← List.singleton_append, List.count_append, itemsOf_append, List.count_append, ih]
      congr 1
      by_cases hz : z.1 = i
      · subst hz
        by_cases ha : z.2 = a
        · subst ha
          simp [itemsOf]
        · have hne : z ≠ (z.1, a) := fun heq ↦ ha (congrArg Prod.snd heq)
          simp [itemsOf, ha, hne]
      · have hne : z ≠ (i, a) := fun heq ↦ hz (congrArg Prod.fst heq)
        simp [itemsOf, hz, hne]
  rw [List.perm_iff_count]
  rintro ⟨i, a⟩
  rw [hcount, hcount, h]

variable (step : σ → κ → σ) (pending : σ → ι → Option α) (stored announced : σ → κ → Option (ι × α))

/-- No step loses what waits to be announced, announces it twice, or announces anything else. -/
def Accounts : Prop :=
  ∀ s e i, (pending s i).toList ++ itemsOf i (stored s e).toList =
    itemsOf i (announced s e).toList ++ (pending (step s e) i).toList

variable {step pending stored announced}

/-- **Of every call**, what waits and what is stored is what is announced and what waits at the
end. -/
theorem accounts_run (h : Accounts step pending stored announced) (s : σ) (es : List κ) (i : ι) :
    (pending s i).toList ++ itemsOf i (along step stored s es) =
      itemsOf i (along step announced s es) ++ (pending (run step s es) i).toList := by
  induction es generalizing s with
  | nil => exact List.append_nil _
  | cons e es ih =>
    rw [along, along, itemsOf_append, itemsOf_append, ← List.append_assoc, h, List.append_assoc, ih,
      List.append_assoc, run_cons]

omit [DecidableEq ι] in
/-- The items of calls of one kind. -/
def ofKind (P : ι → Prop) [DecidablePred P] (items : List (ι × α)) : List (ι × α) :=
  items.filter fun item ↦ P item.1

theorem itemsOf_ofKind (P : ι → Prop) [DecidablePred P] (i : ι) (items : List (ι × α)) :
    itemsOf i (ofKind P items) = if P i then itemsOf i items else [] := by
  rw [itemsOf, ofKind, List.filter_filter]
  split
  · rename_i hi
    rw [itemsOf]
    congr 1
    refine List.filter_congr fun item _ ↦ ?_
    by_cases hitem : item.1 = i <;> simp [hitem, hi]
  · rename_i hi
    rw [List.filter_eq_nil_iff.2, List.map_nil]
    intro item _
    by_cases hitem : item.1 = i <;> simp [hitem, hi]

/-- **Where nothing waits** of the calls of a kind at either end, the items that they announce are
those that they store. -/
theorem perm_of_quiet (h : Accounts step pending stored announced) (P : ι → Prop) [DecidablePred P]
    {s : σ} {es : List κ} (hstart : ∀ i, P i → pending s i = none)
    (hend : ∀ i, P i → pending (run step s es) i = none) :
    (ofKind P (along step announced s es)).Perm (ofKind P (along step stored s es)) := by
  refine perm_of_itemsOf fun i ↦ ?_
  rw [itemsOf_ofKind, itemsOf_ofKind]
  by_cases hi : P i
  · have hrun := accounts_run h s es i
    rw [hstart i hi, hend i hi, Option.toList_none, List.nil_append, List.append_nil] at hrun
    rw [if_pos hi, if_pos hi, hrun]
  · rw [if_neg hi, if_neg hi]

end Outbox
