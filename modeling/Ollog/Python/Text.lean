import Mathlib.Algebra.Group.Nat.Defs
import Mathlib.Data.List.TakeWhile
import Mathlib.Data.List.DropRight
import Mathlib.Data.List.Basic
import Mathlib.Data.List.Infix
import Mathlib.Data.Char
import Mathlib.Tactic.Common

/-!
# The parts of Python's `str` the logbook relies on

A Python string is a sequence of code points, which for text that can be stored at all is what
Lean's `String` is.  The operations below work on the characters of a string, so that they compute
and so that the byte-level lemmas of `String` stay out of the way.

Three of them, `str.upper`, `int` and `repr`, consult the Unicode character database.  The
database is far too large to write down, so it is a class: `UnicodeData` holds the three tables
together with what the Unicode standard fixes about their ASCII part.  Everything proved about the
program holds for every such database, in particular for the one CPython ships.
`UnicodeData.ascii` is the smallest of them; runs on ASCII input do not tell it from the real one.
-/

set_option autoImplicit false

namespace Ollog

/-! ## Finite checks -/

/-- What is checked for every element of a list. -/
theorem forall_mem_of_all {α : Type} {P : α → Prop} [DecidablePred P] {xs : List α}
    (h : (xs.all fun x ↦ decide (P x)) = true) : ∀ x ∈ xs, P x :=
  fun x hx ↦ of_decide_eq_true (List.all_eq_true.1 h x hx)

/-- What is checked for every pair of elements of two lists. -/
theorem forall_mem_mem_of_all {α β : Type} {P : α → β → Prop} [∀ x y, Decidable (P x y)]
    {xs : List α} {ys : List β} (h : (xs.all fun x ↦ ys.all fun y ↦ decide (P x y)) = true) :
    ∀ x ∈ xs, ∀ y ∈ ys, P x y :=
  fun x hx ↦ forall_mem_of_all (List.all_eq_true.1 h x hx)

/-! ## The character database -/

/-- The tables of the Unicode character database that `str.upper`, `int` and `repr` read. -/
class UnicodeData where
  /-- The full upper-case mapping of one character, as `str.upper` applies it. -/
  upper : Char → List Char
  /-- On ASCII it maps `a`-`z` and nothing else. -/
  upper_ascii : ∀ c : Char, c.toNat < 128 → upper c = [c.toUpper]
  /-- No character is mapped to one of `a`-`z`. -/
  upper_not_lower : ∀ c d : Char, d ∈ upper c → d.isLower = false
  /-- The value of a decimal digit, of any script. -/
  decimal : Char → Option Nat
  /-- On ASCII the digits are `0`-`9`. -/
  decimal_ascii : ∀ c : Char, c.toNat < 128 →
    decimal c = if c.isDigit then some (c.toNat - '0'.toNat) else none
  /-- What `str.isprintable` says of one character. -/
  isPrintable : Char → Bool
  /-- On ASCII everything from the space to `~` is printable. -/
  isPrintable_ascii : ∀ c : Char, c.toNat < 128 →
    isPrintable c = (decide (32 ≤ c.toNat) && decide (c.toNat < 127))

theorem isLower_toUpper (c : Char) : c.toUpper.isLower = false := by
  unfold Char.toUpper Char.isLower
  split
  · grind [UInt32.toNat_add]
  · grind

/-- The database that knows nothing outside ASCII. -/
@[reducible] def UnicodeData.ascii : UnicodeData where
  upper c := if c.toNat < 128 then [c.toUpper] else [c]
  upper_ascii c h := if_pos h
  upper_not_lower c d hd := by
    split at hd
    · rw [List.mem_singleton.1 hd]
      exact isLower_toUpper c
    · rename_i h
      rw [List.mem_singleton.1 hd]
      unfold Char.isLower
      rw [Bool.and_eq_false_iff]
      right
      simp only [decide_eq_false_iff_not, UInt32.not_le, UInt32.lt_iff_toNat_lt]
      have hn : 128 ≤ c.val.toNat := Nat.not_lt.1 h
      exact Nat.lt_of_lt_of_le (by decide) hn
  decimal c := if c.isDigit then some (c.toNat - '0'.toNat) else none
  decimal_ascii _ _ := rfl
  isPrintable c := decide (32 ≤ c.toNat) && (decide (c.toNat < 127) || decide (128 ≤ c.toNat))
  isPrintable_ascii c h := by
    have : decide (128 ≤ c.toNat) = false := by simpa using h
    rw [this, Bool.or_false]

/-- What the Unicode standard fixes about the upper-case mapping outside ASCII: it leaves alone
what it has made, and the only ASCII it makes is letters. -/
structure UnicodeData.UpperLaws [UnicodeData] : Prop where
  upper_upper : ∀ c : Char, ∀ d ∈ UnicodeData.upper c, UnicodeData.upper d = [d]
  upper_symbol : ∀ c : Char, ∀ d ∈ UnicodeData.upper c, d.toNat < 128 → d ≠ c → d.isUpper = true

/-- On ASCII, upper-casing is done after one step, and makes letters only. -/
theorem toUpper_spec {c : Char} (h : c.toNat < 128) : c.toUpper.toUpper = c.toUpper ∧
    c.toUpper.toNat < 128 ∧ (c.toUpper ≠ c → c.toUpper.isUpper = true) := by
  have hall : ∀ n < 128, (Char.ofNat n).toUpper.toUpper = (Char.ofNat n).toUpper ∧
      (Char.ofNat n).toUpper.toNat < 128 ∧
      ((Char.ofNat n).toUpper ≠ Char.ofNat n → (Char.ofNat n).toUpper.isUpper = true) := by
    decide +kernel
  simpa only [Char.ofNat_toNat] using hall c.toNat h

theorem UnicodeData.upperLaws_ascii : @UnicodeData.UpperLaws .ascii := by
  refine @UnicodeData.UpperLaws.mk .ascii (fun c d hd ↦ ?_) fun c d hd _ hne ↦ ?_
  · simp only [UnicodeData.upper] at hd ⊢
    split at hd
    · rename_i hc
      rw [List.mem_singleton.1 hd, if_pos (toUpper_spec hc).2.1, (toUpper_spec hc).1]
    · rename_i hc
      rw [List.mem_singleton.1 hd, if_neg hc]
  · simp only [UnicodeData.upper] at hd
    split at hd
    · rename_i hc
      rw [List.mem_singleton.1 hd] at hne ⊢
      exact (toUpper_spec hc).2.2 hne
    · exact absurd (List.mem_singleton.1 hd) hne

/-! ## Case and white space -/

section Upper

variable [UnicodeData]

/-- `str.upper()`, on the characters of a string. -/
def upperChars (cs : List Char) : List Char := cs.flatMap UnicodeData.upper

/-- `str.upper()`. -/
def upper (s : String) : String := String.ofList (upperChars s.toList)

@[simp] theorem upperChars_nil : upperChars [] = [] := rfl

@[simp] theorem upperChars_append (cs ds : List Char) :
    upperChars (cs ++ ds) = upperChars cs ++ upperChars ds := List.flatMap_append

theorem upperChars_cons_ascii {c : Char} (h : c.toNat < 128) (cs : List Char) :
    upperChars (c :: cs) = c.toUpper :: upperChars cs := by
  rw [upperChars, List.flatMap_cons, UnicodeData.upper_ascii c h]
  rfl

@[simp] theorem toList_upper (s : String) : (upper s).toList = upperChars s.toList := by
  rw [upper, String.toList_ofList]

/-- Upper-case ASCII text stays as it is. -/
theorem upperChars_eq_self {cs : List Char} (h : ∀ c ∈ cs, c.toNat < 128 ∧ c.toUpper = c) :
    upperChars cs = cs := by
  induction cs with
  | nil => rfl
  | cons c cs ih =>
    rw [upperChars_cons_ascii (h c (List.mem_cons_self ..)).1, (h c (List.mem_cons_self ..)).2,
      ih fun d hd ↦ h d (List.mem_cons_of_mem _ hd)]

/-- Upper-case ASCII text, as a check that can be run. -/
theorem upperChars_of_all {cs : List Char}
    (h : (cs.all fun c ↦ decide (c.toNat < 128) && decide (c.toUpper = c)) = true) :
    upperChars cs = cs :=
  upperChars_eq_self fun c hc ↦ by
    simpa only [Bool.and_eq_true, decide_eq_true_eq] using List.all_eq_true.1 h c hc

/-- `str.upper()` of an ASCII text. -/
theorem upper_of_ascii {s : String} (h : ∀ c ∈ s.toList, c.toNat < 128) :
    upper s = String.ofList (s.toList.map Char.toUpper) := by
  rw [upper]
  congr 1
  generalize s.toList = cs at h ⊢
  induction cs with
  | nil => rfl
  | cons c cs ih =>
    rw [upperChars_cons_ascii (h c (List.mem_cons_self ..)), List.map_cons,
      ih fun d hd ↦ h d (List.mem_cons_of_mem _ hd)]

/-- Text that upper-casing leaves alone, character by character. -/
def Uppercase (s : String) : Prop := ∀ c ∈ s.toList, UnicodeData.upper c = [c]

theorem upper_eq_of_uppercase {s : String} (h : Uppercase s) : upper s = s := by
  have hflat : ∀ cs : List Char, (∀ c ∈ cs, UnicodeData.upper c = [c]) → upperChars cs = cs := by
    intro cs hcs
    induction cs with
    | nil => rfl
    | cons c cs ih =>
      rw [upperChars, List.flatMap_cons, hcs c (List.mem_cons_self ..)]
      exact congrArg (c :: ·) (ih fun d hd ↦ hcs d (List.mem_cons_of_mem _ hd))
  rw [upper, hflat s.toList h, String.ofList_toList]

theorem uppercase_upper (hlaws : UnicodeData.UpperLaws) (s : String) : Uppercase (upper s) := by
  intro c hc
  rw [toList_upper, upperChars, List.mem_flatMap] at hc
  obtain ⟨d, -, hd⟩ := hc
  exact hlaws.upper_upper d c hd

/-- An ASCII character that is not a lower-case letter survives the mapping where it stands. -/
theorem mem_upperChars_of_mem {c : Char} (h : c.toNat < 128) (hc : c.toUpper = c)
    {cs : List Char} (hm : c ∈ cs) : c ∈ upperChars cs := by
  rw [upperChars, List.mem_flatMap]
  exact ⟨c, hm, by rw [UnicodeData.upper_ascii c h, hc]; exact List.mem_singleton_self c⟩

/-- Upper-case text has no lower-case letters of ASCII. -/
theorem isLower_of_mem_upperChars {c : Char} {cs : List Char} (h : c ∈ upperChars cs) :
    c.isLower = false := by
  obtain ⟨d, -, hd⟩ := List.mem_flatMap.1 h
  exact UnicodeData.upper_not_lower d c hd

end Upper

/-- `str.isspace()` of one character, which is what `str.strip()` removes. -/
def isSpace (c : Char) : Bool :=
  let n := c.toNat
  (9 ≤ n && n ≤ 13) || (28 ≤ n && n ≤ 32) || n == 0x85 || n == 0xA0 || n == 0x1680 ||
    (0x2000 ≤ n && n ≤ 0x200A) || n == 0x2028 || n == 0x2029 || n == 0x202F || n == 0x205F ||
    n == 0x3000

/-- Upper-casing makes no white space out of something else. -/
def UnicodeData.SpaceLaw [UnicodeData] : Prop :=
  ∀ c : Char, isSpace c = false → ∀ d ∈ UnicodeData.upper c, isSpace d = false

theorem UnicodeData.spaceLaw_ascii : @UnicodeData.SpaceLaw .ascii := by
  intro c hc d hd
  simp only [UnicodeData.upper] at hd
  split at hd
  · rename_i hascii
    have hall : ∀ n < 128, isSpace (Char.ofNat n) = false →
        isSpace (Char.ofNat n).toUpper = false := by decide +kernel
    rw [List.mem_singleton.1 hd]
    have h := hall c.toNat hascii
    rw [Char.ofNat_toNat] at h
    exact h hc
  · rw [List.mem_singleton.1 hd]
    exact hc

/-- `str.strip()`, on the characters of a string. -/
def stripChars (cs : List Char) : List Char :=
  ((cs.dropWhile isSpace).reverse.dropWhile isSpace).reverse

/-- `str.strip()`. -/
def strip (s : String) : String := String.ofList (stripChars s.toList)

/-- What has been stripped stays as it is. -/
theorem stripChars_stripChars (cs : List Char) : stripChars (stripChars cs) = stripChars cs := by
  have hstrip : ∀ cs, stripChars cs = (cs.dropWhile isSpace).rdropWhile isSpace := fun _ ↦ rfl
  have hfront : ∀ ds : List Char, ds.dropWhile isSpace = ds →
      (ds.rdropWhile isSpace).dropWhile isSpace = ds.rdropWhile isSpace := by
    intro ds hds
    obtain ⟨rest, hrest⟩ := ds.rdropWhile_prefix isSpace
    cases hcs : ds.rdropWhile isSpace with
    | nil => rfl
    | cons c cs =>
      rw [hcs] at hrest
      rw [← hrest, List.cons_append, List.dropWhile_cons] at hds
      split at hds
      · have hlength := (List.dropWhile_suffix (l := cs ++ rest) isSpace).length_le
        rw [hds, List.length_cons] at hlength
        omega
      · rename_i hc
        exact List.dropWhile_cons_of_neg hc
  rw [hstrip, hstrip, hfront _ (List.dropWhile_idempotent _ _), List.rdropWhile_idempotent]

theorem strip_strip (s : String) : strip (strip s) = strip s := by
  rw [strip, strip, String.toList_ofList, stripChars_stripChars]

/-- White space at the end is stripped. -/
theorem stripChars_append_space {c : Char} (h : isSpace c = true) (cs : List Char) :
    stripChars (cs ++ [c]) = stripChars cs := by
  rw [stripChars, stripChars]
  cases hcs : cs.dropWhile isSpace with
  | nil =>
    have hall : ∀ d ∈ cs, isSpace d = true := by
      intro d hd
      exact List.dropWhile_eq_nil_iff.1 hcs d hd
    rw [List.dropWhile_append_of_pos hall, List.dropWhile_cons_of_pos h]
    rfl
  | cons d ds =>
    rw [List.dropWhile_append, hcs]
    simp only [List.isEmpty_cons, Bool.false_eq_true, if_false]
    rw [List.reverse_append, List.reverse_singleton, List.singleton_append,
      List.dropWhile_cons_of_pos h]

theorem Uppercase.strip [UnicodeData] {s : String} (h : Uppercase s) : Uppercase (strip s) := by
  intro c hc
  rw [Ollog.strip, String.toList_ofList, stripChars, List.mem_reverse] at hc
  have hc' := (List.dropWhile_suffix isSpace).subset hc
  exact h c ((List.dropWhile_suffix isSpace).subset (List.mem_reverse.1 hc'))

/-- Neither the first character nor the last one is white space. -/
def Trimmed (cs : List Char) : Prop :=
  (∀ c ∈ cs.head?, isSpace c = false) ∧ ∀ c ∈ cs.getLast?, isSpace c = false

theorem stripChars_of_trimmed {cs : List Char} (h : Trimmed cs) : stripChars cs = cs := by
  have hdrop : ∀ ds : List Char, (∀ c ∈ ds.head?, isSpace c = false) →
      ds.dropWhile isSpace = ds := by
    intro ds hds
    cases ds with
    | nil => rfl
    | cons c ds => exact List.dropWhile_cons_of_neg (by rw [hds c rfl]; exact Bool.false_ne_true)
  rw [stripChars, hdrop cs h.1, hdrop cs.reverse (by rw [List.head?_reverse]; exact h.2),
    List.reverse_reverse]

theorem length_stripChars_le (cs : List Char) : (stripChars cs).length ≤ cs.length := by
  rw [stripChars, List.length_reverse]
  refine (List.dropWhile_suffix isSpace).length_le.trans ?_
  rw [List.length_reverse]
  exact (List.dropWhile_suffix isSpace).length_le

theorem trimmed_stripChars (cs : List Char) : Trimmed (stripChars cs) := by
  have hagain := stripChars_stripChars cs
  generalize stripChars cs = ds at hagain
  constructor
  · intro c hc
    obtain ⟨ds, rfl⟩ := List.head?_eq_some_iff.1 hc
    by_contra hspace
    have hle : (stripChars (c :: ds)).length ≤ ds.length := by
      rw [stripChars, List.dropWhile_cons_of_pos (by simpa using hspace)]
      exact length_stripChars_le ds
    rw [hagain, List.length_cons] at hle
    omega
  · intro c hc
    obtain ⟨ds, rfl⟩ := List.getLast?_eq_some_iff.1 hc
    by_contra hspace
    have hle := length_stripChars_le ds
    rw [← stripChars_append_space (by simpa using hspace) ds, hagain, List.length_append,
      List.length_singleton] at hle
    omega

/-- Upper-casing never makes a character disappear. -/
def UnicodeData.NonemptyLaw [UnicodeData] : Prop := ∀ c : Char, UnicodeData.upper c ≠ []

theorem UnicodeData.nonemptyLaw_ascii : @UnicodeData.NonemptyLaw .ascii := by
  intro c hnil
  simp only [UnicodeData.upper] at hnil
  split at hnil <;> cases hnil

section

variable [UnicodeData]

theorem trimmed_upperChars (hspace : UnicodeData.SpaceLaw) (hne : UnicodeData.NonemptyLaw)
    {cs : List Char} (h : Trimmed cs) : Trimmed (upperChars cs) := by
  constructor
  · intro d hd
    cases cs with
    | nil => cases hd
    | cons c cs =>
      rw [upperChars, List.flatMap_cons, List.head?_append_of_ne_nil _ (hne c)] at hd
      exact hspace c (h.1 c rfl) d (List.mem_of_head? hd)
  · intro d hd
    obtain rfl | ⟨cs, c, rfl⟩ := List.eq_nil_or_concat' cs
    · cases hd
    · rw [upperChars, List.flatMap_append, List.flatMap_singleton,
        List.getLast?_append_of_ne_nil _ (hne c)] at hd
      exact hspace c (h.2 c List.getLast?_concat) d (List.mem_of_getLast? hd)

theorem upper_strip_of_trimmed {s : String} (hupper : Uppercase s) (htrimmed : Trimmed s.toList) :
    upper (strip s) = s := by
  have hstrip : strip s = s := by
    rw [strip, stripChars_of_trimmed htrimmed, String.ofList_toList]
  rw [hstrip, upper_eq_of_uppercase hupper]

end

/-! ## Splitting and searching -/

/-- The class of the characters from `a` to `b`. -/
def charRange (a b : Char) (c : Char) : Bool := a ≤ c && c ≤ b


/-- `str.split(sep)` for a separator of one character: the pieces between the separators, the
empty ones included. -/
def splitChars (sep : Char) : List Char → List (List Char)
  | [] => [[]]
  | c :: cs =>
    if c = sep then [] :: splitChars sep cs
    else match splitChars sep cs with
      | [] => [[c]]
      | p :: ps => (c :: p) :: ps

theorem splitChars_ne_nil (sep : Char) (cs : List Char) : splitChars sep cs ≠ [] := by
  cases cs with
  | nil => simp [splitChars]
  | cons c cs =>
    rw [splitChars]
    split
    · simp
    · split <;> simp

theorem splitChars_of_not_mem {sep : Char} {cs : List Char} (h : sep ∉ cs) :
    splitChars sep cs = [cs] := by
  induction cs with
  | nil => rfl
  | cons c cs ih =>
    rw [List.mem_cons, not_or] at h
    rw [splitChars, if_neg (Ne.symm h.1), ih h.2]

/-- A prefix without the separator is the first piece. -/
theorem splitChars_append_cons {sep : Char} {cs : List Char} (h : sep ∉ cs) (ds : List Char) :
    splitChars sep (cs ++ sep :: ds) = cs :: splitChars sep ds := by
  induction cs with
  | nil => rw [List.nil_append, splitChars, if_pos rfl]
  | cons c cs ih =>
    rw [List.mem_cons, not_or] at h
    rw [List.cons_append, splitChars, if_neg (Ne.symm h.1), ih h.2]

/-- A text without the separator belongs to the first piece of what follows it. -/
theorem splitChars_append {sep : Char} {cs ds p : List Char} {ps : List (List Char)} (h : sep ∉ cs)
    (hds : splitChars sep ds = p :: ps) : splitChars sep (cs ++ ds) = (cs ++ p) :: ps := by
  induction cs with
  | nil => exact hds
  | cons c cs ih =>
    rw [List.mem_cons, not_or] at h
    rw [List.cons_append, splitChars, if_neg (Ne.symm h.1), ih h.2]
    rfl

/-- The pieces have no other characters than the text. -/
theorem mem_of_mem_splitChars {sep c : Char} {cs p : List Char} (hp : p ∈ splitChars sep cs)
    (hc : c ∈ p) : c ∈ cs := by
  induction cs generalizing p with
  | nil =>
    rw [splitChars, List.mem_singleton] at hp
    exact hp ▸ hc
  | cons d cs ih =>
    rw [splitChars] at hp
    split at hp
    · rcases List.mem_cons.1 hp with rfl | hp
      · exact absurd hc List.not_mem_nil
      · exact List.mem_cons_of_mem _ (ih hp hc)
    split at hp
    · rw [List.mem_singleton.1 hp, List.mem_singleton] at hc
      exact hc ▸ List.mem_cons_self ..
    rename_i q qs hq
    rcases List.mem_cons.1 hp with rfl | hp
    · rcases List.mem_cons.1 hc with rfl | hc
      · exact List.mem_cons_self ..
      · exact List.mem_cons_of_mem _ (ih (hq ▸ List.mem_cons_self ..) hc)
    · exact List.mem_cons_of_mem _ (ih (hq ▸ List.mem_cons_of_mem _ hp) hc)

/-- No piece has a separator in it. -/
theorem not_mem_of_mem_splitChars {sep : Char} {cs p : List Char} (h : p ∈ splitChars sep cs) :
    sep ∉ p := by
  induction cs generalizing p with
  | nil =>
    rw [splitChars, List.mem_singleton] at h
    rw [h]
    exact List.not_mem_nil
  | cons c cs ih =>
    rw [splitChars] at h
    split at h
    · rcases List.mem_cons.1 h with rfl | h
      · exact List.not_mem_nil
      · exact ih h
    rename_i hc
    split at h
    · rw [List.mem_singleton.1 h, List.mem_singleton]
      exact Ne.symm hc
    rename_i q qs hq
    rcases List.mem_cons.1 h with rfl | h
    · rw [List.mem_cons, not_or]
      exact ⟨Ne.symm hc, ih (hq ▸ List.mem_cons_self ..)⟩
    · exact ih (hq ▸ List.mem_cons_of_mem _ h)

/-- A text with one piece has no separator. -/
theorem eq_of_splitChars_eq_singleton {sep : Char} {cs p : List Char}
    (h : splitChars sep cs = [p]) : p = cs := by
  induction cs generalizing p with
  | nil =>
    rw [splitChars, List.cons.injEq] at h
    exact h.1.symm
  | cons c cs ih =>
    rw [splitChars] at h
    split at h
    · exact absurd (List.cons.inj h).2 (splitChars_ne_nil sep cs)
    split at h
    · rename_i hnil
      exact absurd hnil (splitChars_ne_nil sep cs)
    · rename_i q qs hq
      obtain ⟨rfl, rfl⟩ := List.cons.inj h
      rw [ih hq]

/-- Reading up to a separator that the text before it does not have. -/
theorem takeWhile_append_cons {sep : Char} {cs : List Char} (h : sep ∉ cs) (ds : List Char) :
    (cs ++ sep :: ds).takeWhile (· != sep) = cs := by
  rw [List.takeWhile_append_of_pos fun c hc ↦ by
    rw [bne_iff_ne]; exact fun heq ↦ h (heq ▸ hc), List.takeWhile_cons, bne_self_eq_false]
  exact List.append_nil cs

theorem dropWhile_append_cons {sep : Char} {cs : List Char} (h : sep ∉ cs) (ds : List Char) :
    (cs ++ sep :: ds).dropWhile (· != sep) = sep :: ds := by
  rw [List.dropWhile_append_of_pos fun c hc ↦ by
    rw [bne_iff_ne]; exact fun heq ↦ h (heq ▸ hc), List.dropWhile_cons, bne_self_eq_false]
  rfl

/-- `needle in s`. -/
def containsText (needle s : String) : Bool := decide (needle.toList <:+: s.toList)

/-! ## `int(text)` -/

section Int

variable [UnicodeData]

/-- The digits of a number, most significant first, where single underscores may stand between
two digits.  `acc` is the value so far and `afterDigit` says whether a digit has just been read. -/
def intDigits : List Char → Nat → Bool → Option Nat
  | [], acc, afterDigit => if afterDigit then some acc else none
  | c :: cs, acc, afterDigit =>
    match UnicodeData.decimal c with
    | some d => intDigits cs (acc * 10 + d) true
    | none => if c = '_' ∧ afterDigit then intDigits cs acc false else none

/-- `sys.int_info.default_max_str_digits`: what has more digits is not read. -/
def maxStrDigits : Nat := 4300

/-- The number that digits and underscores write. -/
def intNumeral (cs : List Char) : Option Nat :=
  if maxStrDigits < (cs.filter (· != '_')).length then none else intDigits cs 0 false

/-- The white space that `int` passes over.  In ASCII that is what C's `isspace` knows, so the four
separators that `str.isspace()` counts among it are left. -/
def isIntSpace (c : Char) : Bool := isSpace c && !(28 ≤ c.toNat && c.toNat ≤ 31)

/-- A text without the white space that `int` passes over at its ends. -/
def trimInt (cs : List Char) : List Char :=
  ((cs.dropWhile isIntSpace).reverse.dropWhile isIntSpace).reverse

/-- `int(text)`, with `none` for the `ValueError`. -/
def intOfText (cs : List Char) : Option Int :=
  match trimInt cs with
  | '+' :: ds => (intNumeral ds).map Int.ofNat
  | '-' :: ds => (intNumeral ds).map fun n ↦ -Int.ofNat n
  | ds => (intNumeral ds).map Int.ofNat

omit [UnicodeData] in
theorem toNat_of_isDigit {c : Char} (h : c.isDigit = true) : 48 ≤ c.toNat ∧ c.toNat ≤ 57 :=
  Char.isDigit_iff_toNat.1 h

theorem decimal_of_isDigit {c : Char} (h : c.isDigit = true) :
    UnicodeData.decimal c = some (c.toNat - '0'.toNat) := by
  have hlt : c.toNat < 128 := by
    have := toNat_of_isDigit h
    omega
  rw [UnicodeData.decimal_ascii c hlt, if_pos h]

theorem intDigits_of_isDigit {cs : List Char} (h : ∀ c ∈ cs, c.isDigit = true) (acc : Nat) :
    intDigits cs acc true = some (Nat.ofDigitChars 10 cs acc) := by
  induction cs generalizing acc with
  | nil => rfl
  | cons c cs ih =>
    rw [intDigits, decimal_of_isDigit (h c (List.mem_cons_self ..)), Nat.ofDigitChars_cons,
      Nat.mul_comm 10 acc]
    exact ih (fun d hd ↦ h d (List.mem_cons_of_mem _ hd)) _

omit [UnicodeData] in
theorem isSpace_of_isDigit {c : Char} (h : c.isDigit = true) : isSpace c = false := by
  have := toNat_of_isDigit h
  simp only [isSpace, Bool.or_eq_false_iff, Bool.and_eq_false_iff, decide_eq_false_iff_not,
    beq_eq_false_iff_ne, ne_eq]
  omega

omit [UnicodeData] in
theorem stripChars_eq_self {cs : List Char} (h : ∀ c ∈ cs, isSpace c = false) :
    stripChars cs = cs := by
  have hdrop : ∀ ds : List Char, (∀ c ∈ ds, isSpace c = false) → ds.dropWhile isSpace = ds := by
    intro ds hds
    cases ds with
    | nil => rfl
    | cons c ds => rw [List.dropWhile_cons, hds c (List.mem_cons_self ..), if_neg Bool.false_ne_true]
  rw [stripChars, hdrop cs h, hdrop cs.reverse fun c hc ↦ h c (List.mem_reverse.1 hc),
    List.reverse_reverse]

omit [UnicodeData] in
theorem trimInt_of_isDigit {cs : List Char} (h : ∀ c ∈ cs, c.isDigit = true) : trimInt cs = cs := by
  have hdrop : ∀ ds : List Char, (∀ c ∈ ds, c.isDigit = true) → ds.dropWhile isIntSpace = ds := by
    intro ds hds
    cases ds with
    | nil => rfl
    | cons c ds =>
      refine List.dropWhile_cons_of_neg ?_
      rw [isIntSpace, isSpace_of_isDigit (hds c (List.mem_cons_self ..)), Bool.false_and]
      exact Bool.false_ne_true
  rw [trimInt, hdrop cs h, hdrop cs.reverse fun c hc ↦ h c (List.mem_reverse.1 hc),
    List.reverse_reverse]

/-- `int(str(n)) == n`, for a number that has not too many digits. -/
theorem intOfText_repr {n : Nat} (hn : n < 10 ^ maxStrDigits) :
    intOfText n.repr.toList = some (n : Int) := by
  have hdigits : ∀ c ∈ Nat.toDigits 10 n, c.isDigit = true := fun c hc ↦
    Nat.isDigit_of_mem_toDigits (by decide) (by decide) hc
  have hfew : ¬ maxStrDigits < ((Nat.toDigits 10 n).filter (· != '_')).length := by
    refine Nat.not_lt.2 ((List.length_filter_le ..).trans ?_)
    exact (Nat.length_toDigits_le_iff (by decide) (by decide)).2 hn
  have hvalue : intNumeral (Nat.toDigits 10 n) = some n := by
    rw [intNumeral, if_neg hfew]
    cases hcs : Nat.toDigits 10 n with
    | nil => exact absurd hcs Nat.toDigits_ne_nil
    | cons c cs =>
      rw [hcs] at hdigits
      rw [intDigits, decimal_of_isDigit (hdigits c (List.mem_cons_self ..))]
      dsimp only
      rw [intDigits_of_isDigit fun d hd ↦ hdigits d (List.mem_cons_of_mem _ hd)]
      have hn := Nat.ofDigitChars_ten_toDigits (n := n)
      rw [hcs, Nat.ofDigitChars_cons] at hn
      rw [Nat.zero_mul]
      exact congrArg some (by simpa using hn)
  rw [Nat.toList_repr, intOfText, trimInt_of_isDigit hdigits]
  split
  · rename_i ds heq
    exact absurd (hdigits '+' (heq ▸ List.mem_cons_self ..)) (by decide)
  · rename_i ds heq
    exact absurd (hdigits '-' (heq ▸ List.mem_cons_self ..)) (by decide)
  · rw [hvalue]
    rfl

end Int

/-! ## `repr(text)` and numerals -/

/-- The lower-case hexadecimal digit of a number below sixteen. -/
def hexDigit (n : Nat) : Char := if n < 10 then Char.ofNat (48 + n) else Char.ofNat (87 + n)

/-- The `width` low hexadecimal digits of a number, most significant first. -/
def hexChars : Nat → Nat → List Char
  | 0, _ => []
  | width + 1, n => hexChars width (n / 16) ++ [hexDigit (n % 16)]

/-- A number with at least two decimal digits, as `%02d` writes it. -/
def pad2 (n : Nat) : String := if n < 10 then "0" ++ toString n else toString n

/-- A number with at least four decimal digits, as `%04d` writes it. -/
def pad4 (n : Nat) : String :=
  if n < 10 then "000" ++ toString n
  else if n < 100 then "00" ++ toString n
  else if n < 1000 then "0" ++ toString n
  else toString n

/-- A number with at least six decimal digits, as `%06d` writes it. -/
def pad6 (n : Nat) : String :=
  if n < 10000 then "00" ++ pad4 n else if n < 100000 then "0" ++ toString n else toString n

section Repr

variable [UnicodeData]

/-- One character inside the quotes of `repr(text)`. -/
def reprChar (quote c : Char) : List Char :=
  if c = quote ∨ c = '\\' then ['\\', c]
  else if c = '\t' then ['\\', 't']
  else if c = '\n' then ['\\', 'n']
  else if c = '\r' then ['\\', 'r']
  else if UnicodeData.isPrintable c then [c]
  else if c.toNat < 0x100 then ['\\', 'x'] ++ hexChars 2 c.toNat
  else if c.toNat < 0x10000 then ['\\', 'u'] ++ hexChars 4 c.toNat
  else ['\\', 'U'] ++ hexChars 8 c.toNat

/-- `repr(text)`: single quotes, unless the text has single quotes and no double ones. -/
def reprText (s : String) : String :=
  let quote := if s.toList.contains '\'' && !s.toList.contains '"' then '"' else '\''
  String.ofList ([quote] ++ s.toList.flatMap (reprChar quote) ++ [quote])

end Repr

end Ollog
