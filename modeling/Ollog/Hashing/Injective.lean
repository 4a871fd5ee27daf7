import Ollog.Hashing
import Ollog.Lib.Codes
import Ollog.Python.Calendar
import Std.Data.String.ToInt

/-!
# The hashed text determines what is hashed

Rows are duplicates when their hashes are equal, so what the hash does not see is lost to the
program.  The digest is of the canonical JSON text; this module shows that the text in turn can be
read back: two documents with the same text have the same canonical fields, and the same instant
where a date stands.

The text of a double can be that of an integer for all that is known of it here, and `json.dumps`
writes an object id or a `DBRef` as if it were a text; documents that hold one are left out.
-/

set_option autoImplicit false

namespace Ollog

open Codes

namespace Value

/-! ## Characters -/

/-- The character that an escape stands for, and what follows it. -/
def readEscape : List Char → Option (Char × List Char)
  | 'n' :: r => some ('\n', r)
  | 'r' :: r => some ('\r', r)
  | 't' :: r => some ('\t', r)
  | 'b' :: r => some (Char.ofNat 8, r)
  | 'f' :: r => some (Char.ofNat 12, r)
  | 'u' :: r =>
    ((r.take 4).foldlM (fun n c ↦ (hexValue c).map (n * 16 + ·)) 0).map fun n ↦
      (Char.ofNat n, r.drop 4)
  | c :: r => some (c, r)
  | [] => none

/-- The character that begins a text inside of quotes, and what follows it. -/
def readChar : List Char → Option (Char × List Char)
  | [] => none
  | c :: r => if c = '\\' then readEscape r else some (c, r)

/-- A character below a space, as four hexadecimal digits. -/
theorem readEscape_hexChars {c : Char} (hc : c.toNat < 32) (r : List Char) :
    readEscape ('u' :: (hexChars 4 c.toNat ++ r)) = some (c, r) := by
  show (((hexChars 4 c.toNat ++ r).take 4).foldlM (fun n c ↦ (hexValue c).map (n * 16 + ·)) 0).map
    (fun n ↦ (Char.ofNat n, (hexChars 4 c.toNat ++ r).drop 4)) = some (c, r)
  rw [List.take_left' (length_hexChars 4 _), List.drop_left' (length_hexChars 4 _),
    foldlM_hexChars, Option.map_some, Nat.zero_mul, Nat.zero_add, Nat.mod_eq_of_lt (by omega),
    Char.ofNat_toNat]

/-- A character is read back. -/
theorem readChar_jsonChar (c : Char) (r : List Char) :
    readChar (jsonChar c ++ r) = some (c, r) := by
  have hnat : ∀ {n : Nat}, c.toNat = n → Char.ofNat n = c := fun h ↦ h ▸ Char.ofNat_toNat c
  rw [jsonChar]
  split
  · rename_i h
    rcases h with rfl | rfl <;> rfl
  rename_i hne
  split
  · rename_i h
    rw [h]
    rfl
  split
  · rename_i h
    rw [h]
    rfl
  split
  · rename_i h
    rw [h]
    rfl
  split
  · rename_i h
    rw [← hnat h]
    rfl
  split
  · rename_i h
    rw [← hnat h]
    rfl
  split
  · rename_i h
    exact readEscape_hexChars h r
  · exact if_neg fun h ↦ hne (.inr h)

/-- No character is written so that it begins with a quote. -/
theorem exists_jsonChar (c : Char) : ∃ d cs, jsonChar c = d :: cs ∧ True ∧ d ≠ '"' := by
  have hread := readChar_jsonChar c []
  rcases hc : jsonChar c with _ | ⟨d, cs⟩
  · simp [hc, readChar] at hread
  · refine ⟨d, cs, rfl, trivial, ?_⟩
    rintro rfl
    -- What begins with a quote is read as a quote, and that is written behind a backslash.
    rw [hc] at hread
    obtain ⟨hquote, -⟩ : '"' = c ∧ cs = [] := by simpa [readChar] using hread
    rw [← hquote] at hc
    simp [jsonChar] at hc

/-! ## Numbers -/

/-- The characters of an integer. -/
def isNumberChar (c : Char) : Bool := c == '-' || c.isDigit

theorem isNumberChar_of_mem {n : Int} {c : Char} (hc : c ∈ (toString n).toList) :
    isNumberChar c = true := by
  have hdigit : ∀ {m : Nat}, c ∈ m.repr.toList → c.isDigit = true := fun hmem ↦ by
    rw [Nat.toList_repr] at hmem
    exact Nat.isDigit_of_mem_toDigits (by decide) (by decide) hmem
  rw [isNumberChar, Bool.or_eq_true, beq_iff_eq]
  rw [Int.toString_eq_repr, Int.repr_eq_if] at hc
  split at hc
  · exact .inr (hdigit hc)
  · rw [String.toList_append] at hc
    rcases List.mem_append.1 hc with hsign | hrest
    · exact .inl (List.mem_singleton.1 hsign)
    · exact .inr (hdigit hrest)

theorem exists_toString (n : Int) :
    ∃ c cs, (toString n).toList = c :: cs ∧ isNumberChar c = true := by
  rcases hn : (toString n).toList with _ | ⟨c, cs⟩
  · rw [Int.toString_eq_repr, Int.repr_eq_if] at hn
    split at hn <;> simp at hn
  · exact ⟨c, cs, rfl, isNumberChar_of_mem (n := n) (hn ▸ List.mem_cons_self)⟩

/-! ## Values -/

mutual
/-- A value that its JSON text determines: no double, no object id and no date, at any depth. -/
def isExact : Value → Bool
  | null | bool _ | int _ | str _ => true
  | float _ | oid _ | datetime _ | dbRef .. => false
  | list xs => isExactList xs
  | dict fields => isExactFields fields

/-- `isExact` of every element. -/
def isExactList : List Value → Bool
  | [] => true
  | x :: xs => isExact x && isExactList xs

/-- `isExact` of every field. -/
def isExactFields : List (String × Value) → Bool
  | [] => true
  | (_, v) :: ps => isExact v && isExactFields ps
end

theorem isExactList_iff {xs : List Value} : isExactList xs = true ↔ ∀ x ∈ xs, x.isExact = true := by
  induction xs with
  | nil => simp [isExactList]
  | cons x xs ih => rw [isExactList, Bool.and_eq_true, ih, List.forall_mem_cons]

theorem isExactFields_iff {ps : List (String × Value)} :
    isExactFields ps = true ↔ ∀ p ∈ ps, p.2.isExact = true := by
  induction ps with
  | nil => simp [isExactFields]
  | cons p ps ih => rw [isExactFields, Bool.and_eq_true, ih, List.forall_mem_cons]

/-- What a value begins with tells which kind it is of. -/
inductive Kind where
  | null | true | false | number | string | array | object | other
  deriving DecidableEq

/-- The kind of a value whose text begins with a character. -/
def kindOfStart (c : Char) : Kind :=
  if isNumberChar c then .number
  else if c = 'n' then .null
  else if c = 't' then .true
  else if c = 'f' then .false
  else if c = '"' then .string
  else if c = '[' then .array
  else if c = '\x7b' then .object
  else .other

/-- The kind of a value. -/
def kind : Value → Kind
  | null => .null
  | bool b => if b then .true else .false
  | int _ => .number
  | str _ => .string
  | list _ => .array
  | dict _ => .object
  | float _ | oid _ | datetime _ | dbRef .. => .other

section

variable [UnicodeData]

theorem exists_jsonDumps {v : Value} (hv : v.isExact = true) :
    ∃ c cs, v.jsonDumps = c :: cs ∧ kindOfStart c = v.kind := by
  rcases v with _ | b | n | t | s | o | dt | xs | fields | _
  · exact ⟨_, _, rfl, by decide⟩
  · cases b <;> exact ⟨_, _, rfl, by decide⟩
  · obtain ⟨c, cs, hn, hc⟩ := exists_toString n
    exact ⟨c, cs, hn, if_pos hc⟩
  · simp [isExact] at hv
  · exact ⟨_, _, rfl, rfl⟩
  · simp [isExact] at hv
  · simp [isExact] at hv
  · exact ⟨_, _, rfl, rfl⟩
  · exact ⟨_, _, rfl, rfl⟩
  · simp [isExact] at hv

/-- The characters that may follow a value. -/
def endsValue (c : Char) : Prop := c = ',' ∨ c = ']' ∨ c = '\x7d'

omit [UnicodeData] in
theorem kind_ne_other {v : Value} (hv : v.isExact = true) : v.kind ≠ .other := by
  rcases v with _ | b | n | t | s | o | dt | xs | fields | _ <;> simp [isExact, kind] at hv ⊢
  split <;> simp

/-- No value begins with a closing bracket. -/
theorem exists_jsonDumps_ne {v : Value} (hv : v.isExact = true) {close : Char}
    (hclose : kindOfStart close = .other) : ∃ c cs, v.jsonDumps = c :: cs ∧ c ≠ close := by
  obtain ⟨c, cs, hcs, hc⟩ := exists_jsonDumps hv
  refine ⟨c, cs, hcs, ?_⟩
  rintro rfl
  exact kind_ne_other hv (hc.symm.trans hclose)

/-- Values whose texts begin alike are of one kind. -/
theorem kind_eq {v w : Value} (hv : v.isExact = true) (hw : w.isExact = true) {r r' : List Char}
    (h : v.jsonDumps ++ r = w.jsonDumps ++ r') : v.kind = w.kind := by
  obtain ⟨c, cs, hcs, hc⟩ := exists_jsonDumps hv
  obtain ⟨d, ds, hds, hd⟩ := exists_jsonDumps hw
  rw [hcs, hds] at h
  rw [← hc, ← hd, (List.cons.inj h).1]

omit [UnicodeData] in
/-- A text inside of quotes is read back, whatever follows it. -/
theorem jsonString_inj {s t : String} {r r' : List Char}
    (h : jsonString s ++ r = jsonString t ++ r') : s = t ∧ r = r' := by
  simp only [jsonString, List.append_assoc, List.cons_append, List.nil_append] at h
  obtain ⟨hchars, hr⟩ := flatMap_inj (fun _ ↦ True) trivial exists_jsonChar
    (fun c _ d _ r r' _ _ heq ↦ Prod.mk.inj (Option.some.inj (by
      rw [← readChar_jsonChar c r, heq, readChar_jsonChar]))) (List.cons.inj h).2
  exact ⟨String.toList_inj.1 hchars, hr⟩

/-- An integer is read back. -/
theorem determines_int (n m : Int) : Determines endsValue jsonDumps (int n) (int m) := by
  have hends : ∀ {r}, Begins endsValue r → Begins (isNumberChar · = false) r := fun hr c hc ↦ by
    rcases hr c hc with rfl | rfl | rfl <;> rfl
  intro r r' hr hr' h
  obtain ⟨htext, hrest⟩ := append_inj_of_begins (fun _ ↦ isNumberChar_of_mem)
    (fun _ ↦ isNumberChar_of_mem) (hends hr) (hends hr') h
  rw [String.toList_inj, Int.toString_eq_repr, Int.toString_eq_repr] at htext
  exact ⟨congrArg int (Int.repr_injective htext), hrest⟩

/-! ## Arrays and objects -/

theorem jsonItems_eq (xs : List Value) : jsonItems xs = [','].intercalate (xs.map jsonDumps) := by
  induction xs with
  | nil => rfl
  | cons x xs ih =>
    rcases xs with _ | ⟨y, ys⟩
    · simp [jsonItems]
    · simp [jsonItems, ih]

/-- One member of an object. -/
def jsonMember (p : String × Value) : List Char := jsonString p.1 ++ [':'] ++ jsonDumps p.2

theorem jsonFields_eq (ps : List (String × Value)) :
    jsonFields ps = [','].intercalate (ps.map jsonMember) := by
  induction ps with
  | nil => rfl
  | cons p ps ih =>
    rcases ps with _ | ⟨q, qs⟩
    · simp [jsonFields, jsonMember]
    · simp [jsonFields, ih, jsonMember]

/-- An array is read back if its elements are. -/
theorem determines_list {xs ys : List Value} (hxs : ∀ x ∈ xs, x.isExact = true)
    (hys : ∀ y ∈ ys, y.isExact = true)
    (h : ∀ x ∈ xs, ∀ y ∈ ys, Determines endsValue jsonDumps x y) :
    Determines endsValue jsonDumps (list xs) (list ys) := by
  intro r r' _ _ heq
  simp only [jsonDumps, jsonItems_eq, List.append_assoc, List.cons_append, List.nil_append] at heq
  obtain ⟨rfl, hr⟩ := intercalate_inj (.inl rfl) (.inr (.inl rfl)) (by decide)
    (fun x hx ↦ exists_jsonDumps_ne (hxs x hx) rfl) (fun y hy ↦ exists_jsonDumps_ne (hys y hy) rfl)
    h (List.cons.inj heq).2
  exact ⟨rfl, hr⟩

/-- An object is read back if its values are. -/
theorem determines_dict {ps qs : List (String × Value)}
    (h : ∀ p ∈ ps, ∀ q ∈ qs, Determines endsValue jsonDumps p.2 q.2) :
    Determines endsValue jsonDumps (dict ps) (dict qs) := by
  intro r r' _ _ heq
  simp only [jsonDumps, jsonFields_eq, List.append_assoc, List.cons_append, List.nil_append] at heq
  have hquote : ∀ p : String × Value, ∃ c cs, jsonMember p = c :: cs ∧ c ≠ '\x7d' := fun p ↦
    ⟨_, _, rfl, by decide⟩
  have hmember : ∀ p ∈ ps, ∀ q ∈ qs, Determines endsValue jsonMember p q := by
    intro p hp q hq r r' hr hr' hpq
    simp only [jsonMember, List.append_assoc, List.cons_append, List.nil_append] at hpq
    obtain ⟨hkey, hrest⟩ := jsonString_inj hpq
    obtain ⟨hvalue, hr⟩ := h p hp q hq r r' hr hr' (List.cons.inj hrest).2
    exact ⟨Prod.ext hkey hvalue, hr⟩
  obtain ⟨rfl, hr⟩ := intercalate_inj (.inl rfl) (.inr (.inr rfl)) (by decide)
    (fun p _ ↦ hquote p) (fun q _ ↦ hquote q) hmember (List.cons.inj heq).2
  exact ⟨rfl, hr⟩

/-! ## The text of a value determines it -/

theorem determines_of_kind {v w : Value} (hv : v.isExact = true) (hw : w.isExact = true)
    (h : v.kind = w.kind → Determines endsValue jsonDumps v w) :
    Determines endsValue jsonDumps v w :=
  fun r r' hr hr' heq ↦ h (kind_eq hv hw heq) r r' hr hr' heq

/-- A text that is the same for all values of a kind. -/
theorem determines_self (v : Value) : Determines endsValue jsonDumps v v :=
  fun _ _ _ _ heq ↦ ⟨rfl, List.append_cancel_left heq⟩

-- The recursion is on the first value; the kind of the second is that of the first, and whatever
-- follows an element or a member of it is what may follow a value.
mutual
/-- **The JSON text of a value determines it**, also in front of what may follow a value. -/
theorem determines_jsonDumps : ∀ v : Value, v.isExact = true → ∀ w : Value, w.isExact = true →
    Determines endsValue jsonDumps v w
  | null, hv, w, hw => determines_of_kind hv hw fun hkind ↦ by
    rcases w with _ | (_ | _) | m | t | s | o | dt | ys | qs | _ <;> simp [kind] at hkind
    exact determines_self null
  | bool b, hv, w, hw => determines_of_kind hv hw fun hkind ↦ by
    rcases b with _ | _ <;>
      rcases w with _ | (_ | _) | m | t | s | o | dt | ys | qs | _ <;> simp [kind] at hkind
    · exact determines_self _
    · exact determines_self _
  | int n, hv, w, hw => determines_of_kind hv hw fun hkind ↦ by
    rcases w with _ | (_ | _) | m | t | s | o | dt | ys | qs | _ <;> simp [kind] at hkind
    exact determines_int n m
  | str s, hv, w, hw => determines_of_kind hv hw fun hkind ↦ by
    rcases w with _ | (_ | _) | m | t | u | o | dt | ys | qs | _ <;> simp [kind] at hkind
    intro r r' _ _ h
    exact (jsonString_inj h).imp_left (congrArg str)
  | list xs, hv, w, hw => determines_of_kind hv hw fun hkind ↦ by
    rcases w with _ | (_ | _) | m | t | s | o | dt | ys | qs | _ <;> simp [kind] at hkind
    have hxs : isExactList xs = true := hv
    have hys := isExactList_iff.1 (show isExactList ys = true from hw)
    exact determines_list (isExactList_iff.1 hxs) hys fun x hx y hy ↦
      determines_of_mem_list xs hxs x hx y (hys y hy)
  | dict ps, hv, w, hw => determines_of_kind hv hw fun hkind ↦ by
    rcases w with _ | (_ | _) | m | t | s | o | dt | ys | qs | _ <;> simp [kind] at hkind
    have hqs := isExactFields_iff.1 (show isExactFields qs = true from hw)
    exact determines_dict fun p hp q hq ↦
      determines_of_mem_fields ps hv p hp q.2 (hqs q hq)
  | float _, hv, _, _ | oid _, hv, _, _ | datetime _, hv, _, _ | dbRef .., hv, _, _ => by
    simp [isExact] at hv

/-- `determines_jsonDumps` for every element. -/
theorem determines_of_mem_list : ∀ xs : List Value, isExactList xs = true →
    ∀ x ∈ xs, ∀ w : Value, w.isExact = true → Determines endsValue jsonDumps x w
  | [], _, _, hx, _, _ => by simp at hx
  | x :: xs, hxs, y, hy, w, hw => by
    rw [isExactList, Bool.and_eq_true] at hxs
    rcases List.mem_cons.1 hy with heq | hmem
    · rw [heq]
      exact determines_jsonDumps x hxs.1 w hw
    · exact determines_of_mem_list xs hxs.2 y hmem w hw

/-- `determines_jsonDumps` for every field. -/
theorem determines_of_mem_fields : ∀ ps : List (String × Value), isExactFields ps = true →
    ∀ p ∈ ps, ∀ w : Value, w.isExact = true → Determines endsValue jsonDumps p.2 w
  | [], _, _, hp, _, _ => by simp at hp
  | (k, v) :: ps, hps, q, hq, w, hw => by
    rw [isExactFields, Bool.and_eq_true] at hps
    rcases List.mem_cons.1 hq with heq | hmem
    · rw [heq]
      exact determines_jsonDumps v hps.1 w hw
    · exact determines_of_mem_fields ps hps.2 q hmem w hw
end

end

end Value

/-! ## Dates -/

/-- Digits of a given number that write a number. -/
structure Writes (width n : Nat) (cs : List Char) : Prop where
  length : cs.length = width
  value : Nat.ofDigitChars 10 cs 0 = n

theorem Writes.zeros {width n : Nat} {cs : List Char} (h : Writes width n cs) (k : Nat) :
    Writes (k + width) n (List.replicate k '0' ++ cs) where
  length := by rw [List.length_append, List.length_replicate, h.length]
  value := by rw [Nat.ofDigitChars_append, Nat.ofDigitChars_replicate_zero, Nat.mul_zero, h.value]

theorem writes_toString {k n : Nat} (hlow : k = 0 ∨ 10 ^ k ≤ n) (hhigh : n < 10 ^ (k + 1)) :
    Writes (k + 1) n (toString n).toList where
  length := by
    rw [Nat.toString_eq_repr, Nat.toList_repr]
    have hle := (Nat.length_toDigits_le_iff (b := 10) (by decide) (Nat.succ_pos k)).2 hhigh
    rcases hlow with rfl | hlow
    · exact Nat.le_antisymm hle Nat.length_toDigits_pos
    · rcases Nat.eq_zero_or_pos k with rfl | hk
      · exact Nat.le_antisymm hle Nat.length_toDigits_pos
      · have hnot := mt (Nat.length_toDigits_le_iff (b := 10) (n := n) (by decide) hk).1
          (Nat.not_lt.2 hlow)
        omega
  value := by rw [Nat.toString_eq_repr, Nat.toList_repr, Nat.ofDigitChars_ten_toDigits]

theorem writes_pad2 {n : Nat} (h : n < 100) : Writes 2 n (pad2 n).toList := by
  rw [pad2]
  split
  · rw [String.toList_append]
    exact (writes_toString (k := 0) (.inl rfl) (by omega)).zeros 1
  · exact writes_toString (k := 1) (.inr (by omega)) (by omega)

theorem writes_pad4 {n : Nat} (h : n < 10000) : Writes 4 n (pad4 n).toList := by
  rw [pad4]
  split
  · rw [String.toList_append]
    exact (writes_toString (k := 0) (.inl rfl) (by omega)).zeros 3
  split
  · rw [String.toList_append]
    exact (writes_toString (k := 1) (.inr (by omega)) (by omega)).zeros 2
  split
  · rw [String.toList_append]
    exact (writes_toString (k := 2) (.inr (by omega)) (by omega)).zeros 1
  · exact writes_toString (k := 3) (.inr (by omega)) (by omega)

theorem writes_pad6 {n : Nat} (h : n < 1000000) : Writes 6 n (pad6 n).toList := by
  rw [pad6]
  split
  · rename_i hlt
    rw [String.toList_append]
    exact (writes_pad4 hlt).zeros 2
  split
  · rw [String.toList_append]
    exact (writes_toString (k := 4) (.inr (by omega)) (by omega)).zeros 1
  · exact writes_toString (k := 5) (.inr (by omega)) (by omega)

theorem Writes.inj {width n m : Nat} {cs ds r r' : List Char} (hcs : Writes width n cs)
    (hds : Writes width m ds) (h : cs ++ r = ds ++ r') : n = m ∧ r = r' := by
  obtain ⟨rfl, hr⟩ := List.append_inj h (hcs.length.trans hds.length.symm)
  exact ⟨hcs.value.symm.trans hds.value, hr⟩

/-- The years that a datetime can show. -/
theorem year_dateOfDay_lt {n : Nat} (h : n < 3652059) : (dateOfDay n).1 < 10000 := by
  obtain ⟨hdate, hcount⟩ := dayNumber_dateOfDay n
  refine Nat.lt_of_not_le fun hle ↦ ?_
  have hmono := daysBeforeYear_mono (by decide) hle
  have hlast : daysBeforeYear 10000 = 3652059 := by decide
  rw [dayNumber] at hcount
  omega

/-- The days are told apart by their dates. -/
theorem dateOfDay_inj {n n' : Nat} (h : dateOfDay n = dateOfDay n') : n = n' := by
  rw [← (dayNumber_dateOfDay n).2, h, (dayNumber_dateOfDay n').2]

/-- The parts of a time of the day. -/
theorem micros_inj {n n' : Nat} (hh : n / 3600000000 = n' / 3600000000)
    (hm : n / 60000000 % 60 = n' / 60000000 % 60) (hs : n / 1000000 % 60 = n' / 1000000 % 60)
    (hus : n % 1000000 = n' % 1000000) : n = n' := by
  omega

/-- What a naive datetime shows, as it is written. -/
theorem toList_canonicalText (dt : DateTime) :
    let date := dateOfDay (dt.utc / dayMicros).toNat
    let n := (dt.utc % dayMicros).toNat
    dt.canonicalText.toList = (pad4 date.1).toList ++ '-' :: ((pad2 date.2.1).toList ++ '-' ::
      ((pad2 date.2.2).toList ++ 'T' :: ((pad2 (n / 3600000000)).toList ++ ':' ::
        ((pad2 (n / 60000000 % 60)).toList ++ ':' :: ((pad2 (n / 1000000 % 60)).toList ++
          ((if n % 1000000 = 0 then [] else '.' :: (pad6 (n % 1000000)).toList) ++ ['Z'])))))) := by
  intro date n
  have hfraction : (if n % 1000000 = 0 then "" else "." ++ pad6 (n % 1000000)).toList =
      if n % 1000000 = 0 then [] else '.' :: (pad6 (n % 1000000)).toList := by
    split
    · rfl
    · rw [String.toList_append]
      rfl
  rw [← hfraction]
  simp [DateTime.canonicalText, DateTime.isoformat, date, n]

/-- A fraction of a second is read back. -/
theorem fraction_inj {us us' : Nat} (hus : us < 1000000) (hus' : us' < 1000000)
    (h : (if us = 0 then [] else '.' :: (pad6 us).toList) ++ ['Z'] =
      (if us' = 0 then [] else '.' :: (pad6 us').toList) ++ ['Z']) : us = us' := by
  split at h <;> split at h
  · omega
  · simp at h
  · simp at h
  · exact ((writes_pad6 hus).inj (writes_pad6 hus') (List.cons.inj h).2).1

/-- **Different instants have different texts.** -/
theorem DateTime.utc_eq_of_canonicalText {dt dt' : DateTime} (h0 : 0 ≤ dt.utc)
    (hlt : dt.utc < maxWall) (h0' : 0 ≤ dt'.utc) (hlt' : dt'.utc < maxWall)
    (h : dt.canonicalText = dt'.canonicalText) : dt.utc = dt'.utc := by
  have htext := congrArg String.toList h
  rw [toList_canonicalText, toList_canonicalText] at htext
  rw [maxWall, dayMicros] at hlt hlt'
  rw [dayMicros] at htext
  have hdate := (dayNumber_dateOfDay (dt.utc / 86400000000).toNat).1
  have hdate' := (dayNumber_dateOfDay (dt'.utc / 86400000000).toNat).1
  have hbounds : ∀ {y m d : Nat}, IsDate y m d → m < 100 ∧ d < 100 := fun hd ↦
    ⟨Nat.lt_of_le_of_lt hd.month_le (by decide),
      Nat.lt_of_le_of_lt (hd.day_le.trans daysInMonth_le) (by decide)⟩
  have hyear := @year_dateOfDay_lt (dt.utc / 86400000000).toNat (by omega)
  have hyear' := @year_dateOfDay_lt (dt'.utc / 86400000000).toNat (by omega)
  obtain ⟨hy, htext⟩ := (writes_pad4 hyear).inj (writes_pad4 hyear') htext
  obtain ⟨hm, htext⟩ := (writes_pad2 (hbounds hdate).1).inj (writes_pad2 (hbounds hdate').1)
    (List.cons.inj htext).2
  obtain ⟨hd, htext⟩ := (writes_pad2 (hbounds hdate).2).inj (writes_pad2 (hbounds hdate').2)
    (List.cons.inj htext).2
  obtain ⟨hh, htext⟩ := (writes_pad2 (by omega)).inj (writes_pad2 (by omega))
    (List.cons.inj htext).2
  obtain ⟨hmin, htext⟩ := (writes_pad2 (by omega)).inj (writes_pad2 (by omega))
    (List.cons.inj htext).2
  obtain ⟨hs, htext⟩ := (writes_pad2 (by omega)).inj (writes_pad2 (by omega))
    (List.cons.inj htext).2
  have hus := fraction_inj (Nat.mod_lt _ (by decide)) (Nat.mod_lt _ (by decide)) htext
  have hday := dateOfDay_inj (Prod.ext hy (Prod.ext hm hd))
  have hmicros := micros_inj hh hmin hs hus
  omega

/-! ## What a value says -/

namespace Value

mutual
/-- What a value says to the hash: excluded fields are gone at every depth, the fields of an object
are in order, and a date is an instant. -/
def content : Value → Value
  | dict fields => dict (sortFields (contentFields fields))
  | datetime dt => datetime ⟨dt.utc, none⟩
  | list xs => list (contentList xs)
  | null => null
  | bool b => bool b
  | int n => int n
  | float t => float t
  | str s => str s
  | oid o => oid o
  | dbRef collection id database extra => dbRef collection id database extra

/-- `content` of every element. -/
def contentList : List Value → List Value
  | [] => []
  | x :: xs => content x :: contentList xs

/-- `content` of every field that is not excluded. -/
def contentFields : List (String × Value) → List (String × Value)
  | [] => []
  | (k, v) :: ps =>
    if k ∈ hashExcludedFields then contentFields ps else (k, content v) :: contentFields ps
end

mutual
/-- Write the dates. -/
def render : Value → Value
  | datetime dt => str dt.canonicalText
  | list xs => list (renderList xs)
  | dict fields => dict (renderFields fields)
  | null => null
  | bool b => bool b
  | int n => int n
  | float t => float t
  | str s => str s
  | oid o => oid o
  | dbRef collection id database extra => dbRef collection id database extra

/-- `render` of every element. -/
def renderList : List Value → List Value
  | [] => []
  | x :: xs => render x :: renderList xs

/-- `render` of every field. -/
def renderFields : List (String × Value) → List (String × Value)
  | [] => []
  | (k, v) :: ps => (k, render v) :: renderFields ps
end

theorem renderFields_eq_map (ps : List (String × Value)) :
    renderFields ps = ps.map fun p ↦ (p.1, render p.2) := by
  induction ps with
  | nil => rfl
  | cons p ps ih => rw [renderFields, ih, List.map_cons]

theorem sortFields_renderFields (ps : List (String × Value)) :
    sortFields (renderFields ps) = renderFields (sortFields ps) := by
  rw [renderFields_eq_map, renderFields_eq_map, sortFields, sortFields]
  symm
  exact List.map_insertionSort _ _ _ _ fun _ _ _ _ ↦ Iff.rfl

mutual
/-- The canonical value is what the value says, with its dates written. -/
theorem canonicalize_eq_render : ∀ v : Value, v.canonicalize = v.content.render
  | null | bool _ | int _ | float _ | str _ | oid _ | dbRef .. => rfl
  | datetime dt => by
    rw [canonicalize, content, render, DateTime.canonicalText, DateTime.canonicalText]
    simp [DateTime.utc]
  | list xs => by rw [canonicalize, content, render, canonicalizeList_eq_render xs]
  | dict fields => by
    rw [canonicalize, content, render, canonicalizeFields_eq_render fields, sortFields_renderFields]

/-- `canonicalize_eq_render` for every element. -/
theorem canonicalizeList_eq_render : ∀ xs, canonicalizeList xs = renderList (contentList xs)
  | [] => rfl
  | x :: xs => by
    rw [canonicalizeList, contentList, renderList, canonicalize_eq_render x,
      canonicalizeList_eq_render xs]

/-- `canonicalize_eq_render` for every field. -/
theorem canonicalizeFields_eq_render : ∀ ps, canonicalizeFields ps = renderFields (contentFields ps)
  | [] => rfl
  | (k, v) :: ps => by
    rw [canonicalizeFields, contentFields]
    split
    · exact canonicalizeFields_eq_render ps
    · rw [renderFields, canonicalize_eq_render v, canonicalizeFields_eq_render ps]
end

/-- A date in UTC that a clock can show, or none. -/
def isInstant : Value → Bool
  | null => true
  | datetime dt => decide (dt.offset = none) && decide (0 ≤ dt.utc) && decide (dt.utc < maxWall)
  | bool _ | int _ | float _ | str _ | oid _ | list _ | dict _ | dbRef .. => false

mutual
/-- A value whose dates stand under the name `qso_date_utc`, with nothing else under it, and which
holds no double, no object id and no `DBRef`. -/
def wellDated : Value → Bool
  | null | bool _ | int _ | str _ => true
  | float _ | oid _ | datetime _ | dbRef .. => false
  | list xs => wellDatedList xs
  | dict fields => wellDatedFields fields

/-- `wellDated` of every element. -/
def wellDatedList : List Value → Bool
  | [] => true
  | x :: xs => wellDated x && wellDatedList xs

/-- `wellDated` of every field. -/
def wellDatedFields : List (String × Value) → Bool
  | [] => true
  | (k, v) :: ps => (if k = "qso_date_utc" then isInstant v else wellDated v) && wellDatedFields ps
end

theorem isExact_render_of_isInstant {v : Value} (h : v.isInstant = true) :
    v.render.isExact = true := by
  rcases v with _ | b | n | t | s | o | dt | xs | fields | _ <;> simp [isInstant] at h
  · rfl
  · rfl

mutual
/-- The text of a well-dated value determines it. -/
theorem isExact_render : ∀ v : Value, v.wellDated = true → v.render.isExact = true
  | null, _ | bool _, _ | int _, _ | str _, _ => rfl
  | float _, h | oid _, h | datetime _, h | dbRef .., h => by simp [wellDated] at h
  | list xs, h => isExactList_render xs h
  | dict ps, h => isExactFields_render ps h

/-- `isExact_render` for every element. -/
theorem isExactList_render : ∀ xs, wellDatedList xs = true → isExactList (renderList xs) = true
  | [], _ => rfl
  | x :: xs, h => by
    rw [wellDatedList, Bool.and_eq_true] at h
    rw [renderList, isExactList, isExact_render x h.1, isExactList_render xs h.2]
    rfl

/-- `isExact_render` for every field. -/
theorem isExactFields_render : ∀ ps, wellDatedFields ps = true →
    isExactFields (renderFields ps) = true
  | [], _ => rfl
  | (k, v) :: ps, h => by
    rw [wellDatedFields, Bool.and_eq_true] at h
    have hv : v.render.isExact = true := by
      by_cases hk : k = "qso_date_utc"
      · exact isExact_render_of_isInstant (by simpa [hk] using h.1)
      · exact isExact_render v (by simpa [hk] using h.1)
    rw [renderFields, isExactFields, hv, isExactFields_render ps h.2]
    rfl
end

/-- An instant is determined by its text. -/
theorem render_inj_of_isInstant {v w : Value} (hv : v.isInstant = true) (hw : w.isInstant = true)
    (h : v.render = w.render) : v = w := by
  rcases v with _ | b | n | t | s | o | dt | xs | fields | _ <;> simp [isInstant] at hv <;>
    rcases w with _ | b | n | t | s | o | dt' | xs | fields | _ <;> simp [isInstant] at hw <;>
    simp [render] at h
  · rfl
  · obtain ⟨⟨hnone, h0⟩, hlt⟩ := hv
    obtain ⟨⟨hnone', h0'⟩, hlt'⟩ := hw
    have hutc := DateTime.utc_eq_of_canonicalText h0 hlt h0' hlt' h
    rcases dt with ⟨wall, offset⟩
    rcases dt' with ⟨wall', offset'⟩
    obtain rfl : offset = none := hnone
    obtain rfl : offset' = none := hnone'
    simp [DateTime.utc] at hutc
    rw [hutc]

mutual
/-- A well-dated value is determined by itself with its dates written. -/
theorem render_inj : ∀ v : Value, v.wellDated = true → ∀ w : Value, w.wellDated = true →
    v.render = w.render → v = w
  | null, _, w, hw, h | bool _, _, w, hw, h | int _, _, w, hw, h | str _, _, w, hw, h => by
    rcases w with _ | b | n | t | s | o | dt | ys | qs | _ <;> simp_all [render, wellDated]
  | list xs, hxs, w, hw, h => by
    rcases w with _ | b | n | t | s | o | dt | ys | qs | _ <;> simp [render, wellDated] at h hw
    rw [renderList_inj xs hxs ys hw h]
  | dict ps, hps, w, hw, h => by
    rcases w with _ | b | n | t | s | o | dt | ys | qs | _ <;> simp [render, wellDated] at h hw
    rw [renderFields_inj ps hps qs hw h]
  | float _, hv, _, _, _ | oid _, hv, _, _, _ | datetime _, hv, _, _, _ | dbRef .., hv, _, _, _ => by
    simp [wellDated] at hv

/-- `render_inj` for every element. -/
theorem renderList_inj : ∀ xs, wellDatedList xs = true → ∀ ys, wellDatedList ys = true →
    renderList xs = renderList ys → xs = ys
  | [], _, ys, _, h => by
    rcases ys with _ | ⟨y, ys⟩
    · rfl
    · simp [renderList] at h
  | x :: xs, hxs, ys, hys, h => by
    rcases ys with _ | ⟨y, ys⟩
    · simp [renderList] at h
    · rw [wellDatedList, Bool.and_eq_true] at hxs hys
      obtain ⟨hhead, htail⟩ := List.cons.inj h
      rw [render_inj x hxs.1 y hys.1 hhead, renderList_inj xs hxs.2 ys hys.2 htail]

/-- `render_inj` for every field. -/
theorem renderFields_inj : ∀ ps, wellDatedFields ps = true → ∀ qs, wellDatedFields qs = true →
    renderFields ps = renderFields qs → ps = qs
  | [], _, qs, _, h => by
    rcases qs with _ | ⟨q, qs⟩
    · rfl
    · simp [renderFields] at h
  | (k, v) :: ps, hps, qs, hqs, h => by
    rcases qs with _ | ⟨⟨l, w⟩, qs⟩
    · simp [renderFields] at h
    · rw [wellDatedFields, Bool.and_eq_true] at hps hqs
      obtain ⟨hhead, htail⟩ := List.cons.inj h
      obtain ⟨rfl, hvalue⟩ := Prod.mk.inj hhead
      have hvw : v = w := by
        by_cases hk : k = "qso_date_utc"
        · rw [if_pos hk] at hps hqs
          exact render_inj_of_isInstant hps.1 hqs.1 hvalue
        · rw [if_neg hk] at hps hqs
          exact render_inj v hps.1 w hqs.1 hvalue
      rw [hvw, renderFields_inj ps hps.2 qs hqs.2 htail]
end

theorem contentFields_eq_filterMap (ps : List (String × Value)) :
    contentFields ps = ps.filterMap fun p ↦
      (if p.1 ∈ hashExcludedFields then none else some (content p.2)).map (p.1, ·) := by
  induction ps with
  | nil => rfl
  | cons p ps ih =>
    obtain ⟨k, v⟩ := p
    rw [contentFields, List.filterMap_cons, ih]
    by_cases h : k ∈ hashExcludedFields
    · simp only [h, if_true, Option.map_none]
    · simp only [h, if_false, Option.map_some]

end Value

/-! ## Documents -/

/-- What a document says to the hash. -/
def Doc.content (d : Doc) : Value := (Value.dict d.toList).content

/-- The fields of a document that the hash looks at, with what they say. -/
def contentView (d : Doc) : Doc :=
  d.filterMap fun k v ↦ if k ∈ hashExcludedFields then none else some v.content

theorem getElem?_contentView (d : Doc) (k : String) : (contentView d)[k]? =
    if k ∈ hashExcludedFields then none else d[k]?.map Value.content := by
  rw [contentView, Std.ExtTreeMap.getElem?_filterMap']
  rcases d[k]? with _ | v <;> split <;> rfl

theorem Doc.content_eq (d : Doc) : Doc.content d = .dict (sortFields (contentView d).toList) := by
  rw [Doc.content, Value.content, Value.contentFields_eq_filterMap, contentView,
    Std.ExtTreeMap.toList_filterMap]

/-- Two documents say the same if their fields do. -/
theorem Doc.content_eq_iff {d e : Doc} : Doc.content d = Doc.content e ↔
    ∀ k, k ∉ hashExcludedFields → d[k]?.map Value.content = e[k]?.map Value.content := by
  rw [Doc.content_eq, Doc.content_eq]
  constructor
  · intro h k hk
    have hperm : (contentView d).toList.Perm (contentView e).toList :=
      (List.perm_insertionSort _ _).symm.trans
        ((List.Perm.of_eq (Value.dict.inj h)).trans (List.perm_insertionSort _ _))
    have hlookup : (contentView d)[k]? = (contentView e)[k]? := Option.ext fun v ↦ by
      rw [← Std.ExtTreeMap.mem_toList_iff_getElem?_eq_some, hperm.mem_iff,
        Std.ExtTreeMap.mem_toList_iff_getElem?_eq_some]
    rwa [getElem?_contentView, getElem?_contentView, if_neg hk, if_neg hk] at hlookup
  · intro h
    have hview : contentView d = contentView e := Std.ExtTreeMap.ext_getElem? fun k ↦ by
      rw [getElem?_contentView, getElem?_contentView]
      split
      · rfl
      · rename_i hk
        exact h k hk
    rw [hview]

/-- **The hashed text determines what a document says.**  Of documents whose dates stand under
`qso_date_utc` alone, and which hold no doubles, no object ids and no `DBRef` where the hash looks,
two have the same text just if they say the same: the same fields, those excluded apart at every
depth, in any order, with dates that are the same instant. -/
theorem canonicalPayload_inj [UnicodeData] {d e : Doc} (hd : (Doc.content d).wellDated = true)
    (he : (Doc.content e).wellDated = true) : canonicalPayload d = canonicalPayload e ↔
      ∀ k, k ∉ hashExcludedFields → d[k]?.map Value.content = e[k]?.map Value.content := by
  rw [← Doc.content_eq_iff]
  have hpayload : ∀ d : Doc, canonicalPayload d = (Doc.content d).render.jsonDumps := fun d ↦ by
    rw [canonicalPayload, Value.canonicalize_eq_render, Doc.content]
  constructor
  · intro h
    rw [hpayload, hpayload] at h
    have hrender := Value.determines_jsonDumps _ (Value.isExact_render _ hd) _
      (Value.isExact_render _ he) [] [] begins_nil begins_nil (by rw [h])
    exact Value.render_inj _ hd _ he hrender.1
  · intro h
    rw [hpayload, hpayload, h]

namespace Sample

/-- A contact as it is entered in Berlin. -/
def entered : Doc :=
  ((∅ : Doc).insert "CALL" (.str "K1ABC")).insert "qso_date_utc"
    (.datetime ⟨63866584800000000, some 3600000000⟩)

/-- The contact as it is stored. -/
def storedContact : Doc :=
  (((∅ : Doc).insert "qso_date_utc" (.datetime ⟨63866581200000000, none⟩)).insert "_id"
    (.oid ⟨1⟩)).insert "CALL" (.str "K1ABC")

end Sample

section

attribute [local instance] UnicodeData.ascii

/-- What is stored of a contact says what the contact says. -/
theorem canonicalPayload_inj_of_stored :
    canonicalPayload Sample.entered = canonicalPayload Sample.storedContact ↔
      ∀ k, k ∉ hashExcludedFields →
        Sample.entered[k]?.map Value.content = Sample.storedContact[k]?.map Value.content :=
  canonicalPayload_inj (by decide +kernel) (by decide +kernel)

end

end Ollog
