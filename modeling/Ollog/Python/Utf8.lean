import Ollog.Python.Text

/-!
# UTF-8

`encodeUtf8` is `text.encode("utf-8")` and `decodeUtf8` is `raw.decode("utf-8", errors="replace")`,
an automaton that reads one byte at a time.  Where the bytes are not well formed it puts one
replacement character for each maximal piece that could have been the beginning of a character,
which is what CPython does.

On well-formed input there is nothing to replace: `decodeUtf8_append` says that the bytes of a
text decode to that text, whatever follows them.
-/

set_option autoImplicit false

namespace Ollog

/-- `text.encode("utf-8")`. -/
def encodeUtf8 (cs : List Char) : List UInt8 := cs.flatMap String.utf8EncodeChar

@[simp] theorem encodeUtf8_nil : encodeUtf8 [] = [] := rfl

@[simp] theorem encodeUtf8_cons (c : Char) (cs : List Char) :
    encodeUtf8 (c :: cs) = String.utf8EncodeChar c ++ encodeUtf8 cs := List.flatMap_cons

@[simp] theorem encodeUtf8_append (cs ds : List Char) :
    encodeUtf8 (cs ++ ds) = encodeUtf8 cs ++ encodeUtf8 ds := List.flatMap_append

/-! ## Decoding -/

/-- A character that has begun. -/
structure Pending where
  /-- How many bytes are missing. -/
  need : Nat
  /-- The bits read so far. -/
  bits : Nat
  /-- The smallest and the largest byte that may come next. -/
  lo : Nat
  hi : Nat

/-- What follows a U+FFFD for bytes that are not UTF-8. -/
def replacementChar : Char := Char.ofNat 0xFFFD

/-- Read the first byte of a character. -/
def leadByte (b : Nat) : List Char × Option Pending :=
  if b < 0x80 then ([Char.ofNat b], none)
  else if b < 0xC2 then ([replacementChar], none)
  else if b < 0xE0 then ([], some ⟨1, b - 0xC0, 0x80, 0xBF⟩)
  else if b < 0xF0 then
    ([], some ⟨2, b - 0xE0, if b = 0xE0 then 0xA0 else 0x80, if b = 0xED then 0x9F else 0xBF⟩)
  else if b < 0xF5 then
    ([], some ⟨3, b - 0xF0, if b = 0xF0 then 0x90 else 0x80, if b = 0xF4 then 0x8F else 0xBF⟩)
  else ([replacementChar], none)

/-- Read one byte: the characters it completes, and the character it leaves unfinished. -/
def readByte (p : Option Pending) (b : Nat) : List Char × Option Pending :=
  match p with
  | none => leadByte b
  | some p =>
    if p.lo ≤ b ∧ b ≤ p.hi then
      let bits := p.bits * 64 + (b - 0x80)
      if p.need ≤ 1 then ([Char.ofNat bits], none) else ([], some ⟨p.need - 1, bits, 0x80, 0xBF⟩)
    else
      -- The byte does not belong to the character that has begun, so it starts the next one.
      let (cs, q) := leadByte b
      (replacementChar :: cs, q)

/-- Read the remaining bytes. -/
def readBytes : Option Pending → List UInt8 → List Char
  | none, [] => []
  | some _, [] => [replacementChar]
  | p, b :: bs =>
    let (cs, q) := readByte p b.toNat
    cs ++ readBytes q bs

/-- `raw.decode("utf-8", errors="replace")`. -/
def decodeUtf8 (raw : List UInt8) : List Char := readBytes none raw

/-! ## Decoding what was encoded -/

theorem readBytes_cons (p : Option Pending) (b : UInt8) (bs : List UInt8) :
    readBytes p (b :: bs) = (readByte p b.toNat).1 ++ readBytes (readByte p b.toNat).2 bs := by
  cases p <;> rfl

/-- A continuation byte of a character that needs more than that. -/
theorem readByte_more {need bits lo hi b : Nat} (hneed : 1 < need) (hlo : lo ≤ b) (hhi : b ≤ hi) :
    readByte (some ⟨need, bits, lo, hi⟩) b =
      ([], some ⟨need - 1, bits * 64 + (b - 0x80), 0x80, 0xBF⟩) := by
  simp only [readByte, hlo, hhi, and_self, if_true, Nat.not_le.2 hneed, if_false]

/-- The last byte of a character. -/
theorem readByte_last {bits lo hi b : Nat} (hlo : lo ≤ b) (hhi : b ≤ hi) :
    readByte (some ⟨1, bits, lo, hi⟩) b = ([Char.ofNat (bits * 64 + (b - 0x80))], none) := by
  simp only [readByte, hlo, hhi, and_self, if_true, Nat.le_refl]

theorem toNat_ofNat_of_lt {n : Nat} (h : n < 256) : (UInt8.ofNat n).toNat = n := by
  rw [UInt8.toNat_ofNat', Nat.mod_eq_of_lt h]

/-- The bytes of one character are read as that character. -/
theorem readBytes_utf8EncodeChar (c : Char) (bs : List UInt8) :
    readBytes none (String.utf8EncodeChar c ++ bs) = c :: readBytes none bs := by
  have hvalid : c.val.toNat < 0xD800 ∨ 0xDFFF < c.val.toNat ∧ c.val.toNat < 0x110000 := c.valid
  have hc : Char.ofNat c.val.toNat = c := Char.ofNat_toNat c
  unfold String.utf8EncodeChar
  generalize c.val.toNat = v at hvalid hc
  dsimp only
  split
  · rw [List.cons_append, List.nil_append, readBytes_cons, toNat_ofNat_of_lt (by omega), readByte,
      leadByte, if_pos (by omega), hc]
    rfl
  split
  · have hlead : leadByte (v / 64 % 32 + 0xC0) = ([], some ⟨1, v / 64, 0x80, 0xBF⟩) := by
      have hmod : v / 64 % 32 = v / 64 := by omega
      rw [hmod, leadByte, if_neg (by omega), if_neg (by omega), if_pos (by omega),
        Nat.add_sub_cancel]
    have hbits : v / 64 * 64 + (v % 64 + 0x80 - 0x80) = v := by omega
    rw [List.cons_append, List.cons_append, List.nil_append, readBytes_cons, readBytes_cons,
      toNat_ofNat_of_lt (by omega), toNat_ofNat_of_lt (by omega), readByte, hlead,
      readByte_last (by omega) (by omega), hbits, hc]
    rfl
  split
  · have hlead : leadByte (v / 4096 % 16 + 0xE0) = ([], some ⟨2, v / 4096,
        if v / 4096 = 0 then 0xA0 else 0x80, if v / 4096 = 0xD then 0x9F else 0xBF⟩) := by
      rw [leadByte, if_neg (by omega), if_neg (by omega), if_neg (by omega), if_pos (by omega)]
      have hmod : v / 4096 % 16 = v / 4096 := by omega
      rw [hmod, Nat.add_sub_cancel]
      congr 4 <;> rw [eq_iff_iff] <;> omega
    have hlo : (if v / 4096 = 0 then 0xA0 else 0x80) ≤ v / 64 % 64 + 0x80 := by
      split <;> omega
    have hhi : v / 64 % 64 + 0x80 ≤ if v / 4096 = 0xD then 0x9F else 0xBF := by
      split <;> omega
    have hbits : (v / 4096 * 64 + (v / 64 % 64 + 0x80 - 0x80)) * 64 + (v % 64 + 0x80 - 0x80) = v := by
      omega
    rw [List.cons_append, List.cons_append, List.cons_append, List.nil_append, readBytes_cons,
      readBytes_cons, readBytes_cons, toNat_ofNat_of_lt (by omega), toNat_ofNat_of_lt (by omega),
      toNat_ofNat_of_lt (by omega), readByte, hlead, readByte_more (by omega) hlo hhi,
      readByte_last (by omega) (by omega), hbits, hc]
    rfl
  · have hlead : leadByte (v / 262144 % 8 + 0xF0) = ([], some ⟨3, v / 262144,
        if v / 262144 = 0 then 0x90 else 0x80, if v / 262144 = 4 then 0x8F else 0xBF⟩) := by
      rw [leadByte, if_neg (by omega), if_neg (by omega), if_neg (by omega), if_neg (by omega),
        if_pos (by omega)]
      have hmod : v / 262144 % 8 = v / 262144 := by omega
      rw [hmod, Nat.add_sub_cancel]
      congr 4 <;> rw [eq_iff_iff] <;> omega
    have hlo : (if v / 262144 = 0 then 0x90 else 0x80) ≤ v / 4096 % 64 + 0x80 := by
      split <;> omega
    have hhi : v / 4096 % 64 + 0x80 ≤ if v / 262144 = 4 then 0x8F else 0xBF := by
      split <;> omega
    have hbits : ((v / 262144 * 64 + (v / 4096 % 64 + 0x80 - 0x80)) * 64 +
        (v / 64 % 64 + 0x80 - 0x80)) * 64 + (v % 64 + 0x80 - 0x80) = v := by
      omega
    rw [List.cons_append, List.cons_append, List.cons_append, List.cons_append, List.nil_append,
      readBytes_cons, readBytes_cons, readBytes_cons, readBytes_cons,
      toNat_ofNat_of_lt (by omega), toNat_ofNat_of_lt (by omega), toNat_ofNat_of_lt (by omega),
      toNat_ofNat_of_lt (by omega), readByte, hlead, readByte_more (by omega) hlo hhi,
      readByte_more (by omega) (by omega) (by omega), readByte_last (by omega) (by omega), hbits, hc]
    rfl

/-- **The bytes of a text decode to that text**, whatever follows them. -/
theorem decodeUtf8_append (cs : List Char) (bs : List UInt8) :
    decodeUtf8 (encodeUtf8 cs ++ bs) = cs ++ decodeUtf8 bs := by
  induction cs with
  | nil => rfl
  | cons c cs ih =>
    rw [encodeUtf8_cons, List.append_assoc, decodeUtf8, readBytes_utf8EncodeChar]
    exact congrArg (c :: ·) ih

@[simp] theorem decodeUtf8_encodeUtf8 (cs : List Char) : decodeUtf8 (encodeUtf8 cs) = cs := by
  have h := decodeUtf8_append cs []
  rw [List.append_nil] at h
  exact h.trans (List.append_nil cs)

/-! ## A character cut short -/

/-- What reading some bytes completes, and what it leaves unfinished. -/
def scanBytes : Option Pending → List UInt8 → List Char × Option Pending
  | p, [] => ([], p)
  | p, b :: bs =>
    let (cs, q) := readByte p b.toNat
    let (ds, r) := scanBytes q bs
    (cs ++ ds, r)

theorem readBytes_append (p : Option Pending) (bs bs' : List UInt8) :
    readBytes p (bs ++ bs') = (scanBytes p bs).1 ++ readBytes (scanBytes p bs).2 bs' := by
  induction bs generalizing p with
  | nil => rfl
  | cons b bs ih =>
    rw [List.cons_append, readBytes_cons, ih, scanBytes, List.append_assoc]

/-- A byte completes a character or leaves one unfinished. -/
theorem readByte_ne (p : Option Pending) (b : Nat) : readByte p b ≠ ([], none) := by
  have hlead : leadByte b ≠ ([], none) := by
    unfold leadByte
    split_ifs <;> exact fun h ↦ nomatch h
  unfold readByte
  split
  · exact hlead
  split
  · dsimp only
    split <;> exact fun h ↦ nomatch h
  · exact fun h ↦ nomatch (Prod.mk.inj h).1

/-- Only from nothing nothing is read. -/
theorem readBytes_ne_nil {p : Option Pending} {bs : List UInt8} (h : p ≠ none ∨ bs ≠ []) :
    readBytes p bs ≠ [] := by
  induction bs generalizing p with
  | nil =>
    cases p with
    | none => exact absurd rfl (h.resolve_right fun hne ↦ hne rfl)
    | some p => exact List.cons_ne_nil _ _
  | cons b bs ih =>
    rw [readBytes_cons]
    intro hnil
    obtain ⟨hcs, hrest⟩ := List.append_eq_nil_iff.1 hnil
    refine readByte_ne p b.toNat (Prod.ext hcs ?_)
    by_contra hne
    exact ih (.inl hne) hrest

/-- **The beginning of a character** is decoded to one replacement character. -/
theorem decodeUtf8_of_cut {c : Char} {front back : List UInt8}
    (h : String.utf8EncodeChar c = front ++ back) (hfront : front ≠ []) (hback : back ≠ []) :
    decodeUtf8 front = [replacementChar] := by
  have hwhole : [c] = (scanBytes none front).1 ++ readBytes (scanBytes none front).2 back := by
    have hc := readBytes_utf8EncodeChar c []
    rw [List.append_nil, h, readBytes_append] at hc
    exact hc.symm
  have hpart : decodeUtf8 front = (scanBytes none front).1 ++ readBytes (scanBytes none front).2 [] := by
    rw [decodeUtf8, ← readBytes_append, List.append_nil]
  -- The rest of the bytes complete the character, so the beginning does not.
  have hnil : (scanBytes none front).1 = [] := by
    cases hcs : (scanBytes none front).1 with
    | nil => rfl
    | cons d ds =>
      rw [hcs, List.cons_append, List.cons.injEq] at hwhole
      exact absurd (List.append_eq_nil_iff.1 hwhole.2.symm).2 (readBytes_ne_nil (.inr hback))
  rw [hnil, List.nil_append] at hpart
  have hne : decodeUtf8 front ≠ [] := readBytes_ne_nil (.inr hfront)
  rw [hpart] at hne ⊢
  cases hp : (scanBytes none front).2 with
  | none =>
    rw [hp] at hne
    exact absurd rfl hne
  | some p => rfl

/-! ## Lines -/

/-- The pieces of a stream between its line feeds. -/
def byteLines : List UInt8 → List (List UInt8)
  | [] => [[]]
  | b :: bs =>
    if b = 0x0A then [] :: byteLines bs
    else match byteLines bs with
      | [] => [[b]]
      | line :: lines => (b :: line) :: lines

/-- A character that has begun is none of the first 128. -/
structure Pending.Wide (p : Pending) : Prop where
  need_pos : 0 < p.need
  le_lo : 0x80 ≤ p.lo
  wide : 0x80 ≤ 64 ^ p.need * p.bits + 64 ^ (p.need - 1) * (p.lo - 0x80)

theorem newline_of_ofNat {n : Nat} (h : Char.ofNat n = '\n') : n = 10 := by
  have hval := congrArg Char.toNat h
  unfold Char.ofNat at hval
  by_cases hvalid : n.isValidChar
  · rw [dif_pos hvalid] at hval
    exact hval
  · rw [dif_neg hvalid] at hval
    exact absurd hval (by decide)

theorem leadByte_spec {b : Nat} (hb : b ≠ 10) : '\n' ∉ (leadByte b).1 ∧
    ∀ q, (leadByte b).2 = some q → q.Wide := by
  have hrepl : '\n' ∉ [replacementChar] := by decide
  unfold leadByte
  split
  · refine ⟨fun h ↦ hb (newline_of_ofNat (List.mem_singleton.1 h).symm), fun q h ↦ nomatch h⟩
  split
  · exact ⟨hrepl, fun q h ↦ nomatch h⟩
  split
  · refine ⟨List.not_mem_nil, fun q h ↦ ?_⟩
    cases h
    exact ⟨Nat.succ_pos _, le_rfl, by dsimp only; omega⟩
  split
  · refine ⟨List.not_mem_nil, fun q h ↦ ?_⟩
    cases h
    refine ⟨Nat.succ_pos _, ?_, ?_⟩ <;> dsimp only <;> split <;> omega
  split
  · refine ⟨List.not_mem_nil, fun q h ↦ ?_⟩
    cases h
    refine ⟨Nat.succ_pos _, ?_, ?_⟩ <;> dsimp only <;> split <;> omega
  · exact ⟨hrepl, fun q h ↦ nomatch h⟩

/-- Only the byte of a line feed is read as one. -/
theorem readByte_spec {p : Option Pending} (hp : ∀ q, p = some q → q.Wide) {b : Nat} (hb : b ≠ 10) :
    '\n' ∉ (readByte p b).1 ∧ ∀ q, (readByte p b).2 = some q → q.Wide := by
  cases p with
  | none => exact leadByte_spec hb
  | some p =>
    obtain ⟨hneed, hlo, hwide⟩ := hp p rfl
    rw [readByte]
    split
    · rename_i hrange
      dsimp only
      split
      · rename_i hlast
        have hone : p.need = 1 := by omega
        rw [hone] at hwide
        refine ⟨fun h ↦ ?_, fun q h ↦ nomatch h⟩
        have hten := newline_of_ofNat (List.mem_singleton.1 h).symm
        omega
      · rename_i hmore
        refine ⟨List.not_mem_nil, fun q h ↦ ?_⟩
        cases h
        refine ⟨by dsimp only; omega, le_rfl, ?_⟩
        dsimp only
        obtain ⟨n, hn⟩ : ∃ n, p.need = n + 1 := ⟨p.need - 1, by omega⟩
        rw [hn, Nat.add_sub_cancel] at hwide ⊢
        calc 0x80 ≤ 64 ^ (n + 1) * p.bits + 64 ^ n * (p.lo - 0x80) := hwide
          _ ≤ 64 ^ (n + 1) * p.bits + 64 ^ n * (b - 0x80) :=
            Nat.add_le_add_left (Nat.mul_le_mul_left _ (Nat.sub_le_sub_right hrange.1 _)) _
          _ = 64 ^ n * (p.bits * 64 + (b - 0x80)) := by
            rw [Nat.pow_succ, Nat.mul_add, Nat.mul_assoc, Nat.mul_comm 64]
          _ ≤ _ := Nat.le_add_right _ _
    · dsimp only
      obtain ⟨hlead, hpending⟩ := leadByte_spec hb
      exact ⟨fun h ↦ (List.mem_cons.1 h).elim (by decide) hlead, hpending⟩

theorem readBytes_nil (p : Option Pending) : '\n' ∉ readBytes p [] := by
  cases p with
  | none => exact List.not_mem_nil
  | some p => exact (by decide : '\n' ∉ [replacementChar])

/-- A line feed ends the character that has begun. -/
theorem readByte_newline (p : Option Pending) (hp : ∀ q, p = some q → q.Wide) :
    readByte p 10 = (readBytes p [] ++ ['\n'], none) := by
  cases p with
  | none => rfl
  | some p =>
    have hlo := (hp p rfl).le_lo
    rw [readByte, if_neg fun h ↦ by omega]
    rfl

theorem readBytes_append_newline (bs : List UInt8) {p : Option Pending}
    (hp : ∀ q, p = some q → q.Wide) : readBytes p (bs ++ [0x0A]) = readBytes p bs ++ ['\n'] := by
  induction bs generalizing p with
  | nil =>
    have hnewline : readByte p (0x0A : UInt8).toNat = (readBytes p [] ++ ['\n'], none) :=
      readByte_newline p hp
    rw [List.nil_append, readBytes_cons, hnewline]
    exact List.append_nil _
  | cons b bs ih =>
    rw [List.cons_append, readBytes_cons, readBytes_cons]
    by_cases hb : b = 0x0A
    · subst hb
      have hnewline : readByte p (0x0A : UInt8).toNat = (readBytes p [] ++ ['\n'], none) :=
        readByte_newline p hp
      have hrest : readBytes none (bs ++ [0x0A]) = readBytes none bs ++ ['\n'] :=
        ih fun q h ↦ nomatch h
      rw [hnewline]
      dsimp only
      rw [hrest, List.append_assoc _ (readBytes none bs)]
    · have hb' : b.toNat ≠ 10 := fun h ↦ hb (UInt8.toNat_inj.1 h)
      rw [ih (readByte_spec hp hb').2, List.append_assoc]

/-- **Decoding line by line** is decoding the whole. -/
theorem splitChars_readBytes (bs : List UInt8) {p : Option Pending} (hp : ∀ q, p = some q → q.Wide) :
    ∃ line lines, byteLines bs = line :: lines ∧
      splitChars '\n' (readBytes p bs) = readBytes p line :: lines.map decodeUtf8 := by
  induction bs generalizing p with
  | nil => exact ⟨[], [], rfl, splitChars_of_not_mem (readBytes_nil p)⟩
  | cons b bs ih =>
    rw [readBytes_cons, byteLines]
    by_cases hb : b = 0x0A
    · subst hb
      obtain ⟨line, lines, hlines, hsplit⟩ := ih (p := none) fun q h ↦ nomatch h
      rw [if_pos rfl]
      refine ⟨[], byteLines bs, rfl, ?_⟩
      have hnewline : readByte p (0x0A : UInt8).toNat = (readBytes p [] ++ ['\n'], none) :=
        readByte_newline p hp
      rw [hnewline, List.append_assoc, List.singleton_append,
        splitChars_append_cons (readBytes_nil p), hsplit, hlines]
      rfl
    · have hb' : b.toNat ≠ 10 := fun h ↦ hb (UInt8.toNat_inj.1 h)
      obtain ⟨hplain, hq⟩ := readByte_spec hp hb'
      obtain ⟨line, lines, hlines, hsplit⟩ := ih hq
      rw [if_neg hb, hlines]
      refine ⟨b :: line, lines, rfl, ?_⟩
      rw [readBytes_cons, splitChars_append hplain hsplit]

theorem splitChars_decodeUtf8 (bs : List UInt8) :
    splitChars '\n' (decodeUtf8 bs) = (byteLines bs).map decodeUtf8 := by
  obtain ⟨line, lines, hlines, hsplit⟩ := splitChars_readBytes bs (p := none) fun q h ↦ nomatch h
  rw [hlines]
  exact hsplit

end Ollog
