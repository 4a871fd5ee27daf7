import Mathlib.Data.List.Chain
import Mathlib.Data.Nat.Find
import Mathlib.Order.Bounds.Basic
import Ollog.Adif.Header

/-!
# Lengths in bytes, cursors in characters

The length in a data tag counts bytes of UTF-8, and the cursor of `parse_adi` counts characters.  The
parser encodes the text behind the tag, takes the bytes, decodes them, and moves the cursor by the
length of what it has decoded.  If the bytes end inside a character, its beginning is decoded to one
replacement character, so that the cursor moves behind the whole character
(`decodeUtf8_take`, `consumes_of_mem_rounds`).

`rounds text` is the course of the loop: for each tag the cursor comes to, where the cursor stood,
what the tag says and where the cursor stands afterwards.  What `parse_adi` returns is made of what
these tags say (`parseAdi_byteLengths`).
-/

set_option autoImplicit false

namespace Ollog

/-! ## Where the bytes end -/

/-- The least number of characters that have so many bytes, or all of them if there are fewer. -/
def IsCut (rest : List Char) (byteLength k : Nat) : Prop :=
  IsLeast {n | byteLength ≤ (encodeUtf8 (rest.take n)).length ∨ rest.length ≤ n} k

/-- The bytes end between two characters, or with the text. -/
def OnBoundary (rest : List Char) (byteLength : Nat) : Prop :=
  (∃ n, (encodeUtf8 (rest.take n)).length = byteLength) ∨ (encodeUtf8 rest).length ≤ byteLength

theorem length_encodeUtf8_take_le (rest : List Char) {m n : Nat} (h : m ≤ n) :
    (encodeUtf8 (rest.take m)).length ≤ (encodeUtf8 (rest.take n)).length := by
  have hsplit : rest.take n = rest.take m ++ (rest.take n).drop m := by
    have := List.take_append_drop m (rest.take n)
    rwa [List.take_take, Nat.min_eq_left h, eq_comm] at this
  rw [hsplit, encodeUtf8_append, List.length_append]
  exact Nat.le_add_right ..

/-- **Bytes taken and decoded**: the characters up to the cut, of which the last one is replaced if
the bytes end inside it. -/
theorem decodeUtf8_take (rest : List Char) (byteLength : Nat) : ∃ k ≤ rest.length,
    IsCut rest byteLength k ∧
    (OnBoundary rest byteLength →
      decodeUtf8 ((encodeUtf8 rest).take byteLength) = rest.take k) ∧
    (¬ OnBoundary rest byteLength → 0 < k ∧
      decodeUtf8 ((encodeUtf8 rest).take byteLength) = rest.take (k - 1) ++ [replacementChar]) := by
  classical
  have hexists : ∃ n, byteLength ≤ (encodeUtf8 (rest.take n)).length ∨ rest.length ≤ n :=
    ⟨rest.length, .inr le_rfl⟩
  obtain ⟨k, hle, hcut⟩ : ∃ k ≤ rest.length, IsCut rest byteLength k :=
    ⟨Nat.find hexists, Nat.find_min' hexists (.inr le_rfl), Nat.find_spec hexists,
      fun n hn ↦ Nat.find_min' hexists hn⟩
  refine ⟨k, hle, hcut, ?_⟩
  obtain ⟨hk, hleast⟩ := hcut
  cases k with
  | zero =>
    have hempty : decodeUtf8 ((encodeUtf8 rest).take byteLength) = [] := by
      rcases hk with hk | hk
      · rw [Nat.le_zero.1 hk]
        rfl
      · rw [List.length_eq_zero_iff.1 (Nat.le_zero.1 hk), encodeUtf8_nil, List.take_nil]
        rfl
    refine ⟨fun _ ↦ hempty, fun hnot ↦ absurd ?_ hnot⟩
    rcases hk with hk | hk
    · exact .inl ⟨0, (Nat.le_zero.1 hk).symm⟩
    · right
      rw [List.length_eq_zero_iff.1 (Nat.le_zero.1 hk)]
      exact Nat.zero_le _
  | succ j =>
    have hbefore : ¬ (byteLength ≤ (encodeUtf8 (rest.take j)).length ∨ rest.length ≤ j) :=
      fun h ↦ absurd (hleast h) (Nat.not_succ_le_self j)
    rw [not_or, Nat.not_le, Nat.not_le] at hbefore
    obtain ⟨hbytes, hj⟩ := hbefore
    -- The character the bytes end in, or behind.
    have hsplit : rest = rest.take j ++ rest[j] :: rest.drop (j + 1) := by
      rw [List.getElem_cons_drop, List.take_append_drop]
    have hsucc : rest.take (j + 1) = rest.take j ++ [rest[j]] := List.take_succ_eq_append_getElem hj
    have hencode : encodeUtf8 rest = encodeUtf8 (rest.take j) ++
        (String.utf8EncodeChar rest[j] ++ encodeUtf8 (rest.drop (j + 1))) := by
      conv_lhs => rw [hsplit]
      rw [encodeUtf8_append, encodeUtf8_cons]
    have hlength : (encodeUtf8 (rest.take (j + 1))).length =
        (encodeUtf8 (rest.take j)).length + (String.utf8EncodeChar rest[j]).length := by
      rw [hsucc, encodeUtf8_append, encodeUtf8_cons, encodeUtf8_nil, List.append_nil,
        List.length_append]
    have htake : (encodeUtf8 rest).take byteLength = encodeUtf8 (rest.take j) ++
        (String.utf8EncodeChar rest[j] ++ encodeUtf8 (rest.drop (j + 1))).take
          (byteLength - (encodeUtf8 (rest.take j)).length) := by
      rw [hencode, List.take_append, List.take_of_length_le hbytes.le]
    rcases lt_trichotomy byteLength (encodeUtf8 (rest.take (j + 1))).length with hlt | heq | hgt
    · -- Inside the character.
      have hnot : ¬ OnBoundary rest byteLength := by
        rintro (⟨n, hn⟩ | hall)
        · rcases Nat.lt_or_ge j n with hjn | hjn
          · have := length_encodeUtf8_take_le rest (m := j + 1) hjn
            omega
          · have := length_encodeUtf8_take_le rest hjn
            omega
        · rw [hencode, List.length_append, List.length_append] at hall
          omega
      refine ⟨fun h ↦ absurd h hnot, fun _ ↦ ⟨Nat.succ_pos j, ?_⟩⟩
      have hcutChar : decodeUtf8 ((String.utf8EncodeChar rest[j]).take
          (byteLength - (encodeUtf8 (rest.take j)).length)) = [replacementChar] := by
        refine decodeUtf8_of_cut (List.take_append_drop _ _).symm (fun hnil ↦ ?_) fun hnil ↦ ?_
        · have := congrArg List.length hnil
          rw [List.length_take, List.length_nil] at this
          omega
        · have := congrArg List.length hnil
          rw [List.length_drop, List.length_nil] at this
          omega
      rw [htake, List.take_append_of_le_length (by omega), decodeUtf8_append, hcutChar,
        Nat.add_sub_cancel]
    · refine ⟨fun _ ↦ ?_, fun hnot ↦ absurd (.inl ⟨j + 1, heq.symm⟩) hnot⟩
      have hwhole : (String.utf8EncodeChar rest[j] ++ encodeUtf8 (rest.drop (j + 1))).take
          (byteLength - (encodeUtf8 (rest.take j)).length) = String.utf8EncodeChar rest[j] :=
        List.take_left' (by omega)
      have hchar : String.utf8EncodeChar rest[j] = encodeUtf8 [rest[j]] := by
        rw [encodeUtf8_cons, encodeUtf8_nil, List.append_nil]
      rw [htake, hwhole, hchar, ← encodeUtf8_append, ← hsucc, decodeUtf8_encodeUtf8]
    · -- There are fewer bytes than that.
      have hend : rest.length ≤ j + 1 := hk.resolve_left (Nat.not_le.2 hgt)
      have hrest : rest.take (j + 1) = rest := List.take_of_length_le hend
      rw [hrest] at hgt ⊢
      refine ⟨fun _ ↦ ?_, fun hnot ↦ absurd (.inr hgt.le) hnot⟩
      rw [List.take_of_length_le hgt.le, decodeUtf8_encodeUtf8]

/-! ## The course of the loop -/

section

variable [UnicodeData]

/-- One round of the loop: the text from the cursor on, the tag found there, the text behind the tag,
what the tag says, and the text from the new cursor on. -/
structure Round where
  cursor : List Char
  tag : List Char
  rest : List Char
  event : TagEvent
  next : List Char

/-- The round that begins at a cursor, if there is a tag. -/
def nextRound (text : List Char) : Option Round :=
  match text.dropWhile (· != '<') with
  | [] => none
  | _ :: afterLt =>
    match afterLt.dropWhile (· != '>') with
    | [] => none
    | _ :: rest =>
      let tag := afterLt.takeWhile (· != '>')
      some ⟨text, tag, rest, (readTag tag rest).1, (readTag tag rest).2⟩

/-- At most so many rounds. -/
def roundsWithin : Nat → List Char → List Round
  | 0, _ => []
  | fuel + 1, text =>
    match nextRound text with
    | none => []
    | some round => round :: roundsWithin fuel round.next

/-- The rounds of the loop of `parse_adi`. -/
def rounds (text : List Char) : List Round := roundsWithin text.length text

theorem nextTag_eq (text : List Char) :
    nextTag text = (nextRound text).map fun round ↦ (round.event, round.next) := by
  rw [nextTag, nextRound]
  cases text.dropWhile (· != '<') with
  | nil => rfl
  | cons lt afterLt =>
    dsimp only
    cases afterLt.dropWhile (· != '>') <;> rfl

/-- The tags of a text are what its rounds say. -/
theorem events_eq_map_rounds (text : List Char) : events text = (rounds text).map Round.event := by
  have hloop : ∀ fuel text, eventsWithin fuel text = (roundsWithin fuel text).map Round.event := by
    intro fuel
    induction fuel with
    | zero => exact fun _ ↦ rfl
    | succ fuel ih =>
      intro text
      rw [eventsWithin, roundsWithin, nextTag_eq]
      cases nextRound text with
      | none => rfl
      | some round => exact congrArg (round.event :: ·) (ih round.next)
  exact hloop text.length text

theorem length_roundsWithin_le (fuel : Nat) (text : List Char) :
    (roundsWithin fuel text).length ≤ fuel := by
  induction fuel generalizing text with
  | zero => exact Nat.le_refl _
  | succ fuel ih =>
    rw [roundsWithin]
    split
    · exact Nat.zero_le _
    · exact Nat.succ_le_succ (ih _)

/-- Each round begins where the one before has ended. -/
theorem isChain_roundsWithin (fuel : Nat) (text : List Char) :
    (∀ round ∈ (roundsWithin fuel text).head?, round.cursor = text) ∧
      (roundsWithin fuel text).IsChain fun round later ↦ later.cursor = round.next := by
  induction fuel generalizing text with
  | zero => exact ⟨fun _ h ↦ (nomatch h), .nil⟩
  | succ fuel ih =>
    rw [roundsWithin]
    split
    · exact ⟨fun _ h ↦ (nomatch h), .nil⟩
    rename_i round hround
    obtain ⟨hhead, hchain⟩ := ih round.next
    refine ⟨fun first hfirst ↦ ?_, hchain.cons hhead⟩
    obtain rfl := Option.some.inj hfirst
    rw [nextRound] at hround
    split at hround
    · cases hround
    split at hround
    · cases hround
    · cases hround
      rfl

/-- A round begins with the first tag behind its cursor, and acts on it as `parse_adi` does. -/
structure Round.Sound (round : Round) : Prop where
  cursor : ∃ before, '<' ∉ before ∧ '>' ∉ round.tag ∧
    round.cursor = before ++ '<' :: (round.tag ++ '>' :: round.rest)
  read : readTag round.tag round.rest = (round.event, round.next)

theorem sound_nextRound {text : List Char} {round : Round} (h : nextRound text = some round) :
    round.Sound := by
  rw [nextRound] at h
  split at h
  · cases h
  rename_i lt afterLt hlt
  split at h
  · cases h
  rename_i gt rest hgt
  cases h
  have hbefore : ∀ (stop : Char) (cs : List Char), stop ∉ cs.takeWhile (· != stop) := by
    intro stop cs hmem
    have hne := List.all_eq_true.1 List.all_takeWhile stop hmem
    rw [bne_self_eq_false] at hne
    cases hne
  have hsplit : ∀ {stop head : Char} {cs tail : List Char},
      cs.dropWhile (· != stop) = head :: tail →
      cs = cs.takeWhile (· != stop) ++ stop :: tail := by
    intro stop head cs tail hdrop
    have hhead : head = stop := by
      have hnot := List.head_dropWhile_not (· != stop) (l := cs) (by rw [hdrop]; simp)
      simpa [hdrop] using hnot
    rw [← hhead, ← hdrop, hhead, List.takeWhile_append_dropWhile]
  refine ⟨⟨text.takeWhile (· != '<'), hbefore _ _, hbefore _ _, ?_⟩, rfl⟩
  exact (hsplit hlt).trans (congrArg (fun cs ↦ text.takeWhile (· != '<') ++ '<' :: cs) (hsplit hgt))

theorem sound_of_mem_rounds {text : List Char} {round : Round} (h : round ∈ rounds text) :
    round.Sound := by
  have hloop : ∀ fuel text, ∀ round ∈ roundsWithin fuel text, round.Sound := by
    intro fuel
    induction fuel with
    | zero => exact fun _ _ h ↦ absurd h List.not_mem_nil
    | succ fuel ih =>
      intro text round h
      rw [roundsWithin] at h
      split at h
      · exact absurd h List.not_mem_nil
      rename_i first hfirst
      obtain rfl | h := List.mem_cons.1 h
      · exact sound_nextRound hfirst
      · exact ih _ _ h
  exact hloop _ _ _ h

/-! ## Data tags -/

/-- A round takes so many bytes as the value of a field: the least number of characters that have
them, whole if the bytes end between two characters, and with the last one replaced if they end
inside it. -/
def Round.Consumes (round : Round) (name : List Char) (byteLength : Nat) : Prop :=
  ∃ k ≤ round.rest.length, ∃ value : List Char, IsCut round.rest byteLength k ∧ value.length = k ∧
    (OnBoundary round.rest byteLength → value = round.rest.take k) ∧
    (¬ OnBoundary round.rest byteLength →
      value = round.rest.take (k - 1) ++ [replacementChar]) ∧
    round.event = .field (String.ofList (upperChars name)) (String.ofList value) ∧
    round.next = round.rest.drop k

/-- What a tag with a length that is not negative says. -/
theorem readTag_dataTag {tag name length : List Char} {more : List (List Char)} {byteLength : Nat}
    (hparts : splitChars ':' tag = name :: length :: more)
    (hlength : intOfText length = some (byteLength : Int)) (rest : List Char) :
    readTag tag rest = (.field (String.ofList (upperChars name))
        (String.ofList (decodeUtf8 ((encodeUtf8 rest).take byteLength))),
      rest.drop (decodeUtf8 ((encodeUtf8 rest).take byteLength)).length) := by
  have hcolon : ':' ∈ tag := by
    by_contra hno
    rw [splitChars_of_not_mem hno] at hparts
    cases hparts
  have hbytes : takeBytes byteLength (encodeUtf8 rest) = (encodeUtf8 rest).take byteLength := by
    rw [takeBytes, if_pos (Int.natCast_nonneg _), Int.toNat_natCast]
  rw [readTag, if_neg (upperChars_ne_of_colon hcolon (by decide)),
    if_neg (upperChars_ne_of_colon hcolon (by decide)), hparts]
  dsimp only
  rw [hlength]
  dsimp only
  rw [hbytes]

theorem Round.Sound.consumes {round : Round} (h : round.Sound) {name length : List Char}
    {more : List (List Char)} {byteLength : Nat}
    (hparts : splitChars ':' round.tag = name :: length :: more)
    (hlength : intOfText length = some (byteLength : Int)) : round.Consumes name byteLength := by
  obtain ⟨k, hle, hcut, hboundary, hinside⟩ := decodeUtf8_take round.rest byteLength
  have hvalue : (decodeUtf8 ((encodeUtf8 round.rest).take byteLength)).length = k := by
    by_cases h : OnBoundary round.rest byteLength
    · rw [hboundary h, List.length_take, Nat.min_eq_left hle]
    · obtain ⟨hpos, heq⟩ := hinside h
      rw [heq, List.length_append, List.length_take, List.length_singleton]
      omega
  have hread := h.read.symm.trans (readTag_dataTag hparts hlength round.rest)
  obtain ⟨hevent, hnext⟩ := Prod.mk.inj hread
  exact ⟨k, hle, _, hcut, hvalue, hboundary, fun h ↦ (hinside h).2, hevent, hvalue ▸ hnext⟩

/-- The cursor of `parse_adi` only moves forward. -/
theorem Round.Sound.moves {round : Round} (h : round.Sound) :
    round.next <:+ round.cursor ∧ round.next.length < round.cursor.length := by
  have hread : ∀ tag rest, (readTag tag rest).2 <:+ rest := by
    intro tag rest
    rw [readTag]
    split
    · exact List.suffix_rfl
    split
    · exact List.suffix_rfl
    split
    · split
      · exact List.suffix_rfl
      · exact List.drop_suffix ..
    · exact List.suffix_rfl
  have hnext : round.next <:+ round.rest := by
    have hsuffix := hread round.tag round.rest
    rwa [h.read] at hsuffix
  obtain ⟨before, -, -, hcursor⟩ := h.cursor
  have hrest : round.rest <:+ round.cursor := by
    rw [hcursor]
    exact ⟨before ++ '<' :: (round.tag ++ ['>']), by simp⟩
  refine ⟨hnext.trans hrest, Nat.lt_of_le_of_lt hnext.length_le ?_⟩
  rw [hcursor, List.length_append, List.length_cons, List.length_append, List.length_cons]
  omega

/-! ## What is returned -/

omit [UnicodeData] in
/-- Every value of a record has been read in a field. -/
theorem exists_field_of_mem_foldl {events : List TagEvent} {s : ParseState} {record : Record}
    (hrecord : record ∈ (events.foldl ParseState.apply s).records) {name value : String}
    (hvalue : record[name]? = some value) (hrecords : s.records = [])
    (hcurrent : s.currentRecord = ∅) : .field name value ∈ events := by
  -- The fields of all records, finished or not, are among the fields that have been read.
  have hall : ∀ (events : List TagEvent) (s : ParseState) (read : List TagEvent),
      (∀ record ∈ s.currentRecord :: s.records, ∀ (name value : String),
        record[name]? = some value → TagEvent.field name value ∈ read) →
      ∀ record ∈ (events.foldl ParseState.apply s).records, ∀ (name value : String),
        record[name]? = some value → TagEvent.field name value ∈ read ++ events := by
    intro events
    induction events with
    | nil =>
      intro s read h record hrecord name value hvalue
      rw [List.append_nil]
      exact h record (List.mem_cons_of_mem _ hrecord) name value hvalue
    | cons event events ih =>
      intro s read h record hrecord name value hvalue
      rw [List.append_cons]
      refine ih (s.apply event) (read ++ [event]) (fun e he j v hv ↦ ?_) record hrecord name value
        hvalue
      have hread : ∀ e ∈ s.currentRecord :: s.records, e[j]? = some v →
          TagEvent.field j v ∈ read ++ [event] := fun e he hv ↦
        List.mem_append_left _ (h e he j v hv)
      unfold ParseState.apply at he
      split at he
      · exact hread e he hv
      · split at he
        · rcases List.mem_cons.1 he with rfl | he
          · simp at hv
          · refine hread e ?_ hv
            rcases List.mem_append.1 he with he | he
            · exact List.mem_cons_of_mem _ he
            · exact List.mem_cons.2 (.inl (List.mem_singleton.1 he))
        · exact hread e he hv
      · split at he
        · exact hread e he hv
        · rcases List.mem_cons.1 he with rfl | he
          · rw [Std.ExtTreeMap.getElem?_insert] at hv
            split at hv
            · rename_i heq
              obtain rfl := Std.compare_eq_iff_eq.1 heq
              obtain rfl := Option.some.inj hv
              exact List.mem_append_right _ (List.mem_singleton_self _)
            · exact hread _ (List.mem_cons_self ..) hv
          · exact hread e (List.mem_cons_of_mem _ he) hv
      · split at he <;> exact hread e he hv
      · exact hread e he hv
  refine hall events s [] (fun e he j v hv ↦ ?_) record hrecord name value hvalue
  rw [hrecords, hcurrent, List.mem_singleton] at he
  rw [he] at hv
  simp at hv

/-- **Lengths in bytes are consumed as characters.**  What `parse_adi` returns is what the rounds of
its loop say, taken together; every value of a returned record has been read in one of them.  The
rounds follow each other through the text, each moves the cursor forward, and one with a data tag
whose length is not negative takes the least number of characters that have so many bytes, whole if
the bytes end between two characters, and with the last one replaced if they end inside it. -/
theorem parseAdi_byteLengths (text : List Char) :
    (∃ final : ParseState, ((rounds text).map Round.event).foldl ParseState.apply
        { inHeader := decide (headerMarker <:+: upperChars text) } = final ∧
      parseAdi text = (final.records, final.errors)) ∧
    (∀ record ∈ (parseAdi text).1, ∀ (name value : String), record[name]? = some value →
      ∃ round ∈ rounds text, round.event = .field name value) ∧
    (rounds text).length ≤ text.length ∧
    (∀ round ∈ (rounds text).head?, round.cursor = text) ∧
    ((rounds text).IsChain fun round later ↦ later.cursor = round.next) ∧
    ∀ round ∈ rounds text, round.Sound ∧
      round.next <:+ round.cursor ∧ round.next.length < round.cursor.length ∧
      ∀ (name length : List Char) (more : List (List Char)) (byteLength : Nat),
        splitChars ':' round.tag = name :: length :: more →
        intOfText length = some (byteLength : Int) → round.Consumes name byteLength := by
  have hparse : parseAdi text = ((((rounds text).map Round.event).foldl ParseState.apply
      { inHeader := decide (headerMarker <:+: upperChars text) }).records,
      (((rounds text).map Round.event).foldl ParseState.apply
        { inHeader := decide (headerMarker <:+: upperChars text) }).errors) := by
    rw [← events_eq_map_rounds, parseAdi, parse_eq_foldl]
    rfl
  obtain ⟨hhead, hchain⟩ := isChain_roundsWithin text.length text
  refine ⟨⟨_, rfl, hparse⟩, fun record hrecord name value hvalue ↦ ?_,
    length_roundsWithin_le _ _, hhead, hchain, fun round hround ↦ ?_⟩
  · rw [hparse] at hrecord
    exact List.mem_map.1 (exists_field_of_mem_foldl hrecord hvalue rfl rfl)
  · have hsound := sound_of_mem_rounds hround
    exact ⟨hsound, hsound.moves.1, hsound.moves.2,
      fun name length more byteLength hparts hlength ↦ hsound.consumes hparts hlength⟩

end

end Ollog
