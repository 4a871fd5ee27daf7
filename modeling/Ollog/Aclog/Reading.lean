import Ollog.Aclog.Framing
import Ollog.Lib.Rescan

/-!
# Reading the answer to a sync

A manual sync asks for the settings and for the whole log, and reads lines until a list has come.
It keeps no position: after each line it looks for messages in everything received so far.  A list
ends the reading, and of the settings the last call that is not blank counts.

`readSyncResponses_eq` says that this gives the same as reading all lines first and looking once.
So neither does the number of lines a list comes in make a difference, nor that the settings are
read again after each line.
-/

set_option autoImplicit false

namespace Ollog

open OrderedDict Rescan

/-! ## The model -/

/-- What a connection brings before the time is over. -/
structure Reception where
  bytes : List UInt8
  /-- Whether the other side closes the connection then. -/
  closed : Bool
  /-- The text of the error `readline` raises if a line is too long; it depends on how much of the
  line is there. -/
  limitText : String := "Separator is not found, and chunk exceed the limit"

/-- How `_read_sync_responses` ends. -/
inductive SyncResponses where
  /-- The call of the settings, and the bytes to take the records from. -/
  | received (setupStationCall : Option String) (raw : List UInt8)
  | timedOut
  /-- `readline` raises. -/
  | lineTooLong
  deriving DecidableEq

section

variable [UnicodeData]

/-- Take over the call of a `GETUSERSETTINGSRESPONSE`. -/
def noteSetupCall (setupStationCall : Option String) (message : String) : Option String :=
  let (command, fields) := parseCmd message
  if command = some "GETUSERSETTINGSRESPONSE" then
    match fields.get "CALL" with
    | some setupCall => if strip setupCall ≠ "" then some (strip setupCall) else setupStationCall
    | none => setupStationCall
  else setupStationCall

/-- Whether a message is a `LIST` or a `LISTRESPONSE`. -/
def isListing (message : String) : Bool :=
  (parseCmd message).1 = some "LIST" ∨ (parseCmd message).1 = some "LISTRESPONSE"

/-- The loop of `_read_sync_responses`, with a bound on the number of lines. -/
def readSyncResponsesWithin (closed : Bool) :
    Nat → Option String → List UInt8 → List UInt8 → SyncResponses
  | 0, _, _, _ => .timedOut
  | fuel + 1, setupStationCall, payload, buffer =>
    match readline buffer with
    | none => .lineTooLong
    | some (line, rest) =>
      -- A line that has not ended is handed out only if the connection is closed.
      if line.getLast? ≠ some 0x0A ∧ closed = false then .timedOut
      else if line = [] then .received setupStationCall payload
      else
        match lookThrough noteSetupCall isListing setupStationCall
            (iterCmdMessages (String.ofList (decodeUtf8 (payload ++ line)))) with
        | (setupStationCall, some message) =>
          .received setupStationCall (encodeUtf8 message.toList)
        | (setupStationCall, none) =>
          readSyncResponsesWithin closed fuel setupStationCall (payload ++ line) rest

/-- `_read_sync_responses`. -/
def readSyncResponses (reception : Reception) : SyncResponses :=
  readSyncResponsesWithin reception.closed (reception.bytes.length + 1) none [] reception.bytes

end

/-! ## Reading all lines first -/

/-- Why there are no more lines. -/
inductive LinesEnd where
  | closed
  | silent
  | tooLong

/-- The lines `readline` hands out, with a bound on their number, and why there are no more. -/
def linesWithin (closed : Bool) : Nat → List UInt8 → List (List UInt8) × LinesEnd
  | 0, _ => ([], .silent)
  | fuel + 1, buffer =>
    match readline buffer with
    | none => ([], .tooLong)
    | some (line, rest) =>
      if line.getLast? ≠ some 0x0A ∧ closed = false then ([], .silent)
      else if line = [] then ([], .closed)
      else (line :: (linesWithin closed fuel rest).1, (linesWithin closed fuel rest).2)

/-- All the lines of a connection. -/
def Reception.lines (reception : Reception) : List (List UInt8) × LinesEnd :=
  linesWithin reception.closed (reception.bytes.length + 1) reception.bytes

/-- The result of a search for a list in some bytes. -/
def LinesEnd.responses (ending : LinesEnd) (payload : List UInt8) :
    Option String × Option String → SyncResponses
  | (setupStationCall, some message) => .received setupStationCall (encodeUtf8 message.toList)
  | (setupStationCall, none) =>
    match ending with
    | .closed => .received setupStationCall payload
    | .silent => .timedOut
    | .tooLong => .lineTooLong

section

variable [UnicodeData]

/-- Look for a list once, in all the lines of a connection. -/
def readAtOnce (reception : Reception) : SyncResponses :=
  reception.lines.2.responses reception.lines.1.flatten (lookThrough noteSetupCall isListing none
    (iterCmdMessages (String.ofList (decodeUtf8 reception.lines.1.flatten))))

end

/-! ## What has been found stays found -/

/-- A line feed ends the character that has begun. -/
theorem scanBytes_append_newline (bs : List UInt8) {p : Option Pending}
    (hp : ∀ q, p = some q → q.Wide) : (scanBytes p (bs ++ [0x0A])).2 = none := by
  induction bs generalizing p with
  | nil =>
    have hnewline : readByte p (0x0A : UInt8).toNat = (readBytes p [] ++ ['\n'], none) :=
      readByte_newline p hp
    rw [List.nil_append, scanBytes, hnewline]
    rfl
  | cons b bs ih =>
    rw [List.cons_append, scanBytes]
    by_cases hb : b = 0x0A
    · subst hb
      have hnewline : readByte p (0x0A : UInt8).toNat = (readBytes p [] ++ ['\n'], none) :=
        readByte_newline p hp
      rw [hnewline]
      exact ih fun q h ↦ by cases h
    · exact ih (readByte_spec hp fun h ↦ hb (UInt8.toNat_inj.1 h)).2

/-- What follows a line feed is decoded by itself. -/
theorem decodeUtf8_append_newline (bs bs' : List UInt8) :
    decodeUtf8 (bs ++ [0x0A] ++ bs') = decodeUtf8 (bs ++ [0x0A]) ++ decodeUtf8 bs' := by
  have hnone : (scanBytes none (bs ++ [0x0A])).2 = none :=
    scanBytes_append_newline bs fun q h ↦ by cases h
  have hwhole := readBytes_append none (bs ++ [0x0A]) bs'
  have hpart := readBytes_append none (bs ++ [0x0A]) []
  rw [hnone] at hwhole hpart
  rw [List.append_nil, readBytes, List.append_nil] at hpart
  rw [decodeUtf8, hwhole, decodeUtf8, hpart]
  rfl

/-- The messages in some bytes. -/
def messagesIn (payload : List UInt8) : List String :=
  (cmdMatchesWithin ((decodeUtf8 payload).length + 1) (decodeUtf8 payload)).map String.ofList

theorem cmdMatchesWithin_isPrefix {fuel fuel' : Nat} {text : List Char} (more : List Char)
    (hfuel : text.length < fuel) (hfuel' : (text ++ more).length < fuel') :
    cmdMatchesWithin fuel text <+: cmdMatchesWithin fuel' (text ++ more) := by
  induction fuel generalizing text fuel' with
  | zero => exact absurd hfuel (Nat.not_lt_zero _)
  | succ fuel ih =>
    obtain ⟨fuel', rfl⟩ : ∃ n, fuel' = n + 1 := ⟨fuel' - 1, by omega⟩
    rw [cmdMatchesWithin]
    cases hopen : splitAtFirst tagFold "<CMD>".toList text with
    | none => exact List.nil_prefix
    | some pair =>
      obtain ⟨before, rest⟩ := pair
      dsimp only
      cases hclose : splitAtFirst tagFold "</CMD>".toList rest with
      | none => exact List.nil_prefix
      | some pair =>
        obtain ⟨body, rest'⟩ := pair
        have hlength := length_of_splitAtFirst hopen
        have hlength' := length_of_splitAtFirst hclose
        rw [show "<CMD>".toList.length = 5 from rfl] at hlength
        rw [show "</CMD>".toList.length = 6 from rfl] at hlength'
        rw [List.length_append] at hfuel'
        have htaken : ((text ++ more).drop before.length).take (body.length + 11) =
            (text.drop before.length).take (body.length + 11) := by
          rw [List.drop_append_of_le_length (by omega), List.take_append_of_le_length]
          rw [List.length_drop]
          omega
        rw [cmdMatchesWithin, splitAtFirst_append_right hopen more]
        dsimp only
        rw [splitAtFirst_append_right hclose more]
        dsimp only
        rw [htaken, List.prefix_cons_inj]
        refine ih (by omega) ?_
        rw [List.length_append]
        omega

/-- The messages of a whole number of lines are still there when more is received. -/
theorem messagesIn_isPrefix {payload : List UInt8}
    (h : payload = [] ∨ payload.getLast? = some 0x0A) (more : List UInt8) :
    messagesIn payload <+: messagesIn (payload ++ more) := by
  obtain rfl | h := h
  · exact List.nil_prefix
  · obtain ⟨bs, rfl⟩ := List.getLast?_eq_some_iff.1 h
    rw [messagesIn, messagesIn, decodeUtf8_append_newline]
    exact (cmdMatchesWithin_isPrefix _ (Nat.lt_succ_self _) (Nat.lt_succ_self _)).map String.ofList

theorem readline_eq_some {buffer line rest : List UInt8} (h : readline buffer = some (line, rest)) :
    line.getLast? = some 0x0A ∧ rest.length < buffer.length ∨ line = buffer ∧ rest = [] := by
  rw [readline] at h
  split at h
  · cases h
  have hsplit := List.takeWhile_append_dropWhile (p := (· != (0x0A : UInt8))) (l := buffer)
  split at h
  · rename_i hdrop
    rw [hdrop, List.append_nil] at hsplit
    obtain ⟨rfl, rfl⟩ := Prod.mk.inj (Option.some.inj h)
    exact .inr ⟨hsplit, rfl⟩
  · rename_i newline rest' hdrop
    have hnewline : newline = 0x0A := by
      have hhead := List.head_dropWhile_not (· != (0x0A : UInt8)) (l := buffer)
        (by rw [hdrop]; exact List.cons_ne_nil _ _)
      simpa [hdrop] using hhead
    obtain ⟨rfl, rfl⟩ := Prod.mk.inj (Option.some.inj h)
    subst hnewline
    refine .inl ⟨List.getLast?_concat .., ?_⟩
    have hlength := congrArg List.length hsplit
    rw [hdrop, List.length_append, List.length_cons] at hlength
    omega

theorem linesWithin_nil (closed : Bool) (fuel : Nat) : (linesWithin closed fuel []).1 = [] := by
  cases fuel with
  | zero => rfl
  | succ fuel =>
    have hnil : readline [] = some ([], []) := rfl
    rw [linesWithin, hnil]
    dsimp only
    split <;> rfl

/-- The messages of the first lines stay where they are. -/
theorem stable_linesWithin (closed : Bool) (fuel : Nat) {payload : List UInt8}
    (h : payload = [] ∨ payload.getLast? = some 0x0A) (buffer : List UInt8) :
    Stable messagesIn payload (linesWithin closed fuel buffer).1 := by
  induction fuel generalizing payload buffer with
  | zero => exact trivial
  | succ fuel ih =>
    rw [linesWithin]
    split
    · exact trivial
    rename_i line rest hline
    split
    · exact trivial
    split
    · exact trivial
    refine ⟨messagesIn_isPrefix h line, ?_⟩
    obtain ⟨hnewline, -⟩ | ⟨-, rfl⟩ := readline_eq_some hline
    · refine ih (.inr ?_) rest
      rw [List.getLast?_append, hnewline]
      rfl
    · rw [linesWithin_nil]
      exact trivial

/-- A connection that brings one line without an end, and is closed. -/
theorem lines_of_one_line {reception : Reception} (hclosed : reception.closed = true)
    (hne : reception.bytes ≠ []) (hnewline : 0x0A ∉ reception.bytes)
    (hlength : reception.bytes.length ≤ streamLimit) :
    reception.lines = ([reception.bytes], .closed) := by
  have hall : ∀ b ∈ reception.bytes, (b != 0x0A) = true := fun b hb ↦
    bne_iff_ne.2 fun heq ↦ hnewline (heq ▸ hb)
  have hline : readline reception.bytes = some (reception.bytes, []) := by
    rw [readline, List.takeWhile_eq_self_iff.2 hall, if_neg (Nat.not_lt.2 hlength),
      List.dropWhile_eq_nil_iff.2 hall]
  have hend : ∀ fuel, 0 < fuel → linesWithin true fuel [] = ([], .closed) := by
    rintro (_ | fuel) hfuel
    · exact absurd hfuel (Nat.lt_irrefl 0)
    · rfl
  rw [Reception.lines, linesWithin, hline, hclosed]
  dsimp only
  rw [if_neg fun h ↦ absurd h.2 (by decide), if_neg hne, hend _ (List.length_pos_iff.2 hne)]

/-! ## One look is enough -/

section

variable [UnicodeData]

omit [UnicodeData] in
/-- Where there is no message, there is none in what `iter_cmd_messages` gives instead. -/
theorem parseCmd_of_no_match [UnicodeData] {data : String}
    (h : cmdMatchesWithin (data.length + 1) data.toList = []) : (parseCmd data).1 = none := by
  rw [cmdMatchesWithin] at h
  rw [parseCmd, commandAndFieldBody]
  cases hopen : splitAtFirst tagFold "<CMD>".toList data.toList with
  | none => rfl
  | some pair =>
    obtain ⟨before, rest⟩ := pair
    rw [hopen] at h
    dsimp only at h ⊢
    cases hclose : splitAtFirst tagFold "</CMD>".toList rest with
    | none => rfl
    | some pair =>
      rw [hclose] at h
      exact absurd h (List.cons_ne_nil _ _)

/-- A text without messages is passed over. -/
theorem lookThrough_iterCmdMessages (setupStationCall : Option String) (payload : List UInt8) :
    lookThrough noteSetupCall isListing setupStationCall
        (iterCmdMessages (String.ofList (decodeUtf8 payload))) =
      lookThrough noteSetupCall isListing setupStationCall (messagesIn payload) := by
  rw [messagesIn, iterCmdMessages, ← String.length_toList, String.toList_ofList]
  cases hmatches : cmdMatchesWithin ((decodeUtf8 payload).length + 1) (decodeUtf8 payload) with
  | cons message messages => rfl
  | nil =>
    dsimp only
    split
    · rfl
    · have hnone : (parseCmd (String.ofList (decodeUtf8 payload))).1 = none := by
        refine parseCmd_of_no_match ?_
        rwa [← String.length_toList, String.toList_ofList]
      rw [lookThrough, isListing, hnone, if_neg (by decide), noteSetupCall]
      rw [show parseCmd (String.ofList (decodeUtf8 payload)) = (none, _) from Prod.ext hnone rfl]
      rfl

/-- The last call of the settings. -/
def lastSetupCall (messages : List String) : Option String :=
  (messages.filterMap (noteSetupCall none)).getLast?

theorem noteSetupCall_eq (setupStationCall : Option String) (message : String) :
    noteSetupCall setupStationCall message =
      (noteSetupCall none message).or setupStationCall := by
  rw [noteSetupCall, noteSetupCall]
  dsimp only
  split
  · split
    · split <;> rfl
    · rfl
  · rfl

theorem foldl_noteSetupCall (messages : List String) :
    messages.foldl noteSetupCall none = lastSetupCall messages :=
  (foldl_eq_getLast? noteSetupCall_eq messages none).trans Option.or_none

/-- Reading with a look after each line is looking after each of the lines. -/
theorem readSyncResponsesWithin_eq (closed : Bool) (fuel : Nat) (setupStationCall : Option String)
    (payload buffer : List UInt8) :
    readSyncResponsesWithin closed fuel setupStationCall payload buffer =
      (linesWithin closed fuel buffer).2.responses
        (payload ++ (linesWithin closed fuel buffer).1.flatten)
        (rescan noteSetupCall isListing messagesIn setupStationCall payload
          (linesWithin closed fuel buffer).1) := by
  induction fuel generalizing setupStationCall payload buffer with
  | zero => rfl
  | succ fuel ih =>
    rw [readSyncResponsesWithin, linesWithin]
    cases hline : readline buffer with
    | none => rfl
    | some pair =>
      obtain ⟨line, rest⟩ := pair
      dsimp only
      split
      · rfl
      split
      · rw [rescan, LinesEnd.responses, List.flatten_nil, List.append_nil]
      rw [rescan, lookThrough_iterCmdMessages]
      cases hlook : lookThrough noteSetupCall isListing setupStationCall
          (messagesIn (payload ++ line)) with
      | mk noted found =>
        cases found with
        | some message => rfl
        | none =>
          dsimp only
          rw [ih, List.flatten_cons, List.append_assoc]

/-- **Looking for the list after each line** gives what one look at all the lines does: the first
list there is, with the last call of the settings before it. -/
theorem readSyncResponses_eq (reception : Reception) :
    readSyncResponses reception = readAtOnce reception := by
  have hstable : Stable messagesIn []
      (linesWithin reception.closed (reception.bytes.length + 1) reception.bytes).1 :=
    stable_linesWithin _ _ (.inl rfl) _
  rw [readSyncResponses, readSyncResponsesWithin_eq, readAtOnce, Reception.lines,
    lookThrough_iterCmdMessages, rescan_eq (replays_of_or noteSetupCall_eq) hstable (s := none) rfl]
  rfl

/-! ## A message by itself -/

omit [UnicodeData] in
theorem dropPattern_of_map_eq {fold : Char → Char} {pattern taken : List Char}
    (h : taken.map fold = pattern.map fold) (rest : List Char) :
    dropPattern fold pattern (taken ++ rest) = some rest := by
  induction pattern generalizing taken with
  | nil =>
    rw [List.map_nil, List.map_eq_nil_iff] at h
    rw [h]
    rfl
  | cons p ps ih =>
    cases taken with
    | nil => cases h
    | cons c cs =>
      obtain ⟨hc, hcs⟩ := List.cons.inj h
      rw [List.cons_append, dropPattern, if_pos hc.symm, ih hcs]

omit [UnicodeData] in
/-- What is behind the first occurrence of a pattern can be cut off. -/
theorem splitAtFirst_cut {fold : Char → Char} {pattern kept before cut : List Char}
    (h : splitAtFirst fold pattern (kept ++ cut) = some (before, cut)) :
    splitAtFirst fold pattern kept = some (before, []) := by
  have hlength := length_of_splitAtFirst h
  rw [List.length_append] at hlength
  induction kept generalizing before with
  | nil =>
    rw [List.length_nil] at hlength
    have hpattern : pattern = [] := List.eq_nil_of_length_eq_zero (by omega)
    have hbefore : before = [] := List.eq_nil_of_length_eq_zero (by omega)
    rw [hpattern, hbefore]
    rfl
  | cons c kept ih =>
    have hdrop : dropPattern fold pattern (c :: (kept ++ cut)) =
        (dropPattern fold pattern (c :: kept)).map (· ++ cut) :=
      @dropPattern_append_right fold pattern (c :: kept) (by omega) cut
    rw [List.cons_append, splitAtFirst, hdrop] at h
    rw [splitAtFirst]
    cases hkept : dropPattern fold pattern (c :: kept) with
    | some rest =>
      rw [hkept] at h
      obtain ⟨rfl, hrest⟩ := Prod.mk.inj (Option.some.inj h)
      rw [List.append_left_eq_self.1 hrest]
    | none =>
      rw [hkept] at h
      obtain ⟨⟨before', rest⟩, hsplit, heq⟩ := Option.map_eq_some_iff.1 h
      obtain ⟨rfl, rfl⟩ := Prod.mk.inj heq
      rw [List.length_cons, List.length_cons] at hlength
      dsimp only
      rw [ih hsplit (by omega)]
      rfl

omit [UnicodeData] in
/-- Every match of `_CMD_RE` is a complete message. -/
theorem completeMessage_of_mem {fuel : Nat} {text message : List Char}
    (h : message ∈ cmdMatchesWithin fuel text) : CompleteMessage message := by
  induction fuel generalizing text with
  | zero => exact absurd h List.not_mem_nil
  | succ fuel ih =>
    rw [cmdMatchesWithin] at h
    split at h
    · exact absurd h List.not_mem_nil
    rename_i before rest hopen
    split at h
    · exact absurd h List.not_mem_nil
    rename_i body rest' hclose
    obtain rfl | h := List.mem_cons.1 h
    swap
    · exact ih h
    obtain ⟨taken, rfl, htaken⟩ := eq_append_of_splitAtFirst hopen
    obtain ⟨taken', rfl, htaken'⟩ := eq_append_of_splitAtFirst hclose
    have hlength : taken.length = 5 := by
      simpa using congrArg List.length htaken
    have hlength' : taken'.length = 6 := by
      simpa using congrArg List.length htaken'
    have hmessage : ((before ++ (taken ++ (body ++ (taken' ++ rest')))).drop before.length).take
        (body.length + 11) = taken ++ (body ++ taken') := by
      rw [List.drop_left, ← List.append_assoc body, ← List.append_assoc taken]
      refine List.take_left' ?_
      rw [List.length_append, List.length_append]
      omega
    rw [hmessage]
    refine ⟨body ++ taken', body, ?_, ?_⟩
    · cases htake : taken with
      | nil =>
        rw [htake] at hlength
        cases hlength
      | cons c cs =>
        rw [List.cons_append, splitAtFirst, ← List.cons_append, ← htake,
          dropPattern_of_map_eq htaken]
    · rw [← List.append_assoc] at hclose
      exact splitAtFirst_cut hclose

omit [UnicodeData] in
/-- A message is found again in its own text. -/
theorem iterCmdMessages_of_mem_messagesIn {payload : List UInt8} {message : String}
    (h : message ∈ messagesIn payload) : iterCmdMessages message = [message] := by
  obtain ⟨text, htext, rfl⟩ := List.mem_map.1 h
  have hnil : IsStream [] [] := .blank fun _ h ↦ absurd h List.not_mem_nil
  have hstream := @IsStream.message [] _ _ _ (fun _ h ↦ absurd h List.not_mem_nil)
    (completeMessage_of_mem htext) hnil
  rw [List.nil_append, List.append_nil] at hstream
  exact iterCmdMessages_eq (by rwa [String.toList_ofList])

end

end Ollog
