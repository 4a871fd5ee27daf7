import Ollog.Aclog.Client
import Ollog.Aclog.Markup
import Ollog.Python.Utf8

/-!
# Messages and lines

The bridge reads a line at a time and looks for messages in each line by itself, while a manual sync
collects the lines and looks for messages in all of them.  A message that goes over a line end is
therefore seen by the sync and not by the bridge, and so is everything behind a line that is too long
for the reader.  `liveMessages_eq_iff` says that there is no other difference.
-/

set_option autoImplicit false

namespace Ollog

/-! ## Reading lines -/

/-- The limit of a stream reader, in bytes. -/
def streamLimit : Nat := 65536

/-- `reader.readline()` on everything that will be received: the line and what is behind it, or
nothing if the line is too long and the reader raises. -/
def readline (buffer : List UInt8) : Option (List UInt8 × List UInt8) :=
  let line := buffer.takeWhile (· != 0x0A)
  if streamLimit < line.length then none
  else
    match buffer.dropWhile (· != 0x0A) with
    | [] => some (line, [])
    | newline :: rest => some (line ++ [newline], rest)

/-- The messages the loop of `run_aclog_bridge` hands to `_handle_message`, with a bound on the
number of lines. -/
def liveMessagesWithin : Nat → List UInt8 → List String
  | 0, _ => []
  | fuel + 1, buffer =>
    match readline buffer with
    | none => []
    | some ([], _) => []
    | some (raw, rest) =>
      iterCmdMessages (strip (String.ofList (decodeUtf8 raw))) ++ liveMessagesWithin fuel rest

/-- The messages the loop of `run_aclog_bridge` hands to `_handle_message` on one connection. -/
def liveMessages (stream : List UInt8) : List String :=
  liveMessagesWithin (stream.length + 1) stream

/-- A line the reader takes. -/
def shortLine (line : List UInt8) : Bool := line.length ≤ streamLimit

/-- The messages of a line. -/
def lineMessages (line : List UInt8) : List String :=
  iterCmdMessages (strip (String.ofList (decodeUtf8 line)))

theorem lineMessages_append_newline (line : List UInt8) :
    lineMessages (line ++ [0x0A]) = lineMessages line := by
  have hdecode : decodeUtf8 (line ++ [0x0A]) = decodeUtf8 line ++ ['\n'] :=
    readBytes_append_newline line fun q h ↦ nomatch h
  rw [lineMessages, lineMessages, strip, strip, String.toList_ofList, String.toList_ofList, hdecode,
    stripChars_append_space (by decide)]

theorem byteLines_cases (buffer : List UInt8) : byteLines buffer =
    buffer.takeWhile (· != 0x0A) :: match buffer.dropWhile (· != 0x0A) with
      | [] => []
      | _ :: rest => byteLines rest := by
  induction buffer with
  | nil => rfl
  | cons b bs ih =>
    rw [byteLines]
    by_cases hb : b = 0x0A
    · subst hb
      rfl
    · have hne : (b != 0x0A) = true := by rwa [bne_iff_ne]
      rw [if_neg hb, ih, List.takeWhile_cons, List.dropWhile_cons]
      simp only [hne, if_true]

/-- **What the bridge sees** are the messages of the lines, each by itself, up to a line that is too
long. -/
theorem liveMessages_eq (stream : List UInt8) :
    liveMessages stream = ((byteLines stream).takeWhile shortLine).flatMap lineMessages := by
  have hfuel : ∀ fuel buffer, buffer.length < fuel → liveMessagesWithin fuel buffer =
      ((byteLines buffer).takeWhile shortLine).flatMap lineMessages := by
    intro fuel
    induction fuel with
    | zero => exact fun _ h ↦ absurd h (Nat.not_lt_zero _)
    | succ fuel ih =>
      intro buffer hlength
      rw [liveMessagesWithin, readline, byteLines_cases]
      by_cases hlong : streamLimit < (buffer.takeWhile (· != 0x0A)).length
      · rw [if_pos hlong, List.takeWhile_cons_of_neg]
        · rfl
        · rw [shortLine, decide_eq_true_eq]
          exact Nat.not_le.2 hlong
      · have hshort : shortLine (buffer.takeWhile (· != 0x0A)) = true :=
          decide_eq_true (Nat.not_lt.1 hlong)
        rw [if_neg hlong, List.takeWhile_cons_of_pos hshort, List.flatMap_cons]
        cases hdrop : buffer.dropWhile (· != 0x0A) with
        | nil =>
          dsimp only
          have hempty : liveMessagesWithin fuel [] = [] := by
            cases fuel <;> rfl
          cases hline : buffer.takeWhile (· != 0x0A) with
          | nil => rfl
          | cons b bs =>
            dsimp only
            rw [hempty]
            rfl
        | cons newline rest =>
          have hnewline : newline = 0x0A := by
            have hhead := List.head_dropWhile_not (· != (0x0A : UInt8)) (l := buffer)
              (by rw [hdrop]; exact List.cons_ne_nil _ _)
            simpa [hdrop] using hhead
          have hle := (List.dropWhile_suffix (· != (0x0A : UInt8)) (l := buffer)).length_le
          rw [hdrop, List.length_cons] at hle
          subst hnewline
          have hmessages := lineMessages_append_newline (buffer.takeWhile (· != 0x0A))
          rw [lineMessages] at hmessages
          cases hraw : buffer.takeWhile (· != 0x0A) ++ [(0x0A : UInt8)] with
          | nil => exact absurd hraw (by simp)
          | cons b bs =>
            dsimp only
            rw [hraw]
            dsimp only
            rw [← hraw, hmessages, ih rest (by omega)]
  exact hfuel _ _ (Nat.lt_succ_self _)

/-! ## Streams of complete messages -/

/-- Nothing but white space. -/
def Blank (text : List Char) : Prop := ∀ c ∈ text, isSpace c = true

/-- `<CMD>…</CMD>`, in any letter case. -/
def CompleteMessage (message : List Char) : Prop :=
  ∃ rest body, splitAtFirst tagFold "<CMD>".toList message = some ([], rest) ∧
    splitAtFirst tagFold "</CMD>".toList rest = some (body, [])

/-- A text of complete messages with white space before, between and after them. -/
inductive IsStream : List Char → List (List Char) → Prop
  | blank {text : List Char} (h : Blank text) : IsStream text []
  | message {space message text : List Char} {messages : List (List Char)} (hspace : Blank space)
      (hmessage : CompleteMessage message) (h : IsStream text messages) :
      IsStream (space ++ (message ++ text)) (message :: messages)

theorem lt_not_mem_of_blank {text : List Char} (h : Blank text) : '<' ∉ text := fun hmem ↦
  absurd (h '<' hmem) (by decide)

/-- A message begins with `<` and ends with `>`. -/
theorem CompleteMessage.exists_inner {message : List Char} (h : CompleteMessage message) :
    ∃ inner, message = '<' :: (inner ++ ['>']) := by
  obtain ⟨rest, body, hopen, hclose⟩ := h
  obtain ⟨taken, rfl, htaken⟩ := eq_append_of_splitAtFirst hopen
  obtain ⟨taken', rfl, htaken'⟩ := eq_append_of_splitAtFirst hclose
  have hgt : ∀ c, tagFold '>' = tagFold c → c = '>' := by
    intro c hc
    obtain hcase | hcase := tagFold_cases c
    · exact hcase.symm.trans hc.symm
    · rw [← hc] at hcase
      exact absurd hcase (by decide)
  cases taken with
  | nil => cases htaken
  | cons c cs =>
    obtain rfl := markupFold_tagFold.lt c (List.cons.inj htaken).1.symm
    obtain ⟨ds, d, rfl⟩ := List.eq_nil_or_concat' taken' |>.resolve_left (by
      rintro rfl
      cases htaken')
    have hlast : tagFold d = tagFold '>' := by
      have h := congrArg List.getLast? htaken'
      rw [List.map_append, List.map_singleton, List.getLast?_append_of_ne_nil _ (by simp)] at h
      exact Option.some.inj h
    obtain rfl := hgt d hlast.symm
    exact ⟨cs ++ (body ++ ds), by simp⟩

/-- **The messages of a stream** are what the regular expression finds. -/
theorem cmdMatchesWithin_eq {text : List Char} {messages : List (List Char)}
    (h : IsStream text messages) {fuel : Nat} (hfuel : text.length < fuel) :
    cmdMatchesWithin fuel text = messages := by
  induction h generalizing fuel with
  | @blank text h =>
    have hnone : splitAtFirst tagFold "<CMD>".toList text = none := by
      have htext := splitAtFirst_text markupFold_tagFold (lt_not_mem_of_blank h) "CMD>".toList []
      rwa [List.append_nil] at htext
    obtain ⟨fuel, rfl⟩ := Nat.exists_eq_add_of_lt hfuel
    rw [cmdMatchesWithin, hnone]
  | @message space message text messages hspace hmessage h ih =>
    obtain ⟨rest, body, hopen, hclose⟩ := hmessage
    obtain ⟨fuel, rfl⟩ := Nat.exists_eq_add_of_lt hfuel
    have hlength : message.length = body.length + 11 := by
      have hopening := length_of_splitAtFirst hopen
      have hclosing := length_of_splitAtFirst hclose
      simp at hopening hclosing
      omega
    have hopen' : splitAtFirst tagFold "<CMD>".toList (space ++ (message ++ text)) =
        some (space, rest ++ text) := by
      have htext := splitAtFirst_text markupFold_tagFold (lt_not_mem_of_blank hspace)
        "CMD>".toList (message ++ text)
      refine htext.trans ?_
      have happend := splitAtFirst_append_right hopen text
      rw [show '<' :: "CMD>".toList = "<CMD>".toList from rfl, happend]
      exact congrArg some (Prod.ext (List.append_nil _) rfl)
    have hmatched : ((space ++ (message ++ text)).drop space.length).take (body.length + 11) =
        message := by
      rw [List.drop_left, ← hlength, List.take_left]
    rw [cmdMatchesWithin, hopen']
    dsimp only
    rw [splitAtFirst_append_right hclose text]
    dsimp only
    rw [hmatched, List.nil_append, ih]
    rw [List.length_append, List.length_append, hlength]
    omega

theorem IsStream.blank_of_nil {text : List Char} (h : IsStream text []) : Blank text := by
  cases h with
  | blank h => exact h

theorem stripChars_blank {text : List Char} (h : Blank text) : stripChars text = [] := by
  have hdrop : text.dropWhile isSpace = [] := List.dropWhile_eq_nil_iff.2 h
  rw [stripChars, hdrop]
  rfl

/-- What `iter_cmd_messages` gives for a stream. -/
theorem iterCmdMessages_eq {data : String} {messages : List (List Char)}
    (h : IsStream data.toList messages) : iterCmdMessages data = messages.map String.ofList := by
  have hmatches : cmdMatchesWithin (data.length + 1) data.toList = messages :=
    cmdMatchesWithin_eq h (Nat.lt_succ_of_le (le_of_eq String.length_toList))
  rw [iterCmdMessages, hmatches]
  cases messages with
  | cons message messages => rfl
  | nil =>
    have hstrip : strip data = "" := by
      rw [strip, stripChars_blank h.blank_of_nil]
    exact if_pos hstrip

/-- Stripping a stream leaves its messages. -/
theorem IsStream.stripChars {text : List Char} {messages : List (List Char)}
    (h : IsStream text messages) : IsStream (stripChars text) messages := by
  have hleft : IsStream (text.dropWhile isSpace) messages := by
    cases h with
    | blank h => exact .blank fun c hc ↦ h c ((List.dropWhile_suffix isSpace).subset hc)
    | @message space message text messages hspace hmessage h =>
      obtain ⟨inner, hinner⟩ := hmessage.exists_inner
      have hdrop : (message ++ text).dropWhile isSpace = message ++ text := by
        rw [hinner]
        exact List.dropWhile_cons_of_neg (by decide)
      rw [List.dropWhile_append_of_pos hspace, hdrop]
      exact @IsStream.message [] _ _ _ (fun _ h ↦ absurd h List.not_mem_nil) hmessage h
  have hright : ∀ {text messages}, IsStream text messages →
      IsStream (text.reverse.dropWhile isSpace).reverse messages := by
    intro text messages h
    induction h with
    | blank h =>
      refine .blank fun c hc ↦ h c ?_
      exact List.mem_reverse.1 ((List.dropWhile_suffix isSpace).subset (List.mem_reverse.1 hc))
    | @message space message text messages hspace hmessage h ih =>
      obtain ⟨inner, hinner⟩ := hmessage.exists_inner
      have hend : (message.reverse ++ space.reverse).dropWhile isSpace =
          message.reverse ++ space.reverse := by
        rw [hinner, List.reverse_cons, List.reverse_append]
        exact List.dropWhile_cons_of_neg (by decide)
      rw [List.reverse_append, List.reverse_append, List.append_assoc, List.dropWhile_append]
      split
      · rename_i hempty
        rw [List.isEmpty_iff.1 hempty] at ih
        have hstream := IsStream.message hspace hmessage ih
        rw [hend]
        simpa using hstream
      · have hstream := IsStream.message hspace hmessage ih
        simpa using hstream
  exact hright hleft

theorem lineMessages_eq {line : List UInt8} {messages : List (List Char)}
    (h : IsStream (decodeUtf8 line) messages) : lineMessages line = messages.map String.ofList := by
  refine iterCmdMessages_eq ?_
  rw [strip, String.toList_ofList, String.toList_ofList]
  exact h.stripChars

/-! ## Streams and their lines -/

theorem IsStream.cons_space {c : Char} (hc : isSpace c = true) {text : List Char}
    {messages : List (List Char)} (h : IsStream text messages) : IsStream (c :: text) messages := by
  cases h with
  | blank h => exact .blank (List.forall_mem_cons.2 ⟨hc, h⟩)
  | message hspace hmessage h =>
    exact @IsStream.message (c :: _) _ _ _ (List.forall_mem_cons.2 ⟨hc, hspace⟩) hmessage h

/-- The lines of a text are streams, and their messages are those of the text. -/
def InLines (text : List Char) (messages : List (List Char)) : Prop :=
  ∃ parts, List.Forall₂ IsStream (splitChars '\n' text) parts ∧ parts.flatten = messages

theorem InLines.append_space {space : List Char} (hspace : Blank space) {text : List Char}
    {messages : List (List Char)} (h : InLines text messages) : InLines (space ++ text) messages := by
  induction space with
  | nil => exact h
  | cons c space ih =>
    obtain ⟨hc, hspace⟩ := List.forall_mem_cons.1 hspace
    obtain ⟨parts, hparts, hflat⟩ := ih hspace
    rw [List.cons_append, InLines, splitChars]
    split
    · exact ⟨[] :: parts, .cons (.blank fun _ h ↦ absurd h List.not_mem_nil) hparts, hflat⟩
    · cases hlines : splitChars '\n' (space ++ text) with
      | nil => exact absurd hlines (splitChars_ne_nil _ _)
      | cons line lines =>
        rw [hlines] at hparts
        cases hparts with
        | cons hline hlines => exact ⟨_ :: _, .cons (hline.cons_space hc) hlines, hflat⟩

/-- **A stream whose messages stay on their lines** is read line by line. -/
theorem inLines_of_isStream {text : List Char} {messages : List (List Char)}
    (h : IsStream text messages) (hlines : ∀ message ∈ messages, '\n' ∉ message) :
    InLines text messages := by
  induction h with
  | @blank text h =>
    have hnil : InLines [] [] :=
      ⟨[[]], .cons (.blank fun _ h ↦ absurd h List.not_mem_nil) .nil, rfl⟩
    have htext := hnil.append_space h
    rwa [List.append_nil] at htext
  | @message space message text messages hspace hmessage h ih =>
    obtain ⟨hmessage', hlines⟩ := List.forall_mem_cons.1 hlines
    obtain ⟨parts, hparts, hflat⟩ := ih hlines
    refine InLines.append_space hspace ?_
    cases hsplit : splitChars '\n' text with
    | nil => exact absurd hsplit (splitChars_ne_nil _ _)
    | cons line lines =>
      rw [hsplit] at hparts
      rw [InLines, splitChars_append hmessage' hsplit]
      cases hparts with
      | @cons _ part _ parts hline hlines =>
        refine ⟨(message :: part) :: parts, .cons ?_ hlines, ?_⟩
        · exact @IsStream.message [] _ _ _ (fun _ h ↦ absurd h List.not_mem_nil) hmessage hline
        · rw [List.flatten_cons, List.cons_append, ← hflat, List.flatten_cons]

theorem lineMessages_of_forall₂ {lines : List (List UInt8)} {parts : List (List (List Char))}
    (h : List.Forall₂ (fun line part ↦ IsStream (decodeUtf8 line) part) lines parts) :
    (∀ line ∈ lines, ∃ part, IsStream (decodeUtf8 line) part) ∧
      lines.flatMap lineMessages = parts.flatten.map String.ofList := by
  induction h with
  | nil => exact ⟨fun _ h ↦ absurd h List.not_mem_nil, rfl⟩
  | @cons line part lines parts hline _ ih =>
    refine ⟨List.forall_mem_cons.2 ⟨⟨part, hline⟩, ih.1⟩, ?_⟩
    rw [List.flatMap_cons, List.flatten_cons, List.map_append, lineMessages_eq hline, ih.2]

/-! ## What is lost -/

/-- A message has no other characters than the data it is found in. -/
theorem mem_of_mem_iterCmdMessages {data message : String} (h : message ∈ iterCmdMessages data)
    {c : Char} (hc : c ∈ message.toList) : c ∈ data.toList := by
  have hmatches : ∀ fuel text, ∀ m ∈ cmdMatchesWithin fuel text, ∀ c ∈ m, c ∈ text := by
    intro fuel
    induction fuel with
    | zero => exact fun _ _ h ↦ absurd h List.not_mem_nil
    | succ fuel ih =>
      intro text m hm c hc
      rw [cmdMatchesWithin] at hm
      split at hm
      · exact absurd hm List.not_mem_nil
      rename_i before rest hopen
      split at hm
      · exact absurd hm List.not_mem_nil
      rename_i body rest' hclose
      obtain rfl | hm := List.mem_cons.1 hm
      · exact List.mem_of_mem_drop (List.mem_of_mem_take hc)
      · have hrest := ih _ m hm c hc
        obtain ⟨taken, rfl, -⟩ := eq_append_of_splitAtFirst hopen
        obtain ⟨taken', rfl, -⟩ := eq_append_of_splitAtFirst hclose
        simp [hrest]
  rw [iterCmdMessages] at h
  split at h
  · split at h
    · exact absurd h List.not_mem_nil
    · rwa [← List.mem_singleton.1 h]
  · obtain ⟨m, hm, rfl⟩ := List.mem_map.1 h
    rw [String.toList_ofList] at hc
    exact hmatches _ _ m hm c hc

/-- The bridge never sees a line feed. -/
theorem newline_not_mem_of_mem_liveMessages {stream : List UInt8} {message : String}
    (h : message ∈ liveMessages stream) : '\n' ∉ message.toList := by
  rw [liveMessages_eq] at h
  obtain ⟨line, hline, h⟩ := List.mem_flatMap.1 h
  have hsplit : decodeUtf8 line ∈ splitChars '\n' (decodeUtf8 stream) := by
    rw [splitChars_decodeUtf8]
    exact List.mem_map_of_mem ((List.takeWhile_prefix _).subset hline)
  intro hc
  have hstripped := mem_of_mem_iterCmdMessages h hc
  rw [strip, String.toList_ofList, String.toList_ofList, stripChars, List.mem_reverse] at hstripped
  have hline := List.mem_reverse.1 ((List.dropWhile_suffix isSpace).subset hstripped)
  exact not_mem_of_mem_splitChars hsplit ((List.dropWhile_suffix isSpace).subset hline)

/-- **Reading line by line sees every message** of a stream if and only if no message goes over the
end of a line, and there is nothing but white space from the first line on that is too long. -/
theorem liveMessages_eq_iff {stream : List UInt8} {messages : List (List Char)}
    (h : IsStream (decodeUtf8 stream) messages) :
    liveMessages stream = iterCmdMessages (String.ofList (decodeUtf8 stream)) ↔
      (∀ message ∈ messages, '\n' ∉ message) ∧
      ∀ line ∈ (byteLines stream).dropWhile shortLine, Blank (decodeUtf8 line) := by
  have hall : iterCmdMessages (String.ofList (decodeUtf8 stream)) = messages.map String.ofList :=
    iterCmdMessages_eq (by rwa [String.toList_ofList])
  -- With no line feed in a message, the messages of the lines are those of the stream.
  have hlines : (∀ message ∈ messages, '\n' ∉ message) →
      (∀ line ∈ byteLines stream, ∃ part, IsStream (decodeUtf8 line) part) ∧
      (byteLines stream).flatMap lineMessages = messages.map String.ofList := by
    intro hplain
    obtain ⟨parts, hparts, hflat⟩ := inLines_of_isStream h hplain
    rw [splitChars_decodeUtf8, List.forall₂_map_left_iff] at hparts
    rw [← hflat]
    exact lineMessages_of_forall₂ hparts
  have hsplit : (byteLines stream).flatMap lineMessages =
      ((byteLines stream).takeWhile shortLine).flatMap lineMessages ++
        ((byteLines stream).dropWhile shortLine).flatMap lineMessages := by
    rw [← List.flatMap_append, List.takeWhile_append_dropWhile]
  rw [hall]
  constructor
  · intro heq
    have hplain : ∀ message ∈ messages, '\n' ∉ message := by
      intro message hmem
      have hlive : String.ofList message ∈ liveMessages stream := heq ▸ List.mem_map_of_mem hmem
      have hnewline := newline_not_mem_of_mem_liveMessages hlive
      rwa [String.toList_ofList] at hnewline
    obtain ⟨hstreams, hflat⟩ := hlines hplain
    refine ⟨hplain, fun line hline ↦ ?_⟩
    rw [hsplit, ← heq, liveMessages_eq] at hflat
    have hnone := List.flatMap_eq_nil_iff.1 (List.append_right_eq_self.1 hflat) line hline
    obtain ⟨part, hpart⟩ := hstreams line ((List.dropWhile_suffix _).subset hline)
    rw [lineMessages_eq hpart, List.map_eq_nil_iff] at hnone
    subst hnone
    exact hpart.blank_of_nil
  · rintro ⟨hplain, hblank⟩
    have hnone : ((byteLines stream).dropWhile shortLine).flatMap lineMessages = [] :=
      List.flatMap_eq_nil_iff.2 fun line hline ↦ lineMessages_eq (.blank (hblank line hline))
    rw [← (hlines hplain).2, hsplit, hnone, List.append_nil, liveMessages_eq]

/-- A message on two lines. -/
def brokenMessage : List Char := "<CMD><READBMF>\n</CMD>".toList

theorem isStream_brokenMessage :
    IsStream (decodeUtf8 (encodeUtf8 brokenMessage)) [brokenMessage] := by
  have hmessage : CompleteMessage brokenMessage :=
    ⟨"<READBMF>\n</CMD>".toList, "<READBMF>\n".toList, by decide, by decide⟩
  have hnil : IsStream [] [] := .blank fun _ h ↦ absurd h List.not_mem_nil
  have hstream := @IsStream.message [] _ _ _ (fun _ h ↦ absurd h List.not_mem_nil) hmessage hnil
  rw [List.nil_append, List.append_nil] at hstream
  rwa [decodeUtf8_encodeUtf8]

/-- The bridge does not see that message. -/
theorem liveMessages_brokenMessage_ne :
    IsStream (decodeUtf8 (encodeUtf8 brokenMessage)) [brokenMessage] ∧
      liveMessages (encodeUtf8 brokenMessage) ≠
        iterCmdMessages (String.ofList (decodeUtf8 (encodeUtf8 brokenMessage))) := by
  refine ⟨isStream_brokenMessage, fun heq ↦ ?_⟩
  rw [iterCmdMessages_eq (by rw [String.toList_ofList]; exact isStream_brokenMessage)] at heq
  have hlive : String.ofList brokenMessage ∈ liveMessages (encodeUtf8 brokenMessage) :=
    heq ▸ List.mem_singleton_self _
  have hnewline := newline_not_mem_of_mem_liveMessages hlive
  rw [String.toList_ofList] at hnewline
  exact hnewline (by decide)

/-- A message on a line of its own is seen. -/
theorem liveMessages_oneLine :
    liveMessages (encodeUtf8 "<CMD><READBMF></CMD>\n".toList) =
      iterCmdMessages (String.ofList
        (decodeUtf8 (encodeUtf8 "<CMD><READBMF></CMD>\n".toList))) := by
  have hmessage : CompleteMessage "<CMD><READBMF></CMD>".toList :=
    ⟨"<READBMF></CMD>".toList, "<READBMF>".toList, by decide, by decide⟩
  have hspace : Blank ['\n'] := List.forall_mem_singleton.2 (by decide)
  have hstream : IsStream (decodeUtf8 (encodeUtf8 "<CMD><READBMF></CMD>\n".toList))
      ["<CMD><READBMF></CMD>".toList] := by
    rw [decodeUtf8_encodeUtf8]
    exact @IsStream.message [] _ _ _ (fun _ h ↦ absurd h List.not_mem_nil) hmessage (.blank hspace)
  have hlines : (byteLines (encodeUtf8 "<CMD><READBMF></CMD>\n".toList)).dropWhile shortLine =
      [] := by decide +kernel
  refine (liveMessages_eq_iff hstream).2 ⟨by decide, ?_⟩
  rw [hlines]
  exact fun _ h ↦ absurd h List.not_mem_nil

end Ollog
