import Ollog.Aclog.Client

/-!
# Where a report comes from

The reports and the numbered fields of a contact come from its event, from its full record, or from
the text boxes ACLog has told the bridge about.  The documentation says that the values of the text
boxes are kept until the next event.  They are kept until the box changes.

For every contact that is handed over, `Handover` takes the messages before it apart: what came
before its event, the event, and what came between the event and the response.  `lastUpdate` is what
the cache holds, read off the messages.
-/

set_option autoImplicit false

namespace Ollog

open Effects OrderedDict

section

variable [UnicodeData]

/-! ## Taking the messages apart -/

/-- The messages before the last event, that event, and the messages behind it. -/
def splitAtEvent : List String → Option (List String × String × List String)
  | [] => none
  | m :: ms =>
    match splitAtEvent ms with
    | some (before, event, between) => some (m :: before, event, between)
    | none => if isEnterevent m then some ([], m, ms) else none

/-- The messages since the last event, or all of them if there was none. -/
def sinceEvent (messages : List String) : List String :=
  match splitAtEvent messages with
  | some (_, _, between) => between
  | none => messages

theorem splitAtEvent_append (messages : List String) (m : String) :
    splitAtEvent (messages ++ [m]) =
      if isEnterevent m then some (messages, m, [])
      else (splitAtEvent messages).map fun (before, event, between) ↦
        (before, event, between ++ [m]) := by
  induction messages with
  | nil => rfl
  | cons m' ms ih =>
    rw [List.cons_append, splitAtEvent, ih, splitAtEvent]
    by_cases hm : isEnterevent m = true
    · rw [if_pos hm, if_pos hm]
    · rw [if_neg hm, if_neg hm]
      cases splitAtEvent ms with
      | some parts => rfl
      | none =>
        dsimp only [Option.map_none]
        split <;> rfl

theorem splitAtEvent_spec {messages before between : List String} {event : String}
    (h : splitAtEvent messages = some (before, event, between)) :
    messages = before ++ event :: between ∧ isEnterevent event = true ∧
      ∀ m ∈ between, isEnterevent m = false := by
  induction messages using List.reverseRecOn generalizing between with
  | nil => cases h
  | append_singleton messages m ih =>
    rw [splitAtEvent_append] at h
    by_cases hm : isEnterevent m = true
    · rw [if_pos hm] at h
      cases h
      exact ⟨rfl, hm, fun _ h ↦ absurd h List.not_mem_nil⟩
    · rw [if_neg hm] at h
      obtain ⟨⟨before', event', between'⟩, hsplit, heq⟩ := Option.map_eq_some_iff.1 h
      cases heq
      obtain ⟨rfl, hevent, hbetween⟩ := ih hsplit
      refine ⟨by simp, hevent, fun m' hm' ↦ ?_⟩
      obtain hm' | hm' := List.mem_append.1 hm'
      · exact hbetween m' hm'
      · rw [List.mem_singleton.1 hm', ← Bool.not_eq_true]
        exact hm

theorem bridgeAfter_append (messages : List String) (m : String) :
    bridgeAfter (messages ++ [m]) = (bridgeAfter messages).step m := by
  rw [bridgeAfter, run_append]
  rfl

/-- **What is pending** is what the last event was made into, with the cache as it was then. -/
theorem pending_bridgeAfter {messages : List String} {pending : Fields}
    (h : (bridgeAfter messages).pending = some pending) : ∃ before event between,
      splitAtEvent messages = some (before, event, between) ∧
      pending = aclogEntereventToAdif (parseCmd event).2 (bridgeAfter before).state := by
  induction messages using List.reverseRecOn with
  | nil => cases h
  | append_singleton messages m ih =>
    rw [bridgeAfter_append] at h
    rw [splitAtEvent_append]
    by_cases hm : isEnterevent m = true
    · rw [pending_step_of_event hm] at h
      rw [if_pos hm]
      exact ⟨messages, m, [], rfl, (Option.some.inj h).symm⟩
    · rw [pending_step_of_not_event (Bool.not_eq_true _ ▸ hm)] at h
      rw [if_neg hm]
      split at h
      · cases h
      · obtain ⟨before, event, between, hsplit, hpending⟩ := ih h
        exact ⟨before, event, between ++ [m], by rw [hsplit]; rfl, hpending⟩

/-! ## The text boxes -/

/-- The fields a contact takes over from the text boxes, other than the frequency. -/
def boxFields : List String :=
  ["RST_SENT", "RST_RCVD", "OTHER_1", "OTHER_2", "OTHER_3", "OTHER_4", "OTHER_5", "OTHER_6",
    "OTHER_7", "OTHER_8"]

/-- What a message says a text box holds. -/
def boxUpdate (k : String) (message : String) : Option String :=
  let (command, fields) := parseCmd message
  if command = some "UPDATERESPONSE" ∧
      controlField (upper (strip ((fields.get "CONTROL").getD ""))) = some k then
    some (strip ((fields.get "VALUE").getD ""))
  else none

/-- What the last message about a text box says. -/
def lastUpdate (k : String) (messages : List String) : Option String :=
  messages.reverse.findSome? (boxUpdate k)

omit [UnicodeData] in
/-- A text that is not empty. -/
def nonEmpty (value : Option String) : Option String := value.filter (· ≠ "")

omit [UnicodeData] in
theorem get_setOrPop (state : Fields) (key value k : String) :
    (setOrPop state key value).get k = if k = key then nonEmpty (some value) else state.get k := by
  rw [setOrPop]
  by_cases hvalue : value = ""
  · rw [if_pos hvalue, get_erase, hvalue]
    rfl
  · have hkept : nonEmpty (some value) = some value := by
      rw [nonEmpty, Option.filter_some, if_pos (by simpa using hvalue)]
    rw [if_neg hvalue, get_set, hkept]

theorem get_state_step (bridge : Bridge) (message : String) {k : String} (hk : k ∈ boxFields) :
    (bridge.step message).state.get k =
      match boxUpdate k message with
      | some value => nonEmpty (some value)
      | none => bridge.state.get k := by
  have hnames : ∀ k ∈ boxFields, k ∉ ["BAND", "MODE", "FREQ"] ∧ k ≠ "ACLOG_SETUP_CALL" := by
    decide
  obtain ⟨hbands, hsetup⟩ := hnames k hk
  rw [state_step, updateStateFromMessage, boxUpdate]
  dsimp only
  split
  · rename_i hcommand
    have hframe : ∀ key ∈ ["BAND", "MODE", "FREQ"], ∀ state : Fields,
        (copyNamed (parseCmd message).2 state (key, key)).get k = state.get k := by
      intro key hkey state
      rw [copyNamed]
      split
      · rfl
      split
      · rfl
      · rw [get_set, if_neg]
        rintro rfl
        exact hbands hkey
    rw [if_neg fun h ↦ by rw [hcommand] at h; exact absurd h.1 (by decide)]
    exact get_foldl_of_frame hframe bridge.state
  split
  · rename_i hcommand
    rw [get_setOrPop, if_neg hsetup,
      if_neg fun h ↦ by rw [hcommand] at h; exact absurd h.1 (by decide)]
  split
  · rename_i hcommand
    simp only [hcommand, true_and]
    cases controlField (upper (strip (((parseCmd message).2.get "CONTROL").getD ""))) with
    | none => rfl
    | some dest =>
      dsimp only
      rw [get_setOrPop]
      by_cases hdest : k = dest
      · rw [if_pos hdest, if_pos (congrArg some hdest.symm)]
      · rw [if_neg hdest, if_neg fun h ↦ hdest (Option.some.inj h).symm]
  · rename_i hcommand
    rw [if_neg fun h ↦ hcommand h.1]

/-- **The cache**, read off the messages. -/
theorem get_state_bridgeAfter (messages : List String) {k : String} (hk : k ∈ boxFields) :
    (bridgeAfter messages).state.get k = nonEmpty (lastUpdate k messages) := by
  induction messages using List.reverseRecOn with
  | nil => rfl
  | append_singleton messages m ih =>
    rw [bridgeAfter_append, get_state_step _ _ hk, lastUpdate, List.reverse_append,
      List.reverse_singleton, List.singleton_append, List.findSome?_cons]
    cases boxUpdate k m with
    | some value => rfl
    | none => exact ih

/-! ## What an event is made into -/

omit [UnicodeData] in
theorem get_fillIn (d : Fields) (item : String × String) (k : String) : (fillIn d item).get k =
    (d.get k).or (if item.1 = k then nonEmpty (some item.2) else none) := by
  rw [fillIn, nonEmpty, Option.filter_some]
  by_cases hk : item.1 = k
  · subst hk
    cases hd : d.get item.1 with
    | some v => simp only [Option.isNone_some, Bool.false_eq_true, false_and, if_false, hd,
        Option.some_or]
    | none =>
      by_cases hv : item.2 = "" <;>
        simp [hv, hd]
  · rw [if_neg hk, Option.or_none]
    split
    · rw [get_set, if_neg fun h ↦ hk h.symm]
    · rfl

omit [UnicodeData] in
/-- Of the items that could fill in a field, the first one does. -/
theorem get_foldl_fillIn (items : List (String × String)) (d : Fields) (k : String) :
    (items.foldl fillIn d).get k = (d.get k).or
      (items.findSome? fun item ↦ if item.1 = k then nonEmpty (some item.2) else none) := by
  induction items generalizing d with
  | nil => rw [List.findSome?_nil, Option.or_none, List.foldl_nil]
  | cons item items ih =>
    rw [List.foldl_cons, ih, get_fillIn, List.findSome?_cons, Option.or_assoc]
    refine congrArg _ ?_
    cases (if item.1 = k then nonEmpty (some item.2) else none) with
    | some v => rfl
    | none => rw [Option.none_or]

omit [UnicodeData] in
/-- In a dictionary there is at most one. -/
theorem findSome?_of_distinct {d : Fields} (hd : d.Distinct) (k : String) :
    (d.findSome? fun item ↦ if item.1 = k then nonEmpty (some item.2) else none) =
      nonEmpty (d.get k) := by
  induction d with
  | nil => rfl
  | cons item d ih =>
    obtain ⟨hhead, htail⟩ := List.pairwise_cons.1 hd
    rw [List.findSome?_cons, get_cons]
    by_cases hk : item.1 = k
    · have hnone : OrderedDict.get d k = none :=
        get_eq_none_iff.2 fun item' hitem' heq ↦ hhead item' hitem' (hk.trans heq.symm)
      rw [if_pos hk, if_pos hk, ih htail, hnone]
      cases nonEmpty (some item.2) <;> rfl
    · rw [if_neg hk, if_neg hk]
      exact ih htail

/-- What a field of an event that is not among the named ones is worth for a key. -/
def otherValue (k : String) (item : String × String) : Option String :=
  if upper (strip item.1) = k ∧ item.2 ≠ "" then some (strip item.2) else none

/-- A key the loop over the fields of an event may set. -/
theorem get_copyOther (d : Fields) (item : String × String) {k : String} (hk : k ∈ boxFields) :
    (copyOther d item).get k = (d.get k).or (otherValue k item) := by
  have hnames : ∀ k ∈ boxFields, k ∉ entereventSkipFields ∧ k ≠ "RSTS" ∧ k ≠ "RSTR" ∧
      isAdifName k = true := by decide
  obtain ⟨hskip, hsent, hrcvd, hname⟩ := hnames k hk
  rw [copyOther, otherValue]
  by_cases hkey : upper (strip item.1) = k
  · rw [hkey]
    cases hd : d.get k with
    | some v =>
      rw [if_pos (.inr (by rfl)), hd, Option.some_or]
    | none =>
      rw [if_neg (by simp [hskip]), if_neg (not_or.2 ⟨hsent, hrcvd⟩), Option.none_or]
      by_cases hv : item.2 = ""
      · rw [if_neg (by simp [hv]), if_neg (by simp [hv]), hd]
      · rw [if_pos ⟨hv, hname⟩, if_pos ⟨rfl, hv⟩, get_set, if_pos rfl]
  · have hother : (if upper (strip item.1) = k ∧ item.2 ≠ "" then some (strip item.2) else none) =
        none := if_neg fun h ↦ hkey h.1
    rw [hother, Option.or_none]
    split
    · rfl
    split
    · rfl
    split
    · rw [get_set, if_neg fun h ↦ hkey h.symm]
    · rfl

theorem get_foldl_copyOther (items : List (String × String)) (d : Fields) {k : String}
    (hk : k ∈ boxFields) : (items.foldl copyOther d).get k =
      (d.get k).or (items.findSome? (otherValue k)) := by
  induction items generalizing d with
  | nil => rw [List.findSome?_nil, Option.or_none, List.foldl_nil]
  | cons item items ih =>
    rw [List.foldl_cons, ih, get_copyOther d item hk, List.findSome?_cons, Option.or_assoc]
    refine congrArg _ ?_
    cases otherValue k item with
    | some v => rfl
    | none => rw [Option.none_or]

omit [UnicodeData] in
theorem get_setBand_of_ne (d : Fields) (value : Option String) [UnicodeData] {k : String}
    (hk : k ≠ "BAND") : (setBand d value).get k = d.get k := by
  rw [setBand]
  split
  · rfl
  · rw [get_set, if_neg hk]

/-- What an event says of itself. -/
def eventRecord (event : String) : Fields := aclogEntereventToAdif (parseCmd event).2 []

/-- The named fields of an event. -/
def namedFields (fields : Fields) : Fields := entereventNames.foldl (copyNamed fields) []

omit [UnicodeData] in
theorem isSome_foldl_copyNamed {fields : Fields} {names : List (String × String)} {j k v : String}
    (hmem : (j, k) ∈ names) (hv : fields.get j = some v) (hne : v ≠ "") (d : Fields) :
    ((names.foldl (copyNamed fields) d).get k).isSome = true := by
  have hkept : ∀ (names : List (String × String)) (d : Fields), (d.get k).isSome = true →
      ((names.foldl (copyNamed fields) d).get k).isSome = true := by
    intro names
    induction names with
    | nil => exact fun _ h ↦ h
    | cons pair names ih =>
      intro d h
      refine ih _ ?_
      rw [copyNamed]
      split
      · exact h
      split
      · exact h
      · rw [get_set]
        split
        · rfl
        · exact h
  induction names generalizing d with
  | nil => exact absurd hmem List.not_mem_nil
  | cons pair names ih =>
    obtain rfl | hmem := List.mem_cons.1 hmem
    · refine hkept names _ ?_
      rw [copyNamed, hv]
      dsimp only
      rw [if_neg hne, get_set, if_pos rfl]
      rfl
    · exact ih hmem _

/-- A report that is among the fields of an event is among the named ones. -/
theorem namedFields_of_otherValue (hlaws : UnicodeData.UpperLaws) (hspace : UnicodeData.SpaceLaw)
    {message k v : String} (hk : (k, k) ∈ entereventNames)
    (h : (parseCmd message).2.findSome? (otherValue k) = some v) :
    ((namedFields (parseCmd message).2).get k).isSome = true := by
  obtain ⟨item, hitem, hvalue⟩ := List.exists_of_findSome?_eq_some h
  obtain ⟨⟨hkey, hne⟩, -⟩ := Option.ite_none_right_eq_some.1 hvalue
  rw [upper_strip_of_mem_parseCmd hlaws hspace hitem] at hkey
  have hdistinct : (parseCmd message).2.Distinct := by
    rw [parseCmd]
    split
    · exact distinct_nil
    · exact distinct_ofItems _
  exact isSome_foldl_copyNamed hk (hkey ▸ hdistinct.get_eq_some hitem) hne []

omit [UnicodeData] in
theorem findSome?_namedBoxes (state : Fields) (k : String) : ((namedBoxes state).findSome? fun item ↦
    if item.1 = k then nonEmpty (some item.2) else none) =
      if k ∈ cachedFields then nonEmpty (state.get k) else none := by
  rw [namedBoxes]
  induction cachedFields with
  | nil => rfl
  | cons key keys ih =>
    by_cases hkey : key = k
    · subst hkey
      rw [if_pos (List.mem_cons_self ..)]
      cases hget : state.get key with
      | none =>
        rw [List.filterMap_cons_none (by rw [hget]; rfl), ih, hget]
        exact ite_self _
      | some v =>
        rw [List.filterMap_cons_some (b := (key, v)) (by rw [hget]; rfl), List.findSome?_cons,
          if_pos rfl, ih, hget]
        cases nonEmpty (some v) with
        | none => exact ite_self _
        | some w => rfl
    · have hmem : (k ∈ key :: keys) = (k ∈ keys) := by
        rw [List.mem_cons, eq_iff_iff]
        exact or_iff_right fun h ↦ hkey h.symm
      simp only [hmem]
      cases hget : state.get key with
      | none => rw [List.filterMap_cons_none (by rw [hget]; rfl), ih]
      | some v =>
        rw [List.filterMap_cons_some (b := (key, v)) (by rw [hget]; rfl), List.findSome?_cons,
          if_neg hkey, ih]

/-- **The reports and numbered fields of an event** are its own, and where it has none, those of the
cache. -/
theorem get_aclogEntereventToAdif (hlaws : UnicodeData.UpperLaws)
    (hspace : UnicodeData.SpaceLaw) {message : String} {state : Fields} (hstate : state.Distinct)
    {k : String} (hk : k ∈ boxFields) : (aclogEntereventToAdif (parseCmd message).2 state).get k =
      ((eventRecord message).get k).or (nonEmpty (state.get k)) := by
  have hband : ∀ k ∈ boxFields, k ≠ "BAND" := by decide
  have hboxes : ∀ state : Fields, state.Distinct →
      (aclogEntereventToAdif (parseCmd message).2 state).get k =
        (((namedFields (parseCmd message).2).get k).or
          (if k ∈ cachedFields then nonEmpty (state.get k) else none)).or
          (((parseCmd message).2.findSome? (otherValue k)).or
            (if isOtherSlot k then nonEmpty (state.get k) else none)) := by
    intro state hstate
    have hnamed : ((namedBoxes state).findSome? fun item ↦
        if item.1 = k then nonEmpty (some item.2) else none) =
        if k ∈ cachedFields then nonEmpty (state.get k) else none := findSome?_namedBoxes state k
    have hother : ((otherBoxes state).findSome? fun item ↦
        if item.1 = k then nonEmpty (some item.2) else none) =
        if isOtherSlot k then nonEmpty (state.get k) else none := by
      rw [otherBoxes, findSome?_of_distinct (hstate.filter _),
        hstate.get_filter (fun item ↦ isOtherSlot item.1)]
      cases state.get k with
      | none => exact (ite_self _).symm
      | some v =>
        rw [Option.filter_some]
        split <;> rfl
    rw [aclogEntereventToAdif, get_setBand_of_ne _ _ (hband k hk), get_foldl_fillIn, get_foldl_copyOther _ _ hk,
      get_foldl_fillIn, hnamed, hother, Option.or_assoc, namedFields]
  rw [eventRecord, hboxes state hstate, hboxes [] distinct_nil]
  have hcases : ∀ k ∈ boxFields, (k, k) ∈ entereventNames ∧ k ∈ cachedFields ∧
      isOtherSlot k = false ∨ k ∉ cachedFields ∧ isOtherSlot k = true := by decide
  have hempty : nonEmpty (OrderedDict.get ([] : Fields) k) = none := rfl
  rw [hempty]
  simp only [ite_self, Option.or_none]
  obtain ⟨hname, hcached, hslot⟩ | ⟨hcached, hslot⟩ := hcases k hk
  · rw [if_pos hcached, hslot, if_neg (by decide), Option.or_none]
    cases hnamed : (namedFields (parseCmd message).2).get k with
    | some v => rfl
    | none =>
      cases hother : (parseCmd message).2.findSome? (otherValue k) with
      | none => simp only [Option.none_or, Option.or_none]
      | some v =>
        have hsome := namedFields_of_otherValue hlaws hspace hname hother
        rw [hnamed] at hsome
        cases hsome
  · rw [if_neg hcached, if_pos hslot, Option.or_none, Option.or_assoc]

/-! ## What the event and the full record are merged into -/

omit [UnicodeData] in
theorem Distinct.setNonEmpty {d : Fields} (hd : d.Distinct) (k : String) (value : Option String) :
    (setNonEmpty d k value).Distinct := by
  unfold Ollog.setNonEmpty
  split
  · exact hd
  split
  · exact hd
  · exact hd.set k _

theorem Distinct.setBand {d : Fields} (hd : d.Distinct) (value : Option String) :
    (setBand d value).Distinct := by
  rw [Ollog.setBand]
  split
  · exact hd
  · exact hd.set _ _

omit [UnicodeData] in
theorem Distinct.copyNamed {d : Fields} (hd : d.Distinct) (fields : Fields)
    (names : String × String) : (copyNamed fields d names).Distinct := by
  rw [Ollog.copyNamed]
  split
  · exact hd
  split
  · exact hd
  · exact hd.set _ _

omit [UnicodeData] in
theorem Distinct.fillIn {d : Fields} (hd : d.Distinct) (item : String × String) :
    (fillIn d item).Distinct := by
  rw [Ollog.fillIn]
  split
  · exact hd.set _ _
  · exact hd

theorem Distinct.copyOther {d : Fields} (hd : d.Distinct) (item : String × String) :
    (copyOther d item).Distinct := by
  unfold Ollog.copyOther
  dsimp only
  split
  · exact hd
  split
  · exact hd
  split
  · exact hd.set _ _
  · exact hd

theorem distinct_aclogEntereventToAdif (fields state : Fields) :
    (aclogEntereventToAdif fields state).Distinct := by
  have hnamed : (entereventNames.foldl (copyNamed fields) []).Distinct :=
    distinct_nil.foldl fun _ hd names ↦ Distinct.copyNamed hd fields names
  have hboxes : ((namedBoxes state).foldl fillIn (entereventNames.foldl (copyNamed fields) [])
      ).Distinct := hnamed.foldl fun _ hd item ↦ Distinct.fillIn hd item
  exact Distinct.setBand ((hboxes.foldl fun _ hd item ↦ Distinct.copyOther hd item).foldl
    fun _ hd item ↦ Distinct.fillIn hd item) _

theorem distinct_aclogFullRecordToAdif (fields : Fields) :
    (aclogFullRecordToAdif fields).Distinct := by
  refine Distinct.setBand (distinct_nil.foldl fun d hd item ↦ ?_) _
  unfold copyFull
  dsimp only
  split
  · exact hd
  split
  · exact hd
  · exact Distinct.setNonEmpty hd _ _

theorem distinct_state_step {bridge : Bridge} (h : bridge.state.Distinct) (message : String) :
    (bridge.step message).state.Distinct := by
  have hpop : ∀ {state : Fields}, state.Distinct → ∀ key value,
      (setOrPop state key value).Distinct := by
    intro state hstate key value
    rw [setOrPop]
    split
    · exact hstate.erase key
    · exact hstate.set key value
  rw [state_step]
  rw [updateStateFromMessage]
  split
  · exact h.foldl fun _ hd key ↦ Distinct.copyNamed hd _ (key, key)
  split
  · exact hpop h _ _
  split
  · split
    · exact h
    · exact hpop h _ _
  · exact h

theorem distinct_state_bridgeAfter (messages : List String) :
    (bridgeAfter messages).state.Distinct := by
  induction messages using List.reverseRecOn with
  | nil => exact distinct_nil
  | append_singleton messages m ih =>
    rw [bridgeAfter_append]
    exact distinct_state_step ih m

/-- Every record of a response is what the parser makes of some fields. -/
theorem distinct_of_mem_fullRecords {message : String} {record : Fields}
    (h : record ∈ fullRecords message) : record.Distinct := by
  have happend : ∀ {records : List Fields} {record : Fields},
      (∀ r ∈ records, r.Distinct) → record.Distinct → ∀ r ∈ appendRecord records record,
        r.Distinct := by
    intro records record hrecords hrecord
    rw [appendRecord]
    split
    · exact hrecords
    · exact List.forall_mem_append.2 ⟨hrecords, List.forall_mem_singleton.2 hrecord⟩
  have hstep : ∀ (command : String) (item : String × String) (acc : List Fields × Fields),
      (∀ r ∈ acc.1, r.Distinct) → ∀ r ∈ (splitFlat command acc item).1, r.Distinct := by
    intro command item acc hacc
    rw [splitFlat]
    split
    · exact hacc
    split
    · exact happend hacc (distinct_aclogFullRecordToAdif _)
    · exact hacc
  have hflat : ∀ (command : String) (items : List (String × String)) (acc : List Fields × Fields),
      (∀ r ∈ acc.1, r.Distinct) → ∀ r ∈ (items.foldl (splitFlat command) acc).1, r.Distinct := by
    intro command items
    induction items with
    | nil => exact fun _ h ↦ h
    | cons item items ih =>
      intro acc hacc
      rw [List.foldl_cons]
      exact ih (splitFlat command acc item) (hstep command item acc hacc)
  have hnested : ∀ (bodies : List (List Char × List Char)) (records : List Fields),
      (∀ r ∈ records, r.Distinct) → ∀ r ∈ bodies.foldl (fun records tag ↦ appendRecord records
        (aclogFullRecordToAdif (.ofItems (extractOrderedLeafTags tag.2)))) records,
        r.Distinct := by
    intro bodies
    induction bodies with
    | nil => exact fun _ h ↦ h
    | cons tag bodies ih =>
      exact fun records hrecords ↦ ih _ (happend hrecords (distinct_aclogFullRecordToAdif _))
  have hrecords : ∀ r ∈ (aclogFullRecordsFromMessage message).2, r.Distinct := by
    rw [aclogFullRecordsFromMessage]
    split
    · exact fun _ h ↦ absurd h List.not_mem_nil
    dsimp only
    split
    · exact fun _ h ↦ absurd h List.not_mem_nil
    split
    · exact happend (hflat _ _ _ fun _ h ↦ absurd h List.not_mem_nil)
        (distinct_aclogFullRecordToAdif _)
    · exact hnested _ _ fun _ h ↦ absurd h List.not_mem_nil
  rw [fullRecords] at h
  split at h
  · rw [List.mem_singleton.1 h]
    exact distinct_aclogFullRecordToAdif _
  · exact hrecords record h

omit [UnicodeData] in
theorem get_foldl_setNonEmpty {full : Fields} (hfull : full.Distinct) (d : Fields) (k : String) :
    (full.foldl (fun merged item ↦ setNonEmpty merged item.1 (some item.2)) d).get k =
      (nonEmpty (full.get k)).or (d.get k) := by
  induction full generalizing d with
  | nil => rfl
  | cons item full ih =>
    obtain ⟨hhead, htail⟩ := List.pairwise_cons.1 hfull
    have hset : (setNonEmpty d item.1 (some item.2)).get k =
        (if item.1 = k then nonEmpty (some item.2) else none).or (d.get k) := by
      by_cases hv : item.2 = ""
      · have hnone : nonEmpty (some item.2) = none := by rw [hv]; rfl
        rw [setNonEmpty, if_pos hv, hnone, ite_self, Option.none_or]
      · have hsome : nonEmpty (some item.2) = some item.2 := by
          rw [nonEmpty, Option.filter_some, if_pos (by simpa using hv)]
        rw [setNonEmpty, if_neg hv, get_set, hsome]
        by_cases hk : item.1 = k
        · rw [if_pos hk, if_pos hk.symm, Option.some_or]
        · have hk' : ¬k = item.1 := fun h ↦ hk h.symm
          rw [if_neg hk, if_neg hk', Option.none_or]
    rw [List.foldl_cons, ih htail, hset, get_cons]
    by_cases hk : item.1 = k
    · have hnone : OrderedDict.get full k = none :=
        get_eq_none_iff.2 fun item' hitem' heq ↦ hhead item' hitem' (hk.trans heq.symm)
      rw [if_pos hk, if_pos hk, hnone]
      rfl
    · rw [if_neg hk, if_neg hk, Option.none_or]

/-- **A merged record** has the value of the full record, or else of the event, or else of the
cache. -/
theorem get_mergeAclogRecords {base full state : Fields} (hbase : base.Distinct)
    (hfull : full.Distinct) (hstate : state.Distinct) {k : String} (hk : k ∈ boxFields) :
    (mergeAclogRecords base full state).get k =
      ((nonEmpty (full.get k)).or (nonEmpty (base.get k))).or (nonEmpty (state.get k)) := by
  have hnames : ∀ k ∈ boxFields, k ≠ "BAND" ∧
      (decide (k ∈ cachedFields) || isOtherSlot k) = true := by decide
  obtain ⟨hband, hcached⟩ := hnames k hk
  rw [mergeAclogRecords, get_setBand_of_ne _ _ hband, get_foldl_fillIn,
    findSome?_of_distinct (hstate.filter _),
    get_filter (p := fun key ↦ decide (key ∈ cachedFields) || isOtherSlot key), if_pos hcached,
    get_foldl_setNonEmpty hfull, hbase.get_filter]
  rfl

/-! ## What is handed over -/

/-- A message hands over a contact: what came before its event, the event, and what came between
the event and the response; the full record in the response, and the record that is made of it. -/
structure Handover (before : List String) (event : String) (between : List String)
    (response : String) (full record : Fields) : Prop where
  splitAtEvent_eq : splitAtEvent (before ++ event :: between) = some (before, event, between)
  pending_eq : (bridgeAfter (before ++ event :: between)).pending =
    some (aclogEntereventToAdif (parseCmd event).2 (bridgeAfter before).state)
  isFullResponse : isFullResponse response = true
  isEnterevent : isEnterevent response = false
  matchedRecord_eq :
    matchedRecord (aclogEntereventToAdif (parseCmd event).2 (bridgeAfter before).state) response =
      some full
  record_eq : record = mergeAclogRecords
    (aclogEntereventToAdif (parseCmd event).2 (bridgeAfter before).state) full
    ((bridgeAfter (before ++ event :: between)).step response).state

/-- **Every record that is handed over** is the record of such a contact. -/
theorem exists_handover {messages : List String} {response : String} {handed : Handed}
    (h : (handleMessage true (bridgeAfter messages) response).handed = some handed) :
    ∃ before event between full, messages = before ++ event :: between ∧
      Handover before event between response full handed.record := by
  obtain ⟨hevent, hresponse, pending, full, hpending, hmatched, rfl⟩ := handed_eq_some.1 h
  obtain ⟨before, event, between, hsplit, rfl⟩ := pending_bridgeAfter hpending
  obtain ⟨rfl, -⟩ := splitAtEvent_spec hsplit
  exact ⟨before, event, between, full, rfl, hsplit, hpending, hresponse, hevent, hmatched, rfl⟩

omit [UnicodeData] in
theorem nonEmpty_eq_some {value : Option String} {v : String} :
    nonEmpty value = some v ↔ value = some v ∧ v ≠ "" := by
  rw [nonEmpty, Option.filter_eq_some_iff, decide_eq_true_eq]

theorem boxUpdate_of_event {message : String} (h : isEnterevent message = true) (k : String) :
    boxUpdate k message = none := by
  rw [boxUpdate]
  exact if_neg fun hupdate ↦ absurd ((of_decide_eq_true h).symm.trans hupdate.1) (by decide)

/-- A response with full records says nothing about the text boxes. -/
theorem boxUpdate_of_fullResponse {message : String} (h : isFullResponse message = true)
    (k : String) : boxUpdate k message = none := by
  rw [boxUpdate]
  refine if_neg fun hupdate ↦ ?_
  have hcommand : (parseCmd message).1 = some "UPDATERESPONSE" := hupdate.1
  rw [isFullResponse, hcommand, isAclogFullRecordResponse, Bool.and_eq_true] at h
  exact absurd h.1 (by decide)

theorem lastUpdate_append (k : String) (messages messages' : List String) :
    lastUpdate k (messages ++ messages') = (lastUpdate k messages').or (lastUpdate k messages) := by
  rw [lastUpdate, List.reverse_append, List.findSome?_append]
  rfl

theorem exists_of_lastUpdate {k v : String} {messages : List String}
    (h : lastUpdate k messages = some v) : ∃ m ∈ messages, boxUpdate k m = some v := by
  obtain ⟨m, hm, hv⟩ := List.exists_of_findSome?_eq_some h
  exact ⟨m, List.mem_reverse.1 hm, hv⟩

theorem isSome_lastUpdate {k : String} {messages : List String} :
    (lastUpdate k messages).isSome = true ↔ ∃ m ∈ messages, (boxUpdate k m).isSome = true := by
  rw [lastUpdate, List.findSome?_isSome_iff]
  simp only [List.mem_reverse]

/-- **The reports and numbered fields of a contact**, from the messages alone. -/
theorem Handover.get_record (hlaws : UnicodeData.UpperLaws) (hspace : UnicodeData.SpaceLaw)
    {before between : List String} {event response : String} {full record : Fields}
    (h : Handover before event between response full record) {k : String} (hk : k ∈ boxFields) :
    record.get k = ((nonEmpty (full.get k)).or
      (nonEmpty (((eventRecord event).get k).or (nonEmpty (lastUpdate k before))))).or
      (nonEmpty ((lastUpdate k between).or (lastUpdate k before))) := by
  obtain ⟨-, hevent, -⟩ := splitAtEvent_spec h.splitAtEvent_eq
  have hstate : ((bridgeAfter (before ++ event :: between)).step response).state.get k =
      nonEmpty ((lastUpdate k between).or (lastUpdate k before)) := by
    rw [get_state_step _ _ hk, boxUpdate_of_fullResponse h.isFullResponse,
      get_state_bridgeAfter _ hk, ← List.singleton_append, lastUpdate_append, lastUpdate_append]
    have hnone : lastUpdate k [event] = none := by
      rw [lastUpdate, List.reverse_singleton, List.findSome?_cons, boxUpdate_of_event hevent]
      rfl
    rw [hnone, Option.or_none]
  have hidem : ∀ value, nonEmpty (nonEmpty value) = nonEmpty value := fun value ↦ by
    simp only [nonEmpty, Option.filter_filter, Bool.and_self]
  rw [h.record_eq, get_mergeAclogRecords (distinct_aclogEntereventToAdif _ _)
    (distinct_of_mem_fullRecords (List.mem_of_find?_eq_some h.matchedRecord_eq))
    (distinct_state_step (distinct_state_bridgeAfter _) _) hk, hstate,
    get_aclogEntereventToAdif hlaws hspace (distinct_state_bridgeAfter _) hk,
    get_state_bridgeAfter _ hk, hidem, hidem]

/-- What is written of a contact comes from its event, from its full record, or from what ACLog has
said of the text boxes since the event before. -/
def NothingLeaks (messages : List String) : Prop :=
  ∀ pre response post handed, messages = pre ++ response :: post →
    (handleMessage true (bridgeAfter pre) response).handed = some handed →
    ∃ before event between full, pre = before ++ event :: between ∧
      Handover before event between response full handed.record ∧
      ∀ k ∈ boxFields, ∀ v, handed.record.get k = some v →
        (eventRecord event).get k = some v ∨ full.get k = some v ∨
        ∃ m ∈ sinceEvent before ++ between, boxUpdate k m = some v

/-- A text box that fills in a field has been updated since the event before, or holds again what
it held then. -/
def NothingStale (messages : List String) : Prop :=
  ∀ before event between response post full record,
    messages = before ++ event :: between ++ response :: post →
    Handover before event between response full record →
    ∀ k ∈ boxFields, ∀ v, nonEmpty (full.get k) = none → nonEmpty ((eventRecord event).get k) = none →
      nonEmpty (lastUpdate k before) = some v →
      (∃ m ∈ sinceEvent before, (boxUpdate k m).isSome = true) ∨
      ∃ m ∈ between, ∃ w, boxUpdate k m = some w ∧ ((eventRecord event).get k = none → w = v)

/-- The messages up to an event, taken apart at the event before. -/
theorem lastUpdate_sinceEvent (k : String) (messages : List String) :
    lastUpdate k (sinceEvent messages) = lastUpdate k messages ∨
      lastUpdate k (sinceEvent messages) = none := by
  rw [sinceEvent]
  cases hsplit : splitAtEvent messages with
  | none => exact .inl rfl
  | some parts =>
    obtain ⟨before, event, between⟩ := parts
    obtain ⟨rfl, -⟩ := splitAtEvent_spec hsplit
    dsimp only
    rw [← List.singleton_append, lastUpdate_append, lastUpdate_append]
    cases lastUpdate k between with
    | none => exact .inr rfl
    | some v => exact .inl rfl

/-- One field of one contact: it comes from where it should if and only if it is not filled in from
a text box that was last heard of before the event before. -/
theorem Handover.comes_from_iff (hlaws : UnicodeData.UpperLaws) (hspace : UnicodeData.SpaceLaw)
    {before between : List String} {event response : String} {full record : Fields}
    (h : Handover before event between response full record) {k : String} (hk : k ∈ boxFields) :
    (∀ v, record.get k = some v → (eventRecord event).get k = some v ∨ full.get k = some v ∨
      ∃ m ∈ sinceEvent before ++ between, boxUpdate k m = some v) ↔
    ∀ v, nonEmpty (full.get k) = none → nonEmpty ((eventRecord event).get k) = none →
      nonEmpty (lastUpdate k before) = some v →
      (∃ m ∈ sinceEvent before, (boxUpdate k m).isSome = true) ∨
      ∃ m ∈ between, ∃ w, boxUpdate k m = some w ∧
        ((eventRecord event).get k = none → w = v) := by
  have hrecord := h.get_record hlaws hspace hk
  have hsince : ∀ v, lastUpdate k (sinceEvent before) = some v →
      ∃ m ∈ sinceEvent before ++ between, boxUpdate k m = some v := fun v hv ↦
    have ⟨m, hm, hv⟩ := exists_of_lastUpdate hv
    ⟨m, List.mem_append_left _ hm, hv⟩
  have hbetween : ∀ v, lastUpdate k between = some v →
      ∃ m ∈ sinceEvent before ++ between, boxUpdate k m = some v := fun v hv ↦
    have ⟨m, hm, hv⟩ := exists_of_lastUpdate hv
    ⟨m, List.mem_append_right _ hm, hv⟩
  -- What is written, once the full record and the event have nothing.
  have hcached : nonEmpty (full.get k) = none → nonEmpty ((eventRecord event).get k) = none →
      record.get k = if (eventRecord event).get k = none ∧ nonEmpty (lastUpdate k before) ≠ none
        then nonEmpty (lastUpdate k before)
        else nonEmpty ((lastUpdate k between).or (lastUpdate k before)) := by
    intro hfull hown
    rw [hrecord, hfull, Option.none_or]
    cases hown' : (eventRecord event).get k with
    | some o =>
      rw [Option.some_or, ← hown', hown, Option.none_or, if_neg]
      rw [hown']
      exact fun h ↦ (nomatch h.1)
    | none =>
      cases hbefore : nonEmpty (lastUpdate k before) with
      | none => rfl
      | some u =>
        have hu : nonEmpty (some u) = some u :=
          nonEmpty_eq_some.2 ⟨rfl, (nonEmpty_eq_some.1 hbefore).2⟩
        rw [Option.none_or, hu, Option.some_or, if_pos ⟨rfl, (nomatch ·)⟩]
  constructor
  · intro hcomes v hfull hown hbefore
    have hne := (nonEmpty_eq_some.1 hbefore).2
    have hfrom : record.get k = some v →
        (∃ m ∈ sinceEvent before, (boxUpdate k m).isSome = true) ∨
        ∃ m ∈ between, boxUpdate k m = some v := by
      intro hv
      obtain heq | heq | ⟨m, hm, hupdate⟩ := hcomes v hv
      · cases hown.symm.trans (nonEmpty_eq_some.2 ⟨heq, hne⟩)
      · cases hfull.symm.trans (nonEmpty_eq_some.2 ⟨heq, hne⟩)
      · exact (List.mem_append.1 hm).imp (fun hm ↦ ⟨m, hm, by rw [hupdate]; rfl⟩)
          fun hm ↦ ⟨m, hm, hupdate⟩
    have hwritten := hcached hfull hown
    by_cases hnone : (eventRecord event).get k = none
    · rw [if_pos ⟨hnone, by rw [hbefore]; exact (nomatch ·)⟩, hbefore] at hwritten
      exact (hfrom hwritten).imp_right fun ⟨m, hm, hupdate⟩ ↦ ⟨m, hm, v, hupdate, fun _ ↦ rfl⟩
    · rw [if_neg fun h ↦ hnone h.1] at hwritten
      cases hlast : lastUpdate k between with
      | some w =>
        obtain ⟨m, hm, hw⟩ := exists_of_lastUpdate hlast
        exact .inr ⟨m, hm, w, hw, fun h ↦ absurd h hnone⟩
      | none =>
        rw [hlast, Option.none_or, hbefore] at hwritten
        exact (hfrom hwritten).imp_right fun ⟨m, hm, hupdate⟩ ↦ ⟨m, hm, v, hupdate, fun _ ↦ rfl⟩
  · intro hfresh v hv
    cases hfull : nonEmpty (full.get k) with
    | some f =>
      rw [hrecord, hfull, Option.some_or, Option.some_or] at hv
      exact .inr (.inl (hv ▸ (nonEmpty_eq_some.1 hfull).1))
    | none =>
      cases hown : nonEmpty ((eventRecord event).get k) with
      | some o =>
        rw [hrecord, hfull, Option.none_or, (nonEmpty_eq_some.1 hown).1, Option.some_or,
          ← (nonEmpty_eq_some.1 hown).1, hown, Option.some_or] at hv
        exact .inl (hv ▸ (nonEmpty_eq_some.1 hown).1)
      | none =>
        refine .inr (.inr ?_)
        rw [hcached hfull hown] at hv
        have hlater : ∀ w, lastUpdate k between = some w →
            nonEmpty ((lastUpdate k between).or (lastUpdate k before)) = some v →
            ∃ m ∈ sinceEvent before ++ between, boxUpdate k m = some v := by
          intro w hw hv
          rw [hw, Option.some_or] at hv
          exact hbetween v ((nonEmpty_eq_some.1 hv).1 ▸ hw)
        cases hbefore : nonEmpty (lastUpdate k before) with
        | none =>
          rw [hbefore, if_neg fun h ↦ h.2 rfl] at hv
          cases hlast : lastUpdate k between with
          | some w => exact hlater w hlast hv
          | none =>
            rw [hlast, Option.none_or, hbefore] at hv
            cases hv
        | some u =>
          obtain hsome | ⟨m, hm, w, hw, heq⟩ := hfresh u hfull hown hbefore
          · have hsince' : lastUpdate k (sinceEvent before) = lastUpdate k before :=
              (lastUpdate_sinceEvent k before).resolve_right fun hnone ↦ by
                have := isSome_lastUpdate.2 hsome
                rw [hnone] at this
                cases this
            split at hv
            · exact hsince v (hsince'.trans (nonEmpty_eq_some.1 hv).1)
            · cases hlast : lastUpdate k between with
              | some w => exact hlater w hlast hv
              | none =>
                rw [hlast, Option.none_or] at hv
                exact hsince v (hsince'.trans (nonEmpty_eq_some.1 hv).1)
          · split at hv
            · rename_i hnone
              obtain rfl := heq hnone.1
              obtain rfl := Option.some.inj (hbefore.symm.trans hv)
              exact ⟨m, List.mem_append_right _ hm, hw⟩
            · obtain ⟨w', hlast⟩ := Option.isSome_iff_exists.1
                (isSome_lastUpdate.2 ⟨m, hm, by rw [hw]; rfl⟩)
              exact hlater w' hlast hv

/-- **Nothing leaks from one contact to another** if and only if no text box fills in a field with
what it held when the event before came. -/
theorem nothingLeaks_iff (hlaws : UnicodeData.UpperLaws) (hspace : UnicodeData.SpaceLaw)
    (messages : List String) : NothingLeaks messages ↔ NothingStale messages := by
  constructor
  · rintro hleaks before event between response post full record rfl h k hk
    have hhanded := handed_eq_some.2 ⟨h.isEnterevent, h.isFullResponse, _, full, h.pending_eq,
      h.matchedRecord_eq, rfl⟩
    obtain ⟨before', event', between', full', heq, h', hcomes⟩ := hleaks _ _ _ _ rfl hhanded
    -- The messages come apart in one way only.
    have hsplit := h.splitAtEvent_eq
    rw [heq, h'.splitAtEvent_eq] at hsplit
    cases hsplit
    obtain rfl := Option.some.inj (h.matchedRecord_eq.symm.trans h'.matchedRecord_eq)
    refine (h.comes_from_iff hlaws hspace hk).1 fun v hv ↦ hcomes k hk v ?_
    rw [← h.record_eq]
    exact hv
  · rintro hstale pre response post handed rfl hhanded
    obtain ⟨before, event, between, full, rfl, h⟩ := exists_handover hhanded
    exact ⟨before, event, between, full, rfl, h, fun k hk ↦
      (h.comes_from_iff hlaws hspace hk).2 (hstale _ _ _ _ _ _ _ rfl h k hk)⟩

end

/-! ## A text box that is not cleared -/

section

attribute [local instance] UnicodeData.ascii

/-- A value in a text box, a contact, and a second contact with its record. -/
def uncleared : List String :=
  ["<CMD><UPDATERESPONSE><CONTROL>TXTENTRYOTHER1</CONTROL><VALUE>K-0817</VALUE></CMD>",
    "<CMD><ENTEREVENT><CALL>W1AW</CALL></CMD>",
    "<CMD><ENTEREVENT><CALL>K1ABC</CALL><QSO_DATE>20240101</QSO_DATE><TIME_ON>121500</TIME_ON></CMD>",
    "<CMD><LIST><CALL>K1ABC</CALL><DATE>20240101</DATE><TIMEON>1215</TIMEON></CMD>"]

/-- The second contact takes over the value that was there before the first one. -/
theorem not_nothingLeaks_uncleared : ¬ NothingLeaks uncleared := by
  intro hleaks
  have hwritten : ((handleMessage true (bridgeAfter (uncleared.take 3)) (uncleared.getLast (by
      decide))).handed.bind fun handed ↦ handed.record.get "OTHER_1") = some "K-0817" := by
    decide +kernel
  obtain ⟨handed, hhanded, hvalue⟩ := Option.bind_eq_some_iff.1 hwritten
  obtain ⟨before, event, between, full, hpre, h, hcomes⟩ :=
    hleaks (uncleared.take 3) (uncleared.getLast (by decide)) [] handed rfl hhanded
  have hsplit : splitAtEvent (uncleared.take 3) =
      some (uncleared.take 2, uncleared.get ⟨2, by decide⟩, []) := by decide +kernel
  rw [hpre, h.splitAtEvent_eq] at hsplit
  cases hsplit
  have hfull : ((matchedRecord (aclogEntereventToAdif
      (parseCmd (uncleared.get ⟨2, by decide⟩)).2 (bridgeAfter (uncleared.take 2)).state)
      (uncleared.getLast (by decide))).bind fun full ↦ full.get "OTHER_1") = none := by
    decide +kernel
  obtain hown | hfull' | ⟨m, hm, hupdate⟩ := hcomes "OTHER_1" (by decide) "K-0817" hvalue
  · have hnone : (eventRecord (uncleared.get ⟨2, by decide⟩)).get "OTHER_1" = none := by
      decide +kernel
    cases hnone.symm.trans hown
  · rw [h.matchedRecord_eq, Option.bind_some, hfull'] at hfull
    cases hfull
  · have hnone : ∀ m ∈ sinceEvent (uncleared.take 2) ++ [],
        boxUpdate "OTHER_1" m = none := by decide +kernel
    cases (hnone m hm).symm.trans hupdate

/-- Both sides of `nothingLeaks_iff` are false of these messages. -/
theorem nothingLeaks_uncleared_iff : NothingLeaks uncleared ↔ NothingStale uncleared :=
  nothingLeaks_iff UnicodeData.upperLaws_ascii UnicodeData.spaceLaw_ascii uncleared

end

end Ollog
