import Pypilot.Client
import Pypilot.Effects
import Pypilot.Lib.Escape

/-!
# String settings

The client escapes a string and puts it between quotes, into a buffer of 128 bytes; the server takes the
quotes off, when both are there, and stores what is between them as it stands.
-/

namespace Pypilot

open Text Client Server

/-! ## The line -/

/-- The escapes of `append_json_string`. -/
def jsonEscaper : Escaper Byte where
  mark := chr '\\'
  special c := c = chr '"' || c = chr '\\' || c = chr '\n' || c = chr '\r' || c = chr '\t'
  code c := if c = chr '\n' then chr 'n' else if c = chr '\r' then chr 'r'
    else if c = chr '\t' then chr 't' else c
  special_mark := by decide
  code_mark := by decide

theorem flatten_escape (c : Byte) : (Client.escape c).flatten = jsonEscaper.escape c := by
  unfold Client.escape Escaper.escape jsonEscaper
  by_cases hquote : c = chr '"' ∨ c = chr '\\'
  · rcases hquote with rfl | rfl <;> decide
  · rw [if_neg hquote]
    by_cases hn : c = chr '\n'
    · subst hn; decide
    by_cases hr : c = chr '\r'
    · subst hr; decide
    by_cases ht : c = chr '\t'
    · subst ht; decide
    obtain ⟨hq, hb⟩ := not_or.mp hquote
    simp [hn, hr, ht, hq, hb]

theorem take_append_take {α : Type*} (n : ℕ) (s t : List α) :
    (s.take n ++ t).take n = (s ++ t).take n := by
  rw [List.take_append, List.take_append, List.take_take, min_self, List.length_take]
  by_cases h : s.length ≤ n
  · rw [min_eq_right h]
  · rw [min_eq_left (by omega), Nat.sub_self, Nat.sub_eq_zero_of_le (by omega)]

/-- A buffer takes of the pieces put into it what it has room for. -/
theorem foldl_appendRaw {cap : ℕ} (pieces : List Text) {buf : Text} (h : buf.length ≤ cap - 1) :
    pieces.foldl (appendRaw cap) buf = (buf ++ pieces.flatten).take (cap - 1) := by
  induction pieces generalizing buf with
  | nil => simp [List.take_of_length_le h]
  | cons piece pieces ih =>
    have hput : appendRaw cap buf piece = (buf ++ piece).take (cap - 1) := by
      rw [appendRaw, List.take_append, List.take_of_length_le h]
    have hlen : (appendRaw cap buf piece).length ≤ cap - 1 := by
      rw [hput]
      exact List.length_take_le _ _
    rw [List.foldl_cons, ih hlen, hput, take_append_take, List.flatten_cons, List.append_assoc]

/-- What follows the opening quote of a string value: its escaped form and the closing quote, cut off
by the buffer. -/
def jsonTail (value : Text) : Text := (jsonEscaper.escapeAll value ++ [chr '"']).take 126

theorem flatten_flatMap_escape (value : Text) :
    (value.flatMap Client.escape).flatten = jsonEscaper.escapeAll value := by
  induction value with
  | nil => rfl
  | cons c value ih =>
    rw [List.flatMap_cons, List.flatten_append, flatten_escape, ih, Escaper.escapeAll_cons]

theorem appendJsonString_eq (value : Text) :
    appendJsonString 128 [] value = chr '"' :: jsonTail value := by
  rw [appendJsonString, foldl_appendRaw _ (by decide), List.flatten_append, List.flatten_append,
    flatten_flatMap_escape, List.nil_append, List.append_assoc]
  rfl

theorem zero_not_mem_escapeAll {value : Text} (h : (0 : Byte) ∉ value) :
    (0 : Byte) ∉ jsonEscaper.escapeAll value := by
  intro hmem
  obtain ⟨c, hc, hmem⟩ := List.mem_flatMap.mp hmem
  have hc0 : c ≠ 0 := fun h0 => h (h0 ▸ hc)
  by_cases hs : jsonEscaper.special c = true
  · rw [jsonEscaper.escape_special hs] at hmem
    rcases List.mem_pair.mp hmem with h0 | h0
    · exact absurd h0 (by decide)
    · unfold jsonEscaper at h0
      dsimp only at h0
      split_ifs at h0
      · exact absurd h0 (by decide)
      · exact absurd h0 (by decide)
      · exact absurd h0 (by decide)
      · exact hc0 h0.symm
  · rw [jsonEscaper.escape_plain (by simpa using hs)] at hmem
    exact hc0 (List.mem_singleton.mp hmem).symm

/-- A record that fits its buffer is the pieces put into it. -/
theorem makeRecord_eq {cap : ℕ} {pieces : List Text} {line : Text} (hline : pieces.flatten = line)
    (hpos : 0 < line.length) (hfits : line.length + 1 < cap) (hzero : (0 : Byte) ∉ line) :
    makeRecord cap pieces = some line := by
  have hbuf : pieces.foldl (appendRaw cap) [] = line := by
    rw [foldl_appendRaw _ (Nat.zero_le _), List.nil_append, hline, List.take_of_length_le (by omega)]
  unfold makeRecord
  rw [hbuf]
  dsimp only
  rw [if_pos ⟨hpos, hfits⟩, cstr_eq_self hzero]

/-- The line of a string setting. It always fits. -/
theorem setStringLine_eq {name value : Text} (hlen : name.length ≤ 61) (hname : (0 : Byte) ∉ name)
    (hvalue : (0 : Byte) ∉ value) :
    setStringLine name value =
      some (name ++ chr '=' :: chr '"' :: (jsonTail value ++ [chr '\n'])) := by
  have htail : (0 : Byte) ∉ jsonTail value := by
    intro h
    rcases List.mem_append.mp (List.mem_of_mem_take h) with h | h
    · exact zero_not_mem_escapeAll hvalue h
    · exact absurd (List.mem_singleton.mp h) (by decide)
  have hjson : (0 : Byte) ∉ chr '"' :: jsonTail value := by
    rw [List.mem_cons, not_or]
    exact ⟨by decide, htail⟩
  have htaillen : (jsonTail value).length ≤ 126 := List.length_take_le _ _
  have hlinelen : (name ++ chr '=' :: chr '"' :: (jsonTail value ++ [chr '\n'])).length =
      name.length + (jsonTail value).length + 3 := by
    simp only [List.length_append, List.length_cons, List.length_nil]
    omega
  rw [setStringLine, appendJsonString_eq, cstr_eq_self hjson, makeRecordRaw]
  refine makeRecord_eq (by simp [lit]) ?_ ?_ ?_
  · omega
  · unfold maxLineSize
    omega
  · simp only [List.mem_append, List.mem_cons, List.not_mem_nil, or_false, not_or]
    exact ⟨hname, by decide, by decide, htail, by decide⟩

/-! ## The field -/

/-- The string fields that may be set from outside. -/
def WritableString (id : FieldId) : Prop :=
  id.entry.kind = .string ∧ id.entry.info.writable = true

instance : DecidablePred WritableString := fun _ => inferInstanceAs (Decidable (_ ∧ _))

/-- The name of a field is plain. -/
theorem field_name (id : FieldId) :
    (∃ b name, id.entry.name = b :: name ∧ isBlank b = false) ∧ chr '=' ∉ id.entry.name ∧
      chr '"' ∉ id.entry.name ∧ trim id.entry.name = id.entry.name ∧
      id.entry.name.length ≤ 61 ∧ (0 : Byte) ∉ id.entry.name ∧
      id.entry.name ≠ lit "watch" ∧ id.entry.name ≠ lit "values" ∧
      id.entry.name ≠ lit "udp_port" := by
  cases id <;> exact ⟨⟨_, _, rfl, by decide⟩, by decide⟩

/-- A line that starts with the name of a field is trimmed at its end only. -/
theorem trim_fieldLine (id : FieldId) (rest : Text) :
    trim (id.entry.name ++ chr '=' :: rest) =
      id.entry.name ++ chr '=' :: rest.rdropWhile isBlank := by
  obtain ⟨⟨b, name, hname, hb⟩, -⟩ := field_name id
  have hfront : (id.entry.name ++ chr '=' :: rest).dropWhile isBlank =
      id.entry.name ++ chr '=' :: rest := by
    rw [hname]
    exact dropWhile_eq_self hb
  rw [trim, hfront, rdropWhile_append_cons (b := chr '=') (by decide)]

/-- A line with the name of a field before its first `=` is an assignment. -/
theorem request_assignment (id : FieldId) (rest : Text) :
    request (id.entry.name ++ chr '=' :: rest) =
      .assignment id.entry.name (trim (rest.rdropWhile isBlank)) := by
  obtain ⟨⟨b, name, hname, hb⟩, heq, -, htrim, -, -, hwatch, hvalues, hudp⟩ := field_name id
  unfold request
  dsimp only
  rw [trim_fieldLine, if_neg (by rw [hname]; simp), cut_append heq]
  dsimp only
  rw [htrim, if_neg hwatch, if_neg hvalues, if_neg hudp]

theorem request_setString (id : FieldId) (tail : Text) :
    request (id.entry.name ++ chr '=' :: chr '"' :: (tail ++ [chr '\n'])) =
      .assignment id.entry.name (chr '"' :: tail.rdropWhile isBlank) := by
  have hquote : isBlank (chr '"') = false := by decide
  have hend : (chr '"' :: (tail ++ [chr '\n'])).rdropWhile isBlank =
      chr '"' :: tail.rdropWhile isBlank := by
    have h := rdropWhile_append_cons hquote [] (tail ++ [chr '\n'])
    rwa [List.rdropWhile_concat_pos isBlank tail (chr '\n') (by decide)] at h
  have hvalue : trim (chr '"' :: tail.rdropWhile isBlank) =
      chr '"' :: tail.rdropWhile isBlank := by
    rw [trim, dropWhile_eq_self hquote]
    have h := rdropWhile_append_cons hquote [] (tail.rdropWhile isBlank)
    rwa [List.rdropWhile_idempotent] at h
  rw [request_assignment, hend, hvalue]

/-- What the server stores for the line of a string setting. -/
theorem handleLine_setString {W : Type} (m : Machine) {id : FieldId} (hid : WritableString id)
    (tail : Text) (nowUs : ℕ) (out : ValueWriter W) {s : Store} (hat : s.values.attached = true)
    (w : W) :
    (handleLine m (id.entry.name ++ chr '=' :: chr '"' :: (tail ++ [chr '\n'])) nowUs out s
      w).2.1.readString id = some (stripQuotes (chr '"' :: tail.rdropWhile isBlank)) := by
  rw [handleLine_assignment m (request_setString id tail)]
  have hset : s.setFromWire m id.entry.name (chr '"' :: tail.rdropWhile isBlank) true =
      s.setString id (stripQuotes (chr '"' :: tail.rdropWhile isBlank)) := by
    rw [Store.setFromWire, find_entry]
    simp [hid.1, hid.2]
  rw [hset]
  exact (Store.setString_spec s hat hid.1 _).2

/-! ## Quotes -/

theorem stripQuotes_cons (s : Text) :
    stripQuotes (chr '"' :: s) =
      if s.getLast? = some (chr '"') then s.dropLast else chr '"' :: s := by
  unfold stripQuotes
  cases s using List.reverseRecOn with
  | nil => rfl
  | append_singleton s c =>
    have hlast : (chr '"' :: (s ++ [c])).getLast? = some c := by
      rw [← List.cons_append, List.getLast?_concat]
    rw [hlast, List.getLast?_concat]
    by_cases hc : c = chr '"'
    · simp [hc]
    · simp [hc]

/-- A value that fits comes back escaped. -/
theorem stored_of_fits {value : Text} (h : (jsonEscaper.escapeAll value).length ≤ 125) :
    stripQuotes (chr '"' :: (jsonTail value).rdropWhile isBlank) = jsonEscaper.escapeAll value := by
  have htail : jsonTail value = jsonEscaper.escapeAll value ++ [chr '"'] := by
    rw [jsonTail, List.take_of_length_le]
    simp only [List.length_append, List.length_cons, List.length_nil]
    omega
  rw [htail, rdropWhile_eq_self (by decide), stripQuotes_cons]
  simp

theorem fixed_not_blank {c : Byte} (hc : jsonEscaper.Fixed c) : isBlank c = false := by
  by_contra hblank
  unfold isBlank at hblank
  simp only [Bool.not_eq_false, Bool.or_eq_true, decide_eq_true_eq] at hblank
  rcases hblank with ((rfl | rfl) | rfl) | rfl
  · exact absurd hc.1 (by decide)
  · exact absurd hc.2 (by decide)
  · exact absurd hc.2 (by decide)
  · exact absurd hc.2 (by decide)

/-- No string that is cut off is a quote followed by the beginning of its own escaped form: such a string
has quotes at the places 0, 2, 6, 14, 30, 62 and 126, and that makes it lose both ends. -/
theorem getLast_of_quoted {value tail : Text} (hvalue : value = chr '"' :: tail)
    (htail : tail = ((jsonEscaper.escapeAll value).take 126).rdropWhile isBlank)
    (hlong : 126 ≤ (jsonEscaper.escapeAll value).length) : tail.getLast? = some (chr '"') := by
  have hpre : tail <+: jsonEscaper.escapeAll value := by
    rw [htail]
    exact (List.rdropWhile_prefix _ _).trans (List.take_prefix _ _)
  have hquote : jsonEscaper.Fixed (chr '"') := ⟨by decide, by decide⟩
  have hfixed : ∀ c ∈ tail, jsonEscaper.Fixed c := by
    refine jsonEscaper.fixed_of_prefix (q := [jsonEscaper.mark, chr '"']) (by simp) ?_ ?_
    · intro c hc
      rcases List.mem_pair.mp hc with rfl | rfl
      · exact jsonEscaper.fixed_mark
      · exact hquote
    · rwa [hvalue, jsonEscaper.escapeAll_cons, jsonEscaper.escape_fixed hquote] at hpre
  have hfixed' : ∀ c ∈ value, jsonEscaper.Fixed c := by
    intro c hc
    rw [hvalue] at hc
    rcases List.mem_cons.mp hc with rfl | hc
    · exact hquote
    · exact hfixed c hc
  -- there are no blanks, so the tail is as long as the buffer
  have hwhole : tail = (jsonEscaper.escapeAll value).take 126 := by
    rw [htail, List.rdropWhile_eq_self_iff]
    intro hne hblank
    have hmem := List.mem_of_mem_take (List.getLast_mem hne)
    rw [fixed_not_blank (jsonEscaper.fixed_of_mem_escapeAll hfixed' _ hmem)] at hblank
    exact Bool.false_ne_true hblank
  have hlen : tail.length = 126 := by
    rw [hwhole, List.length_take]
    omega
  have hdouble : ∀ k < 63, tail[2 * k + 1]? = value[k]? := by
    intro k hk
    rw [← jsonEscaper.getElem?_escapeAll hfixed' k, hwhole, List.getElem?_take_of_lt (by omega)]
  have hnext : ∀ k, value[k + 1]? = tail[k]? := by
    intro k
    rw [hvalue, List.getElem?_cons_succ]
  calc tail.getLast? = tail[125]? := by rw [List.getLast?_eq_getElem?, hlen]
    _ = value[62]? := hdouble 62 (by omega)
    _ = tail[61]? := hnext 61
    _ = value[30]? := hdouble 30 (by omega)
    _ = tail[29]? := hnext 29
    _ = value[14]? := hdouble 14 (by omega)
    _ = tail[13]? := hnext 13
    _ = value[6]? := hdouble 6 (by omega)
    _ = tail[5]? := hnext 5
    _ = value[2]? := hdouble 2 (by omega)
    _ = tail[1]? := hnext 1
    _ = value[0]? := hdouble 0 (by omega)
    _ = some (chr '"') := by rw [hvalue]; rfl

/-- A value that does not fit does not come back. -/
theorem stored_ne_of_long {value : Text} (h : 126 ≤ (jsonEscaper.escapeAll value).length) :
    stripQuotes (chr '"' :: (jsonTail value).rdropWhile isBlank) ≠ value := by
  intro heq
  have htail : jsonTail value = (jsonEscaper.escapeAll value).take 126 :=
    List.take_append_of_le_length h
  rw [htail, stripQuotes_cons] at heq
  generalize hU : ((jsonEscaper.escapeAll value).take 126).rdropWhile isBlank = tail at heq
  by_cases hlast : tail.getLast? = some (chr '"')
  · -- the value begins its escaped form, and a quote follows, not a mark
    rw [if_pos hlast] at heq
    have htail : value ++ [chr '"'] = tail := by
      rw [← heq, List.dropLast_append_getLast? _ hlast]
    have hpre : value ++ [chr '"'] <+: jsonEscaper.escapeAll value := by
      rw [htail, ← hU]
      exact (List.rdropWhile_prefix _ _).trans (List.take_prefix _ _)
    obtain ⟨rest, hrest⟩ := hpre
    have hmark := jsonEscaper.eq_mark_of_prefix (s := value) (n := 0)
      ⟨[chr '"'] ++ rest, by rw [List.replicate_zero, List.nil_append, ← hrest, List.append_assoc]⟩
    rw [List.replicate_zero, List.nil_append, ← hrest, List.append_assoc, List.drop_left] at hmark
    exact absurd (hmark _ List.mem_cons_self) (by decide)
  · rw [if_neg hlast] at heq
    exact hlast (getLast_of_quoted heq.symm hU.symm h)

/-! ## The round trip -/

/-- A string without quote, backslash, newline, carriage return and tab, that leaves room for the quotes
in the client's buffer. -/
def PlainValue (value : Text) : Prop :=
  (∀ c ∈ value, jsonEscaper.special c = false) ∧ value.length ≤ 125

instance : DecidablePred PlainValue := fun value =>
  @instDecidableAnd _ _ (List.decidableBAll (fun c => jsonEscaper.special c = false) value)
    (Nat.decLe _ _)

theorem stored_eq_iff (value : Text) :
    stripQuotes (chr '"' :: (jsonTail value).rdropWhile isBlank) = value ↔ PlainValue value := by
  have hlen := jsonEscaper.escapeAll_length value
  unfold PlainValue
  rw [← jsonEscaper.escapeAll_eq_self_iff]
  by_cases hfits : (jsonEscaper.escapeAll value).length ≤ 125
  · rw [stored_of_fits hfits]
    exact ⟨fun h => ⟨h, by omega⟩, fun h => h.1⟩
  · refine iff_of_false (stored_ne_of_long (by omega)) ?_
    rintro ⟨hself, hshort⟩
    rw [hself] at hfits
    exact hfits hshort

/-- The line that `set_string` sends, given to the server, leaves the value in the field; a call that
sends no line changes nothing. -/
def RoundTrip {V W : Type} (m : Machine) (net : Net V) (sys : ClientSystem V) (id : FieldId)
    (value : Text) (nowUs : ℕ) (out : ValueWriter W) (s : Store) (w : W) : Prop :=
  match setStringLine id.entry.name value with
  | some line =>
    sys.setString net id.entry.name value = (sys.queueOrWrite net line).2 ∧
      (handleLine m line nowUs out s w).2.1.readString id = some value
  | none => sys.setString net id.entry.name value = sys

/-- **String settings.** A string without NUL gets from the client into a field of the server exactly
when it is plain. -/
theorem roundTrip_iff {V W : Type} (m : Machine) (net : Net V) (sys : ClientSystem V) {id : FieldId}
    (hid : WritableString id) {value : Text} (hvalue : (0 : Byte) ∉ value) (nowUs : ℕ)
    (out : ValueWriter W) {s : Store} (hat : s.values.attached = true) (w : W) :
    RoundTrip m net sys id value nowUs out s w ↔ PlainValue value := by
  obtain ⟨-, -, -, -, hlen, hname, -⟩ := field_name id
  have hline := setStringLine_eq hlen hname hvalue
  have hsend : sys.setString net id.entry.name value = sys.send net
      (setStringLine id.entry.name value) := rfl
  unfold RoundTrip
  rw [hsend, hline]
  dsimp only
  rw [handleLine_setString m hid _ nowUs out hat, Option.some_inj, stored_eq_iff]
  exact and_iff_right rfl

/-- Connections that are never valid. -/
def unplugged : Net Unit where
  valid _ _ := false
  write _ _ w := (0, w)
  close _ w := w
  write_int _ _ _ := zero_int

/-- The mode `gps`. -/
theorem roundTrip_gps :
    RoundTrip default unplugged ⟨{}, {}, ⟨(), []⟩⟩ .apMode (lit "gps") 0 StringValueWriter
      (create default {} {}) [] :=
  (roundTrip_iff default unplugged _ (by decide) (by decide) 0 StringValueWriter rfl []).mpr
    (by decide)

/-- A quote comes back as a backslash and a quote. -/
theorem quoted_value_stored_escaped :
    setStringLine (lit "ap.mode") (lit "a\"b") = some (lit "ap.mode=\"a\\\"b\"\n") ∧
      (handleLine default (lit "ap.mode=\"a\\\"b\"\n") 0 StringValueWriter
        (create default {} {}) []).2.1.readString .apMode = some (lit "a\\\"b") ∧
      ¬ RoundTrip default unplugged ⟨{}, {}, ⟨(), []⟩⟩ .apMode (lit "a\"b") 0 StringValueWriter
        (create default {} {}) [] := by
  have hline : setStringLine (lit "ap.mode") (lit "a\"b") =
      some (lit "ap.mode=\"a\\\"b\"\n") := by decide
  have hstored : (handleLine default (lit "ap.mode=\"a\\\"b\"\n") 0 StringValueWriter
      (create default {} {}) []).2.1.readString .apMode = some (lit "a\\\"b") := by decide +kernel
  refine ⟨hline, hstored, ?_⟩
  intro hround
  unfold RoundTrip at hround
  rw [show FieldId.apMode.entry.name = lit "ap.mode" from rfl, hline] at hround
  have hback := hround.2
  rw [hstored] at hback
  exact absurd hback (by decide)

end Pypilot
