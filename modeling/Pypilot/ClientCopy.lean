import Pypilot.ControlState
import Pypilot.Lib.Numeral
import Pypilot.OutputFraming
import Pypilot.StringSetting
import Pypilot.WatchLines

/-!
# The client's copy of a field

The line that the registry writes for a field, given to the client, sets the same field there: a boolean
and a plain string to the value itself, a number to the one of four decimals next to it. The server
escapes quotes and backslashes, and the client does not take the escapes back (`client_copy_iff`).
-/

namespace Pypilot

open Text Server

/-! ## Lines at the client -/

namespace Client

/-- `parse_record`: the name and the text behind the first `=`. -/
def parseRecord (line : Text) : Option (Text × Text) :=
  let line := trim line
  if line = [] then none
  else match cut (chr '=') line with
    | none => none
    | some (name, json) =>
      if name = [] then none
      else if trim name = [] then none
      else some (trim name, trim json)

/-- `PypilotClient::handle_line`, on the state and the registry of the client. -/
def handleLine (m : Machine) (line : Text) (s : Store) : Store :=
  match parseRecord line with
  | none => s
  | some (name, json) => if name = lit "values" then s else (s.setFromWire m name json false).2

end Client

/-- What a line of a field sets at the client. -/
theorem handleLine_fieldLine (m : Machine) (id : FieldId) (rest : Text) (c : Store) :
    Client.handleLine m (id.entry.name ++ chr '=' :: rest) c =
      (c.setFromWire m id.entry.name (trim (rest.rdropWhile isBlank)) false).2 := by
  obtain ⟨⟨b, name, hname, -⟩, heq, -, htrim, -, -, -, hvalues, -⟩ := field_name id
  have hne : id.entry.name ≠ [] := by
    rw [hname]
    exact List.cons_ne_nil _ _
  have hrecord : Client.parseRecord (id.entry.name ++ chr '=' :: rest) =
      some (id.entry.name, trim (rest.rdropWhile isBlank)) := by
    unfold Client.parseRecord
    dsimp only
    rw [trim_fieldLine, if_neg (by rw [hname]; simp), cut_append heq]
    dsimp only
    rw [if_neg hne, htrim, if_neg hne]
  unfold Client.handleLine
  rw [hrecord]
  exact if_neg hvalues

/-- A line changes no field but the one it names. -/
theorem handleLine_others (m : Machine) (id : FieldId) (rest : Text) (c : Store) {id' : FieldId}
    (hne : id' ≠ id) :
    Store.SameField c (Client.handleLine m (id.entry.name ++ chr '=' :: rest) c) id' := by
  rw [handleLine_fieldLine]
  rcases Store.setFromWire_cases m c id.entry.name (trim (rest.rdropWhile isBlank)) false with
    hfail | ⟨d, hd, -, hassigns⟩
  · rw [hfail]
    exact ⟨rfl, rfl, rfl⟩
  · refine hassigns.others id' ?_
    rw [find_entry] at hd
    rw [← Option.some.inj hd, entry_id]
    exact hne

/-! ## The texts -/

/-- The text of a number, a boolean or a string is found as it was written. -/
theorem trim_line_plain {text : Text} (h : ∀ b ∈ text, isBlank b = false) :
    trim ((text ++ [chr '\n']).rdropWhile isBlank) = text := by
  rw [List.rdropWhile_concat_pos isBlank text (chr '\n') (by decide), rdropWhile_of_forall h,
    trim_eq_self h]

theorem trim_line_quoted (inner : Text) :
    trim ((chr '"' :: inner ++ [chr '"'] ++ [chr '\n']).rdropWhile isBlank) =
      chr '"' :: inner ++ [chr '"'] := by
  have hquote : isBlank (chr '"') = false := by decide
  rw [List.rdropWhile_concat_pos isBlank _ (chr '\n') (by decide), rdropWhile_eq_self hquote, trim,
    List.cons_append, dropWhile_eq_self hquote, ← List.cons_append, rdropWhile_eq_self hquote]

/-- The escapes that `write_json_string` puts in. -/
def quoteEscaper : Escaper Byte where
  mark := chr '\\'
  special c := c = chr '"' || c = chr '\\'
  code c := c
  special_mark := by decide
  code_mark := rfl

theorem flatten_jsonPieces (text : Text) :
    (jsonPieces text).flatten = chr '"' :: quoteEscaper.escapeAll text ++ [chr '"'] := by
  have hinner : (text.flatMap fun c =>
      (if c = chr '"' ∨ c = chr '\\' then [[chr '\\']] else []) ++ [[c]]).flatten =
      quoteEscaper.escapeAll text := by
    induction text with
    | nil => rfl
    | cons c text ih =>
      rw [List.flatMap_cons, List.flatten_append, ih, Escaper.escapeAll_cons]
      congr 1
      unfold Escaper.escape quoteEscaper
      by_cases hc : c = chr '"' ∨ c = chr '\\' <;> simp [hc]
  unfold jsonPieces
  rw [List.flatten_append, List.flatten_append, hinner]
  rfl

theorem stripQuotes_quoted (inner : Text) : stripQuotes (chr '"' :: inner ++ [chr '"']) = inner := by
  have hlen : (chr '"' :: inner ++ [chr '"']).length = inner.length + 2 := by simp
  unfold stripQuotes
  rw [if_pos ⟨by omega, rfl, List.getLast?_concat⟩, hlen, Nat.add_sub_cancel]
  show (inner ++ [chr '"']).take inner.length = inner
  rw [List.take_left]

theorem parseBool_boolText (b : Bool) : parseBool (boolText b) = some b := by
  cases b <;> decide

/-- A number whose text fits the buffer is read back rounded. -/
theorem parseReal_realText (m : Machine) {r : Real} (h : (Decimal.render 4 r).length ≤ 31) :
    (∀ b ∈ realText m r, isBlank b = false) ∧
      parseReal m (realText m r) = some (m.toReal (Numeral.rounded 4 r)) := by
  have htext : realText m r = Decimal.render 4 r := if_pos (by omega)
  rw [htext]
  refine ⟨fun b hb => (plain_of_le (Decimal.le_of_mem_render hb)).1, ?_⟩
  unfold parseReal
  rw [List.take_of_length_le h, Numeral.strtof_render]
  rfl

/-! ## Copies -/

/-- `float` holds the integers of 24 bits. -/
def Machine.HoldsIntegers (m : Machine) : Prop := ∀ n : ℕ, n < 2 ^ 24 → m.nearest n = .fin n

/-- The value is the `float` of the number of four decimals next to `r`. -/
def Machine.FourDecimals (m : Machine) (r value : Real) : Prop :=
  match r with
  | .fin q => ∃ n : ℤ, |q - n / 10 ^ 4| ≤ 1 / (2 * 10 ^ 4) ∧ value = m.nearest (n / 10 ^ 4)
  | r => value = r

/-- The field has the value of `s` in `c`, a number up to four decimals. -/
def Copied (m : Machine) (s c : Store) (id : FieldId) : Prop :=
  match id.entry.kind with
  | .real => ∃ r value, s.readReal id = some r ∧ c.readReal id = some value ∧ m.FourDecimals r value
  | .boolean => c.readBool id = s.readBool id
  | .string => c.readString id = s.readString id

/-- The string holds no quote and no backslash. -/
def Unquoted (text : Text) : Prop := ∀ b ∈ text, b ≠ chr '"' ∧ b ≠ chr '\\'

theorem fourDecimals_toReal (m : Machine) (r : Real) :
    m.FourDecimals r (m.toReal (Numeral.rounded 4 r)) := by
  cases r with
  | fin q =>
    obtain ⟨n, hn, hnear⟩ := Numeral.rounded_near 4 q
    refine ⟨n, hnear, ?_⟩
    rw [hn]
    rfl
  | inf s => rfl
  | nan => rfl

theorem escapeAll_quote_iff (text : Text) :
    quoteEscaper.escapeAll text = text ↔ Unquoted text := by
  rw [Escaper.escapeAll_eq_self_iff]
  refine forall₂_congr fun b _ => ?_
  show (decide (b = chr '"') || decide (b = chr '\\')) = false ↔ _
  rw [Bool.or_eq_false_iff, decide_eq_false_iff_not, decide_eq_false_iff_not]

section Copy

variable (m : Machine) {s c : Store} (hs : s.values.attached = true) (hc : c.values.attached = true)
  {id : FieldId}

/-- The line of a field. -/
def fieldLine (s : Store) (id : FieldId) : Text := (s.writeValueLine m id StringValueWriter []).2

theorem fieldLine_eq {text : Text} (h : valueText m s id = some text) :
    fieldLine m s id = id.entry.name ++ chr '=' :: (text ++ [chr '\n']) := by
  have hline : fieldLine m s id = (linePieces m s id).flatten := by
    show (s.writeValueLine m id (.reliable fun text out => out ++ text) []).2 = _
    rw [writeValueLine_reliable]
    exact puts_string _ _
  rw [hline, flatten_linePieces, h]

include hc

include hs in
/-- A number is copied, the port when `float` holds it. -/
theorem copied_real (hm : m.HoldsIntegers) (hkind : id.entry.kind = .real) {r : Real}
    (hr : s.readReal id = some r) (hfits : (Decimal.render 4 r).length ≤ 31)
    (hport : s.state.server.port < 2 ^ 16) :
    Copied m s (Client.handleLine m (fieldLine m s id) c) id := by
  have htext : valueText m s id = some (realText m r) := by rw [valueText_real m s hkind, hr]; rfl
  obtain ⟨hplain, hparse⟩ := parseReal_realText m hfits
  have hset : c.setFromWire m id.entry.name (realText m r) false =
      c.setReal m id (m.toReal (Numeral.rounded 4 r)) := by
    rw [Store.setFromWire, find_entry]
    simp [hkind, hparse]
  rw [fieldLine_eq m htext, handleLine_fieldLine, trim_line_plain hplain, hset]
  unfold Copied
  rw [hkind]
  dsimp only
  by_cases hid : id = .serverPort
  · -- the client cuts the number to 16 bits, which leaves the port as it is
    subst hid
    have hr' : r = .fin s.state.server.port := by
      unfold Store.readReal at hr
      simpa [hs, eq_comm] using hr
    subst hr'
    have hvalue : m.toReal (Numeral.rounded 4 (.fin s.state.server.port)) =
        .fin s.state.server.port := by
      rw [Numeral.rounded_natural]
      exact hm _ (hport.trans (by norm_num))
    have hcut : (ExtRat.fin s.state.server.port).toUnsigned m.wildCast 16 = s.state.server.port := by
      have htrunc : ExtRat.trunc (s.state.server.port : ℚ) = s.state.server.port := by
        unfold ExtRat.trunc
        rw [if_pos (Nat.cast_nonneg _), Int.floor_natCast]
      unfold ExtRat.toUnsigned
      dsimp only
      rw [htrunc, if_pos ⟨Int.natCast_nonneg _, by exact_mod_cast hport⟩, Int.toNat_natCast]
    refine ⟨_, .fin s.state.server.port, hr, ?_, ?_⟩
    · rw [hvalue]
      unfold Store.setReal Store.readReal Store.markDirty
      simp [hc, hcut]
    · have hnear := fourDecimals_toReal m (.fin s.state.server.port)
      rw [hvalue] at hnear
      exact hnear
  · exact ⟨r, _, hr, (Store.setReal_spec m c hc hkind hid _).2, fourDecimals_toReal m r⟩

theorem copied_boolean (hkind : id.entry.kind = .boolean) {b : Bool} (hb : s.readBool id = some b) :
    Copied m s (Client.handleLine m (fieldLine m s id) c) id := by
  have htext : valueText m s id = some (boolText b) := by rw [valueText_boolean m s hkind, hb]; rfl
  have hword : ∀ c ∈ boolText b, 45 ≤ c.toNat := plain_word (by cases b <;> decide)
  have hplain : ∀ c ∈ boolText b, isBlank c = false := fun c hc => (plain_of_le (hword c hc)).1
  have hset : c.setFromWire m id.entry.name (boolText b) false = c.setBool id b := by
    rw [Store.setFromWire, find_entry]
    simp [hkind, parseBool_boolText]
  rw [fieldLine_eq m htext, handleLine_fieldLine, trim_line_plain hplain, hset]
  unfold Copied
  rw [hkind]
  dsimp only
  rw [(Store.setBool_spec c hc hkind b).2, hb]

/-- A string comes with its escapes. -/
theorem copied_string_iff (hkind : id.entry.kind = .string) {text : Text}
    (ht : s.readString id = some text) :
    Copied m s (Client.handleLine m (fieldLine m s id) c) id ↔ Unquoted text := by
  have htext : valueText m s id = some (chr '"' :: quoteEscaper.escapeAll text ++ [chr '"']) := by
    rw [valueText_string m s hkind, ht, Option.map_some, flatten_jsonPieces]
  have hset : c.setFromWire m id.entry.name (chr '"' :: quoteEscaper.escapeAll text ++ [chr '"'])
      false = c.setString id (quoteEscaper.escapeAll text) := by
    rw [Store.setFromWire, find_entry]
    simp only [hkind, entry_id, stripQuotes_quoted, Bool.false_and, Bool.false_eq_true, if_false]
  rw [fieldLine_eq m htext, handleLine_fieldLine, trim_line_quoted, hset]
  unfold Copied
  rw [hkind]
  dsimp only
  rw [(Store.setString_spec c hc hkind _).2, ht, Option.some_inj, escapeAll_quote_iff]

end Copy

/-! ## Reachable states -/

theorem create_port_lt (m : Machine) (st : PypilotState) (values : ValueRegistry) :
    (create m st values).state.server.port < 2 ^ 16 := by
  show ExtRat.toUnsigned m.wildCast 16 (.fin st.server.port) < 2 ^ 16
  exact ExtRat.toUnsigned_lt _ 16 _

/-- **Copies.** In every state that a server reaches by its lines and polls, the line of a readable field
copies the field to the client and leaves the client's other fields alone, exactly when the field is no
string with a quote or a backslash. -/
theorem client_copy_iff {W : Type} (m : Machine) (hm : m.HoldsIntegers) (st : PypilotState)
    (values : ValueRegistry) (out : ValueWriter W) (w : W) (calls : List ControlCall)
    {p : Store × W} (hp : p ∈ Run.states (ControlCall.step m out) (create m st values, w) calls)
    {id : FieldId} (hread : (valueText m p.1 id).isSome = true)
    (hfits : ∀ r, p.1.readReal id = some r → (Decimal.render 4 r).length ≤ 31) {c : Store}
    (hc : c.values.attached = true) :
    (Copied m p.1 (Client.handleLine m (fieldLine m p.1 id) c) id ∧
        ∀ id', id' ≠ id → Store.SameField c (Client.handleLine m (fieldLine m p.1 id) c) id') ↔
      ∀ text, p.1.readString id = some text → Unquoted text := by
  obtain ⟨hattached, hstate⟩ := ControlCall.states_adopt m out (create m st values, w) calls p hp
  have hs : p.1.values.attached = true := hattached
  have hport : p.1.state.server.port < 2 ^ 16 := by
    have hsame := congrArg (fun state : PypilotState => state.server.port) hstate
    exact lt_of_eq_of_lt hsame (create_port_lt m st values)
  have hothers : ∀ id', id' ≠ id →
      Store.SameField c (Client.handleLine m (fieldLine m p.1 id) c) id' := by
    obtain ⟨text, htext⟩ := Option.isSome_iff_exists.mp hread
    intro id' hne
    rw [fieldLine_eq m htext]
    exact handleLine_others m id _ c hne
  rw [and_iff_left hothers]
  rcases reading_cases id hs with ⟨hkind, hstring, -, r, hr⟩ | ⟨rfl, -, hr⟩ |
    ⟨hkind, hstring, -, -, b, hb⟩ | ⟨hkind, -, -, text, htext⟩
  · exact iff_of_true (copied_real m hs hc hm hkind hr (hfits r hr) hport)
      fun text htext => nomatch htext.symm.trans hstring
  · rw [valueText_real m p.1 rfl, hr] at hread
    exact absurd hread Bool.false_ne_true
  · exact iff_of_true (copied_boolean m hc hkind hb) fun text htext => nomatch htext.symm.trans hstring
  · rw [copied_string_iff m hc hkind htext, htext]
    exact ⟨fun h text' heq => Option.some.inj heq ▸ h, fun h => h text rfl⟩

/-- The mode `gps`, set by a line. -/
theorem client_copy_iff_gps :
    (Copied default ((ControlCall.line (lit "ap.mode=gps\n") 0).step default StringValueWriter
        (create default {} {}, [])).1
        (Client.handleLine default (lit "ap.mode=\"gps\"\n") (create default {} {})) .apMode ∧
        ∀ id', id' ≠ .apMode → Store.SameField (create default {} {})
          (Client.handleLine default (lit "ap.mode=\"gps\"\n") (create default {} {})) id') ↔
      ∀ text, ((ControlCall.line (lit "ap.mode=gps\n") 0).step default StringValueWriter
        (create default {} {}, [])).1.readString .apMode = some text → Unquoted text := by
  have hline : fieldLine default ((ControlCall.line (lit "ap.mode=gps\n") 0).step default
      StringValueWriter (create default {} {}, [])).1 .apMode = lit "ap.mode=\"gps\"\n" := by
    decide +kernel
  have hreal : ((ControlCall.line (lit "ap.mode=gps\n") 0).step default StringValueWriter
      (create default {} {}, [])).1.readReal .apMode = none := by decide +kernel
  have hread : (valueText default ((ControlCall.line (lit "ap.mode=gps\n") 0).step default
      StringValueWriter (create default {} {}, [])).1 .apMode).isSome = true := by decide +kernel
  have h := client_copy_iff default (fun _ _ => rfl) {} {} StringValueWriter []
    [.line (lit "ap.mode=gps\n") 0] (Run.foldl_mem_states _ _ _) hread
    (fun r hr => nomatch hr.symm.trans hreal) (c := create default {} {}) rfl
  rw [← hline]
  exact h

/-- A mode with a quote in it comes to the client with a backslash. -/
theorem quoted_mode_copied_escaped :
    (∃ p, p ∈ Run.states (ControlCall.step default StringValueWriter) (create default {} {}, [])
        [.line (lit "ap.mode=a\"b\n") 0] ∧
      p.1.readString .apMode = some (lit "a\"b") ∧
      fieldLine default p.1 .apMode = lit "ap.mode=\"a\\\"b\"\n" ∧
      ¬ Copied default p.1 (Client.handleLine default (fieldLine default p.1 .apMode)
        (create default {} {})) .apMode) := by
  have hmode : ([ControlCall.line (lit "ap.mode=a\"b\n") 0].foldl
      (ControlCall.step default StringValueWriter) (create default {} {}, [])).1.readString .apMode =
      some (lit "a\"b") := by decide +kernel
  refine ⟨_, Run.foldl_mem_states _ _ _, hmode, by decide +kernel, fun h => ?_⟩
  exact ((copied_string_iff default rfl rfl hmode).mp h (chr '"') (by decide)).1 rfl

end Pypilot
