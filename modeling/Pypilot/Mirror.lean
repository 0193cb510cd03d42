import Pypilot.ClientCopy
import Pypilot.ReaderLines

/-!
# The mirror of the server

The client has what the lines of the server last showed of each field. This holds of fields that get
through (`Store.Transmissible`): a value that cannot be read leaves its line open, a number of more than 31
characters is cut, a string comes with its escapes, and a line longer than the buffer of the line reader
loses its front. The listing is such a line, but what is left of it says nothing.
-/

namespace Pypilot

open Text Server AsyncEventLoop

/-! ## What gets through -/

/-- The line of the field gets through to the client. -/
def Store.Transmissible (m : Machine) (s : Store) (id : FieldId) : Prop :=
  (valueText m s id).isSome ∧ (∀ r ∈ s.readReal id, (Decimal.render 4 r).length ≤ 31) ∧
    ∀ t ∈ s.readString id,
      Unquoted t ∧ chr '\n' ∉ t ∧ id.entry.name.length + t.length + 3 ≤ Client.maxLineSize

instance (text : Text) : Decidable (Unquoted text) :=
  inferInstanceAs (Decidable (∀ b ∈ text, _))

instance (m : Machine) (s : Store) (id : FieldId) : Decidable (s.Transmissible m id) :=
  inferInstanceAs (Decidable (_ ∧ _ ∧ _))

/-- The emission gets through to the client. -/
def Emission.Transmissible (m : Machine) (s : Store) : Emission → Prop
  | .value id => s.Transmissible m id
  | _ => True

instance (m : Machine) (s : Store) : DecidablePred (Emission.Transmissible m s)
  | .value id => inferInstanceAs (Decidable (s.Transmissible m id))
  | .listing => isTrue trivial
  | .error _ => isTrue trivial

/-- The messages of error lines. -/
def errorMessages : List Text :=
  [lit "invalid request: missing '='", lit "remote value registration not implemented",
    lit "invalid set", lit "invalid watch request", lit "invalid watch key",
    lit "invalid watch separator", lit "invalid watch period", lit "invalid unknown value"]

/-- An error has one of the messages. -/
def Emission.Known : Emission → Prop
  | .error message => message ∈ errorMessages
  | _ => True

theorem known_of_mem_error {e : Emission} {message : Text} (hmessage : message ∈ errorMessages)
    (he : e ∈ [Emission.error message]) : e.Known := by
  rw [List.mem_singleton.mp he]
  exact hmessage

theorem known_watchItem {expression message : Text} (h : watchItem expression = .bad message) :
    message ∈ errorMessages := by
  unfold watchItem at h
  cases he : trim expression with
  | nil => simp [he] at h
  | cons c e =>
    simp only [he] at h
    split_ifs at h with hcomma hquote
    · rw [← WatchItem.bad.inj h]
      simp [errorMessages]
    · cases hk : cut (chr '"') e with
      | none =>
        simp only [hk] at h
        rw [← WatchItem.bad.inj h]
        simp [errorMessages]
      | some p =>
        simp only [hk] at h
        cases he₁ : trim p.2 with
        | nil =>
          simp only [he₁] at h
          rw [← WatchItem.bad.inj h]
          simp [errorMessages]
        | cons c e₂ =>
          simp only [he₁] at h
          split_ifs at h with hcolon
          · rw [← WatchItem.bad.inj h]
            simp [errorMessages]
          · cases hv : cut (chr ',') (trim e₂) with
            | none => simp [hv] at h
            | some q => simp [hv] at h

theorem known_entryEmissions (m : Machine) (nowUs : ℕ) (key value : Text) (s : Store) :
    ∀ e ∈ entryEmissions m nowUs key value s, e.Known := by
  unfold entryEmissions
  generalize (if value = lit "true" then some 0 else parsePeriod m value) = period
  intro e he
  split_ifs at he
  · exact absurd he List.not_mem_nil
  · rw [List.mem_singleton.mp he]
    exact trivial
  · exact absurd he List.not_mem_nil
  · cases period with
    | none => exact known_of_mem_error (by simp [errorMessages]) he
    | some period =>
      rcases List.mem_append.mp he with he | he
      · cases hfind : find key with
        | none => simp [hfind] at he
        | some d =>
          rw [hfind] at he
          rw [List.mem_singleton.mp he]
          exact trivial
      · split_ifs at he
        · exact absurd he List.not_mem_nil
        · exact known_of_mem_error (by simp [errorMessages]) he

theorem known_watchEmissions (m : Machine) (nowUs : ℕ) {n : ℕ} {expression : Text} {s : Store} :
    ∀ e ∈ watchEmissions m nowUs n expression s, e.Known := by
  induction n generalizing expression s with
  | zero => simp [watchEmissions]
  | succ n ih =>
    intro e he
    unfold watchEmissions at he
    cases hitem : watchItem expression with
    | done => simp [hitem] at he
    | comma rest =>
      simp only [hitem] at he
      exact ih e he
    | bad message =>
      simp only [hitem] at he
      exact known_of_mem_error (known_watchItem hitem) he
    | entry key value rest =>
      simp only [hitem] at he
      rcases List.mem_append.mp he with he | he
      · exact known_entryEmissions m nowUs key value s e he
      · rcases hafter : entryAfter m nowUs key value s with ⟨_ | ok, s'⟩
        · rw [hafter] at he
          exact ih e he
        · rw [hafter] at he
          exact absurd he List.not_mem_nil

theorem known_lineEmissions (m : Machine) (nowUs : ℕ) (line : Text) (s : Store) :
    ∀ e ∈ lineEmissions m nowUs line s, e.Known := by
  intro e he
  unfold lineEmissions at he
  cases hreq : request line with
  | empty => simp [hreq] at he
  | udpPort => simp [hreq] at he
  | malformed =>
    simp only [hreq] at he
    exact known_of_mem_error (by simp [errorMessages]) he
  | values =>
    simp only [hreq] at he
    exact known_of_mem_error (by simp [errorMessages]) he
  | watch expression =>
    simp only [hreq] at he
    split_ifs at he
    · exact known_of_mem_error (by simp [errorMessages]) he
    · exact known_watchEmissions m nowUs e he
  | assignment name value =>
    simp only [hreq] at he
    split_ifs at he
    · exact absurd he List.not_mem_nil
    · exact known_of_mem_error (by simp [errorMessages]) he

theorem ServerCall.emissions_known (m : Machine) (s : Store) (call : ServerCall) :
    ∀ e ∈ call.emissions m s, e.Known := by
  cases call with
  | line text nowUs => exact known_lineEmissions m nowUs text s
  | poll callbacks nowUs =>
    intro e he
    obtain ⟨id, -, rfl⟩ := List.mem_map.mp he
    exact trivial

/-! ## Lines at the client -/

/-- Blanks around a line do not matter, and neither does a carriage return taken from its end. -/
theorem handleLine_trim (m : Machine) {line line' : Text} (h : trim line = trim line') (c : Store) :
    Client.handleLine m line c = Client.handleLine m line' c := by
  unfold Client.handleLine Client.parseRecord
  rw [h]

theorem trim_stripped (stripCr : Bool) (line : Text) :
    trim (LineProtocolReader.stripped stripCr line) = trim line := by
  unfold LineProtocolReader.stripped
  split_ifs with hcr
  · obtain ⟨-, hlast⟩ := hcr
    have hblank : ∀ c ∈ [chr '\r'], isBlank c = true := List.forall_mem_singleton.mpr rfl
    conv_rhs => rw [← List.dropLast_append_getLast? _ hlast]
    exact (trim_append_of_blank hblank _).symm
  · rfl

/-- The line reader hands on a line that fits, and the client handles it as it was sent. -/
theorem handleLine_delivered (m : Machine) {line : Text} (hfits : line.length ≤ Client.maxLineSize)
    (c : Store) :
    Client.handleLine m (LineProtocolReader.stripped true
      (LineProtocolReader.kept Client.maxLineSize line)) c =
        Client.handleLine m (line ++ [chr '\n']) c := by
  have hblank : ∀ c ∈ [chr '\n'], isBlank c = true := List.forall_mem_singleton.mpr rfl
  rw [LineProtocolReader.kept_of_fits _ hfits]
  apply handleLine_trim
  rw [trim_stripped, trim_append_of_blank hblank]

/-! ## What a line says -/

theorem sameField_trans {s₁ s₂ s₃ : Store} {id : FieldId} (h : Store.SameField s₁ s₂ id)
    (h' : Store.SameField s₂ s₃ id) : Store.SameField s₁ s₃ id :=
  ⟨h'.real.trans h.real, h'.bool.trans h.bool, h'.string.trans h.string⟩

/-- What a field is set to does not depend on what it was. -/
theorem setFromWire_sameField (m : Machine) (id : FieldId) (text : Text) {c c' : Store}
    (hc : c.values.attached = true) (hc' : c'.values.attached = true)
    (hok : (c.setFromWire m id.entry.name text false).1 = true) :
    Store.SameField (c.setFromWire m id.entry.name text false).2
      (c'.setFromWire m id.entry.name text false).2 id := by
  have hreal : ∀ v : Real, id.entry.kind = .real →
      Store.SameField (c.setReal m id v).2 (c'.setReal m id v).2 id := by
    intro v hkind
    cases id
    all_goals first
      | exact absurd hkind (by decide)
      | constructor <;> simp [Store.setReal, Store.markDirty, Store.readReal, Store.readBool,
          Store.readString, hc, hc']
  have hbool : ∀ v : Bool, id.entry.kind = .boolean →
      Store.SameField (c.setBool id v).2 (c'.setBool id v).2 id := by
    intro v hkind
    cases id
    all_goals first
      | exact absurd hkind (by decide)
      | constructor <;> simp [Store.setBool, Store.markDirty, Store.readReal, Store.readBool,
          Store.readString, hc, hc']
  have hstring : ∀ v : Text, id.entry.kind = .string →
      Store.SameField (c.setString id v).2 (c'.setString id v).2 id := by
    intro v hkind
    cases id
    all_goals first
      | exact absurd hkind (by decide)
      | constructor <;> simp [Store.setString, Store.markDirty, Store.readReal, Store.readBool,
          Store.readString, hc, hc']
  unfold Store.setFromWire at hok ⊢
  simp only [find_entry, Bool.false_and, Bool.false_eq_true, if_false, entry_id] at hok ⊢
  cases hkind : id.entry.kind with
  | real =>
    simp only [hkind] at hok ⊢
    cases hparse : parseReal m text with
    | none => simp [hparse] at hok
    | some v => exact hreal v hkind
  | boolean =>
    simp only [hkind] at hok ⊢
    cases hparse : parseBool text with
    | none => simp [hparse] at hok
    | some v => exact hbool v hkind
  | string => exact hstring _ hkind

/-- The line of a field that gets through: it fits the buffer and sets the field. -/
theorem Store.Transmissible.line {m : Machine} {s : Store} {id : FieldId} (h : s.Transmissible m id)
    (hs : s.values.attached = true) : ∃ text, valueText m s id = some text ∧ chr '\n' ∉ text ∧
      (id.entry.name ++ chr '=' :: text).length ≤ Client.maxLineSize ∧
      ∀ c : Store, c.values.attached = true → (c.setFromWire m id.entry.name
        (trim ((text ++ [chr '\n']).rdropWhile isBlank)) false).1 = true := by
  obtain ⟨hread, hreal, hstring⟩ := h
  obtain ⟨-, -, -, -, hname, -⟩ := field_name id
  have hmax : Client.maxLineSize = 192 := rfl
  rcases reading_cases id hs with ⟨hkind, -, -, r, hr⟩ | ⟨rfl, -, hr⟩ | ⟨hkind, -, -, -, b, hb⟩ |
    ⟨hkind, -, -, t, ht⟩
  · have hfits := hreal r hr
    obtain ⟨hplain, hparse⟩ := parseReal_realText m hfits
    have hrender : realText m r = Decimal.render 4 r := if_pos (by omega)
    refine ⟨realText m r, by rw [valueText_real m s hkind, hr]; rfl, ?_, ?_, fun c hc => ?_⟩
    · intro hnl
      exact absurd (hplain _ hnl) (by decide)
    · rw [List.length_append, List.length_cons, hrender]
      omega
    · rw [trim_line_plain hplain, Store.setFromWire, find_entry]
      simp only [hkind, hparse, entry_id, Bool.false_and, Bool.false_eq_true, if_false]
      by_cases hport : id = .serverPort
      · subst hport
        simp [Store.setReal, hc]
      · exact (Store.setReal_spec m c hc hkind hport _).1
  · rw [valueText_real m s rfl, hr] at hread
    exact absurd hread Bool.false_ne_true
  · have hword : ∀ c ∈ boolText b, 45 ≤ c.toNat := plain_word (by cases b <;> decide)
    have hlen : (boolText b).length ≤ 5 := by cases b <;> decide
    refine ⟨boolText b, by rw [valueText_boolean m s hkind, hb]; rfl, newline_mem_boolText b, ?_,
      fun c hc => ?_⟩
    · rw [List.length_append, List.length_cons]
      omega
    · rw [trim_line_plain fun c hc => (plain_of_le (hword c hc)).1, Store.setFromWire, find_entry]
      simp only [hkind, parseBool_boolText, entry_id, Bool.false_and, Bool.false_eq_true, if_false]
      exact (Store.setBool_spec c hc hkind b).1
  · obtain ⟨hplain, hnl, hfits⟩ := hstring t ht
    refine ⟨(jsonPieces t).flatten, by rw [valueText_string m s hkind, ht]; rfl,
      fun h => hnl ((newline_mem_jsonPieces_iff t).mp h), ?_, fun c hc => ?_⟩
    · rw [flatten_jsonPieces, (escapeAll_quote_iff t).mpr hplain]
      simp only [List.length_append, List.length_cons, List.length_nil]
      omega
    · rw [flatten_jsonPieces, trim_line_quoted, Store.setFromWire, find_entry]
      simp only [hkind, entry_id, Bool.false_and, Bool.false_eq_true, if_false]
      exact (Store.setString_spec c hc hkind _).1

/-- The client has what the text shows of the field. -/
def Says (m : Machine) (id : FieldId) (text : Text) (c : Store) : Prop :=
  Store.SameField (Client.handleLine m (id.entry.name ++ chr '=' :: (text ++ [chr '\n']))
    (create m {} {})) c id

section Emissions

variable {m : Machine} {s : Store}

/-- Texts that get through are the texts of fields that get through. -/
theorem Store.Transmissible.congr {s' : Store} (hs' : s'.values.attached = true) {id : FieldId}
    (h : s.Transmissible m id) (hsame : valueText m s' id = valueText m s id) :
    s'.Transmissible m id := by
  obtain ⟨hread, hreal, hstring⟩ := h
  refine ⟨hsame ▸ hread, fun r' hr' => ?_, fun t' ht' => ?_⟩
  · rcases reading_cases id hs' with ⟨hkind, -⟩ | ⟨-, -, hnone⟩ | ⟨-, -, hnone, -⟩ | ⟨-, hnone, -⟩
    · rw [valueText_real m s' hkind, valueText_real m s hkind, hr', Option.map_some, eq_comm,
        Option.map_eq_some_iff] at hsame
      obtain ⟨r, hr, htext⟩ := hsame
      have hfits := hreal r hr
      by_contra hlong
      have hlen := congrArg List.length htext
      unfold realText readBuffer at hlen
      rw [if_pos (by omega), if_neg (by omega)] at hlen
      simp only [List.length_append, List.length_take, List.length_cons, List.length_map,
        List.length_range] at hlen
      omega
    all_goals exact nomatch hr'.symm.trans hnone
  · rcases reading_cases id hs' with ⟨-, hnone, -⟩ | ⟨rfl, -⟩ | ⟨-, hnone, -⟩ | ⟨hkind, -⟩
    · exact nomatch ht'.symm.trans hnone
    · simp [Store.readString] at ht'
    · exact nomatch ht'.symm.trans hnone
    · rw [valueText_string m s' hkind, valueText_string m s hkind, ht', Option.map_some, eq_comm,
        Option.map_eq_some_iff] at hsame
      obtain ⟨t, ht, htext⟩ := hsame
      have hplain := (hstring t ht).1
      rw [flatten_jsonPieces, flatten_jsonPieces, (escapeAll_quote_iff t).mpr hplain] at htext
      have hinner : t = quoteEscaper.escapeAll t' :=
        List.append_cancel_right (List.cons.inj htext).2
      have hmark : quoteEscaper.mark ∉ quoteEscaper.escapeAll t' := by
        rw [← hinner]
        exact fun h => (hplain _ h).2 rfl
      rw [quoteEscaper.escapeAll_eq_self_of_mark_notMem hmark] at hinner
      rw [← hinner]
      exact hstring t ht

/-- What says the text of a field that gets through has a copy of the field. -/
theorem Says.copied (hm : m.HoldsIntegers) (hs : s.values.attached = true)
    (hport : s.state.server.port < 2 ^ 16) {id : FieldId} (h : s.Transmissible m id) {text : Text}
    (htext : valueText m s id = some text) {c : Store} (htold : Says m id text c) :
    Copied m s c id := by
  have hnew : (create m {} {}).values.attached = true := rfl
  have hcopied : Copied m s (Client.handleLine m (fieldLine m s id) (create m {} {})) id := by
    rcases reading_cases id hs with ⟨hkind, -, -, r, hr⟩ | ⟨rfl, -, hr⟩ | ⟨hkind, -, -, -, b, hb⟩ |
      ⟨hkind, -, -, t, ht⟩
    · exact copied_real m hs hnew hm hkind hr (h.2.1 r hr) hport
    · rw [valueText_real m s rfl, hr] at htext
      exact nomatch htext
    · exact copied_boolean m hnew hkind hb
    · exact (copied_string_iff m hnew hkind ht).mpr (h.2.2 t ht).1
  rw [fieldLine_eq m htext] at hcopied
  unfold Copied at hcopied ⊢
  cases hkind : id.entry.kind with
  | real =>
    simp only [hkind] at hcopied ⊢
    obtain ⟨r, value, hr, hvalue, hfour⟩ := hcopied
    exact ⟨r, value, hr, htold.real.trans hvalue, hfour⟩
  | boolean =>
    simp only [hkind] at hcopied ⊢
    exact htold.bool.trans hcopied
  | string =>
    simp only [hkind] at hcopied ⊢
    exact htold.string.trans hcopied

/-- What the line of an emission does at the client. -/
def applied (m : Machine) (s : Store) (e : Emission) (c : Store) : Store :=
  match e with
  | .value _ => Client.handleLine m (emissionText m s e) c
  | _ => c

/-- An emission that gets through is a line, and what the line reader hands on of it does what the line
does. -/
theorem emission_delivered (hs : s.values.attached = true) {e : Emission} (hknown : e.Known)
    (h : e.Transmissible m s) : ∃ line, emissionText m s e = line ++ [chr '\n'] ∧ chr '\n' ∉ line ∧
      ∀ c, Client.handleLine m (LineProtocolReader.stripped true
        (LineProtocolReader.kept Client.maxLineSize line)) c = applied m s e c := by
  cases e with
  | value id =>
    obtain ⟨text, htext, hnl, hfits, -⟩ := Store.Transmissible.line h hs
    have hline : emissionText m s (.value id) =
        (id.entry.name ++ chr '=' :: text) ++ [chr '\n'] := by
      show (linePieces m s id).flatten = _
      rw [flatten_linePieces, htext, List.append_assoc]
      rfl
    refine ⟨_, hline, ?_, fun c => ?_⟩
    · obtain ⟨-, -, hname⟩ := name_spec id
      rw [List.mem_append, List.mem_cons, not_or, not_or]
      exact ⟨hname, by decide, hnl⟩
    · rw [handleLine_delivered m hfits, ← hline]
      rfl
  | listing =>
    have hnone : Client.parseRecord (LineProtocolReader.stripped true
        (LineProtocolReader.kept Client.maxLineSize (lit "values=" ++ listingPieces.flatten))) =
        none := by decide +kernel
    refine ⟨lit "values=" ++ listingPieces.flatten, ?_, ?_, fun c => ?_⟩
    · show ([lit "values="] ++ listingPieces ++ [[chr '\n']]).flatten = _
      simp
    · rw [List.mem_append, not_or]
      exact ⟨by decide, newline_mem_listing⟩
    · unfold Client.handleLine
      rw [hnone]
      rfl
  | error message =>
    have hparsed : ∀ message ∈ errorMessages, chr '\n' ∉ message ∧
        (Client.parseRecord (LineProtocolReader.stripped true (LineProtocolReader.kept
          Client.maxLineSize (lit "error=" ++ message)))).map Prod.fst = some (lit "error") := by
      decide +kernel
    obtain ⟨hnl, hname⟩ := hparsed message hknown
    refine ⟨lit "error=" ++ message, ?_, ?_, fun c => ?_⟩
    · show ([lit "error="] ++ [message] ++ [[chr '\n']]).flatten = _
      simp
    · rw [List.mem_append, not_or]
      exact ⟨by decide, hnl⟩
    · obtain ⟨⟨name, json⟩, hrecord, rfl⟩ := Option.map_eq_some_iff.mp hname
      unfold Client.handleLine
      rw [hrecord]
      rfl

end Emissions

/-! ## The mirror -/

/-- The store of the last emission of the field. -/
def lastShown (log : List (Store × Emission)) (id : FieldId) : Option Store :=
  (log.filter fun p => p.2 = .value id).getLast?.map Prod.fst

theorem lastShown_concat (log : List (Store × Emission)) (s : Store) (e : Emission) (id : FieldId) :
    lastShown (log ++ [(s, e)]) id = if e = .value id then some s else lastShown log id := by
  unfold lastShown
  rw [List.filter_append]
  split_ifs with he
  · simp [he]
  · simp [he]

/-- The client has of each field what the last of the emissions says, and of the others what `c₀` has. -/
structure Mirrors (m : Machine) (c₀ : Store) (log : List (Store × Emission)) (c : Store) : Prop where
  attached : c.values.attached = true
  shown : ∀ id s, lastShown log id = some s → ∃ text, valueText m s id = some text ∧ Says m id text c
  keeps : ∀ id, lastShown log id = none → Store.SameField c₀ c id

theorem Mirrors.start (m : Machine) {c : Store} (hc : c.values.attached = true) :
    Mirrors m c [] c where
  attached := hc
  shown := fun _ _ h => nomatch h
  keeps := fun _ _ => ⟨rfl, rfl, rfl⟩

/-- **One more line.** -/
theorem Mirrors.concat {m : Machine} {c₀ c s : Store} {log : List (Store × Emission)}
    (h : Mirrors m c₀ log c) (hs : s.values.attached = true) {e : Emission}
    (he : e.Transmissible m s) : Mirrors m c₀ (log ++ [(s, e)]) (applied m s e c) := by
  cases e with
  | value id =>
    obtain ⟨text, htext, -, -, hsets⟩ := Store.Transmissible.line he hs
    have hline : emissionText m s (.value id) =
        id.entry.name ++ chr '=' :: (text ++ [chr '\n']) := by
      show (linePieces m s id).flatten = _
      rw [flatten_linePieces, htext]
    have happlied : applied m s (.value id) c =
        Client.handleLine m (id.entry.name ++ chr '=' :: (text ++ [chr '\n'])) c := by
      rw [← hline]
      rfl
    have hothers : ∀ id', id' ≠ id → Store.SameField c (Client.handleLine m
        (id.entry.name ++ chr '=' :: (text ++ [chr '\n'])) c) id' := fun id' hne =>
      handleLine_others m id (text ++ [chr '\n']) c hne
    rw [happlied]
    refine ⟨?_, fun id' s' hlast => ?_, fun id' hlast => ?_⟩
    · rw [handleLine_fieldLine]
      rcases Store.setFromWire_cases m c id.entry.name
        (trim ((text ++ [chr '\n']).rdropWhile isBlank)) false with hfail | ⟨d, -, -, hd⟩
      · rw [hfail]
        exact h.attached
      · exact hd.attached.trans h.attached
    · rw [lastShown_concat] at hlast
      split_ifs at hlast with hid
      · obtain rfl := Emission.value.inj hid
        obtain rfl := Option.some.inj hlast
        refine ⟨text, htext, ?_⟩
        unfold Says
        rw [handleLine_fieldLine, handleLine_fieldLine]
        exact setFromWire_sameField m id _ rfl h.attached (hsets _ rfl)
      · obtain ⟨text', htext', htold⟩ := h.shown id' s' hlast
        exact ⟨text', htext',
          sameField_trans htold (hothers id' fun heq => hid (congrArg Emission.value heq.symm))⟩
    · rw [lastShown_concat] at hlast
      split_ifs at hlast with hid
      exact sameField_trans (h.keeps id' hlast)
        (hothers id' fun heq => hid (congrArg Emission.value heq.symm))
  | listing =>
    have hsame : lastShown (log ++ [(s, .listing)]) = lastShown log := by
      funext id
      rw [lastShown_concat, if_neg (by simp)]
    exact ⟨h.attached, hsame ▸ h.shown, hsame ▸ h.keeps⟩
  | error message =>
    have hsame : lastShown (log ++ [(s, .error message)]) = lastShown log := by
      funext id
      rw [lastShown_concat, if_neg (by simp)]
    exact ⟨h.attached, hsame ▸ h.shown, hsame ▸ h.keeps⟩

end Pypilot
