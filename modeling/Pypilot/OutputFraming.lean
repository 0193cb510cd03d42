import Pypilot.ServerOutput
import Pypilot.Lib.Lines
import Pypilot.Lib.Run

/-!
# Lines of the server

What the server writes in one call is a sequence of emissions. Each of them is a line, unless its value
cannot be read, or brings a newline of its own: one in a string, or one read behind the number buffer.
-/

namespace Pypilot

open Text Server

/-- `name=text` with a newline at the end and nowhere else. -/
def ProtocolLine (line : Text) : Prop :=
  ∃ name text, name ≠ [] ∧ chr '=' ∉ name ∧ chr '\n' ∉ name ∧ chr '\n' ∉ text ∧
    line = name ++ chr '=' :: (text ++ [chr '\n'])

/-- The field can be read and its text holds no newline. -/
def Store.Showable (m : Machine) (s : Store) (id : FieldId) : Prop :=
  (id = .rudderAngle → s.state.rudder.angle.valid = true) ∧
    (∀ t ∈ s.readString id, chr '\n' ∉ t) ∧
    ∀ r ∈ s.readReal id, ∀ i < (Decimal.render 4 r).length - 32, m.behind i ≠ chr '\n'

instance (m : Machine) (s : Store) (id : FieldId) : Decidable (s.Showable m id) :=
  inferInstanceAs (Decidable (_ ∧ _ ∧ _))

/-! ## Texts -/

section Texts

variable (m : Machine) (s : Store) (id : FieldId)

theorem newline_mem_realText_iff (r : Real) :
    chr '\n' ∈ realText m r ↔ ∃ i < (Decimal.render 4 r).length - 32, m.behind i = chr '\n' := by
  have hrender : chr '\n' ∉ Decimal.render 4 r := by
    intro h
    exact absurd (Decimal.le_of_mem_render h) (by decide)
  unfold realText readBuffer
  split_ifs with hfits
  · refine iff_of_false hrender ?_
    rintro ⟨i, hi, -⟩
    omega
  · simp only [List.mem_append, List.mem_cons, List.mem_map, List.mem_range]
    constructor
    · rintro (h | h | h)
      · exact absurd (List.mem_of_mem_take h) hrender
      · exact absurd h (by decide)
      · exact h
    · intro h
      exact .inr (.inr h)

theorem newline_mem_boolText (b : Bool) : chr '\n' ∉ boolText b := by cases b <;> decide

theorem newline_mem_jsonPieces_iff (text : Text) :
    chr '\n' ∈ (jsonPieces text).flatten ↔ chr '\n' ∈ text := by
  unfold jsonPieces
  have hmark : chr '\n' ≠ chr '"' ∧ chr '\n' ≠ chr '\\' := by decide
  simp only [List.mem_flatten, List.mem_append, List.mem_flatMap, List.mem_singleton]
  constructor
  · rintro ⟨piece, (rfl | ⟨c, hc, hp⟩) | rfl, hmem⟩
    · exact absurd (List.mem_singleton.mp hmem) hmark.1
    · rcases hp with hp | rfl
      · split_ifs at hp
        · rw [List.mem_singleton.mp hp] at hmem
          exact absurd (List.mem_singleton.mp hmem) hmark.2
        · exact absurd hp List.not_mem_nil
      · rw [List.mem_singleton.mp hmem]
        exact hc
    · exact absurd (List.mem_singleton.mp hmem) hmark.1
  · intro h
    exact ⟨[chr '\n'], .inl (.inr ⟨chr '\n', h, .inr rfl⟩), List.mem_singleton.mpr rfl⟩

theorem name_spec (id : FieldId) :
    id.entry.name ≠ [] ∧ chr '=' ∉ id.entry.name ∧ chr '\n' ∉ id.entry.name := by
  cases id <;> decide

variable {s} in
/-- What can be read of a field, by its kind. The angle of the rudder need not be valid. -/
theorem reading_cases (hat : s.values.attached = true) :
    (id.entry.kind = .real ∧ s.readString id = none ∧
        (id = .rudderAngle → s.state.rudder.angle.valid = true) ∧ ∃ r, s.readReal id = some r) ∨
      (id = .rudderAngle ∧ s.state.rudder.angle.valid = false ∧ s.readReal id = none) ∨
      (id.entry.kind = .boolean ∧ s.readString id = none ∧ s.readReal id = none ∧
        id ≠ .rudderAngle ∧ ∃ b, s.readBool id = some b) ∨
      (id.entry.kind = .string ∧ s.readReal id = none ∧ id ≠ .rudderAngle ∧
        ∃ t, s.readString id = some t) := by
  unfold Store.readReal Store.readBool Store.readString
  simp only [hat]
  by_cases hangle : id = .rudderAngle
  · subst hangle
    by_cases hvalid : s.state.rudder.angle.valid = true
    · exact .inl ⟨rfl, rfl, fun _ => hvalid, _, if_pos hvalid⟩
    · exact .inr (.inl ⟨rfl, by simpa using hvalid, if_neg hvalid⟩)
  · cases id
    all_goals first
      | exact absurd rfl hangle
      | exact .inl ⟨rfl, rfl, fun h => absurd h hangle, _, rfl⟩
      | exact .inr (.inr (.inl ⟨rfl, rfl, rfl, hangle, _, rfl⟩))
      | exact .inr (.inr (.inr ⟨rfl, rfl, hangle, _, rfl⟩))

variable {s} in
/-- A field is showable when it has a text, and that holds no newline. -/
theorem showable_iff (hat : s.values.attached = true) :
    s.Showable m id ↔ ∃ t, valueText m s id = some t ∧ chr '\n' ∉ t := by
  unfold Store.Showable
  rcases reading_cases id hat with ⟨hk, hstr, hangle, r, hr⟩ | ⟨hangle, hvalid, hr⟩ |
    ⟨hk, hstr, hr, hangle, b, hb⟩ | ⟨hk, hr, hangle, t, ht⟩
  · have hnl : chr '\n' ∉ realText m r ↔
        ∀ i < (Decimal.render 4 r).length - 32, m.behind i ≠ chr '\n' := by
      rw [newline_mem_realText_iff]
      simp
    rw [valueText_real m s hk, hstr, hr, and_iff_right hangle]
    simp [hnl]
  · have hk : id.entry.kind = .real := by rw [hangle]; rfl
    rw [valueText_real m s hk, hr]
    simp [hangle, hvalid]
  · rw [valueText_boolean m s hk, hb, hstr, hr]
    simp [hangle, newline_mem_boolText]
  · have hnl := not_congr (newline_mem_jsonPieces_iff t)
    rw [valueText_string m s hk, ht, hr, and_iff_right (fun h => absurd h hangle)]
    simp only [Option.map_some, Option.some_inj, exists_eq_left', hnl]
    simp

/-- The text of the line of a field. -/
theorem flatten_linePieces :
    (linePieces m s id).flatten = id.entry.name ++ chr '=' ::
      match valueText m s id with
      | some t => t ++ [chr '\n']
      | none => [] := by
  unfold linePieces valueText
  cases valuePieces m s id <;> simp

end Texts

/-! ## Emissions -/

/-- The text of an emission. -/
def emissionText (m : Machine) (s : Store) (e : Emission) : Text := (pieces m s e).flatten

/-- The emission is complete: it is no field, or one that is showable. -/
def Emission.Complete (m : Machine) (s : Store) : Emission → Prop
  | .value id => s.Showable m id
  | _ => True

instance (m : Machine) (s : Store) : DecidablePred (Emission.Complete m s)
  | .value id => inferInstanceAs (Decidable (s.Showable m id))
  | .listing => isTrue trivial
  | .error _ => isTrue trivial

/-- The messages of the server. -/
def Emission.Plain : Emission → Prop
  | .error message => chr '\n' ∉ message
  | _ => True

theorem newline_mem_listing : chr '\n' ∉ listingPieces.flatten := by decide +kernel

/-- A line of a field that is not showable is not one line. -/
theorem protocolLine_value_iff (m : Machine) {s : Store} (hat : s.values.attached = true)
    (id : FieldId) : ProtocolLine (emissionText m s (.value id)) ↔ s.Showable m id := by
  obtain ⟨hne, heq, hnl⟩ := name_spec id
  rw [showable_iff m id hat]
  show ProtocolLine (linePieces m s id).flatten ↔ _
  rw [flatten_linePieces]
  cases htext : valueText m s id with
  | none =>
    refine iff_of_false ?_ (by simp)
    rintro ⟨name, text, -, -, hname, htext, hline⟩
    have hmem : chr '\n' ∈ id.entry.name ++ [chr '='] := by
      rw [show id.entry.name ++ [chr '='] = name ++ chr '=' :: (text ++ [chr '\n']) from hline]
      simp
    rcases List.mem_append.mp hmem with h | h
    · exact hnl h
    · exact absurd (List.mem_singleton.mp h) (by decide)
  | some t =>
    constructor
    · rintro ⟨name, text, -, hname, -, htext, hline⟩
      -- both sides are cut at their first `=`
      have hcut := congrArg (cut (chr '=')) hline
      rw [cut_append heq, cut_append hname] at hcut
      obtain ⟨-, hback⟩ := Prod.mk.inj (Option.some.inj hcut)
      refine ⟨t, rfl, ?_⟩
      rw [List.append_cancel_right hback]
      exact htext
    · rintro ⟨t', ht', hfree⟩
      obtain rfl := Option.some.inj ht'
      exact ⟨id.entry.name, t, hne, heq, hnl, hfree, rfl⟩

/-- An emission is a line exactly when it is complete. -/
theorem protocolLine_iff (m : Machine) {s : Store} (hat : s.values.attached = true) {e : Emission}
    (he : e.Plain) : ProtocolLine (emissionText m s e) ↔ e.Complete m s := by
  cases e with
  | value id => exact protocolLine_value_iff m hat id
  | listing =>
    refine iff_of_true ⟨lit "values", listingPieces.flatten, by decide, by decide, by decide,
      newline_mem_listing, ?_⟩ trivial
    show ([lit "values="] ++ listingPieces ++ [[chr '\n']]).flatten = _
    rw [List.flatten_append, List.flatten_append]
    simp [lit]
  | error message =>
    refine iff_of_true ⟨lit "error", message, by decide, by decide, by decide, he, ?_⟩ trivial
    show ([lit "error="] ++ [message] ++ [[chr '\n']]).flatten = _
    simp [lit]

theorem plain_of_mem_error {e : Emission} {message : Text} (hmessage : chr '\n' ∉ message)
    (he : e ∈ [Emission.error message]) : e.Plain := by
  rw [List.mem_singleton.mp he]
  exact hmessage

theorem plain_watchItem {expression message : Text} (h : watchItem expression = .bad message) :
    (Emission.error message).Plain := by
  unfold watchItem at h
  cases he : trim expression with
  | nil => simp [he] at h
  | cons c e =>
    simp only [he] at h
    split_ifs at h with hcomma hquote
    · rw [← WatchItem.bad.inj h]
      exact (by decide : chr '\n' ∉ lit "invalid watch key")
    · cases hk : cut (chr '"') e with
      | none =>
        simp only [hk] at h
        rw [← WatchItem.bad.inj h]
        exact (by decide : chr '\n' ∉ lit "invalid watch key")
      | some p =>
        have hseparator : chr '\n' ∉ lit "invalid watch separator" := by decide
        simp only [hk] at h
        cases he₁ : trim p.2 with
        | nil =>
          simp only [he₁] at h
          rw [← WatchItem.bad.inj h]
          exact hseparator
        | cons c e₂ =>
          simp only [he₁] at h
          split_ifs at h with hcolon
          · rw [← WatchItem.bad.inj h]
            exact hseparator
          · cases hv : cut (chr ',') (trim e₂) with
            | none => simp [hv] at h
            | some q => simp [hv] at h

theorem plain_entryEmissions (m : Machine) (nowUs : ℕ) (key value : Text) (s : Store) :
    ∀ e ∈ entryEmissions m nowUs key value s, e.Plain := by
  unfold entryEmissions
  generalize (if value = lit "true" then some 0 else parsePeriod m value) = period
  intro e he
  split_ifs at he
  · exact absurd he List.not_mem_nil
  · rw [List.mem_singleton.mp he]
    exact trivial
  · exact absurd he List.not_mem_nil
  · cases period with
    | none => exact plain_of_mem_error (by decide) he
    | some period =>
      rcases List.mem_append.mp he with he | he
      · cases hfind : find key with
        | none => simp [hfind] at he
        | some d =>
          rw [hfind] at he
          rw [List.mem_singleton.mp he]
          exact trivial
      · split_ifs at he
        · exact absurd he List.not_mem_nil
        · exact plain_of_mem_error (by decide) he

theorem plain_watchEmissions (m : Machine) (nowUs : ℕ) {n : ℕ} {expression : Text} {s : Store} :
    ∀ e ∈ watchEmissions m nowUs n expression s, e.Plain := by
  induction n generalizing expression s with
  | zero => simp [watchEmissions]
  | succ n ih =>
    intro e he
    unfold watchEmissions at he
    cases hitem : watchItem expression with
    | done => simp [hitem] at he
    | comma rest =>
      simp only [hitem] at he
      exact ih e he
    | bad message =>
      simp only [hitem] at he
      rw [List.mem_singleton.mp he]
      exact plain_watchItem hitem
    | entry key value rest =>
      simp only [hitem] at he
      rcases List.mem_append.mp he with he | he
      · exact plain_entryEmissions m nowUs key value s e he
      · rcases hafter : entryAfter m nowUs key value s with ⟨_ | ok, s'⟩
        · rw [hafter] at he
          exact ih e he
        · rw [hafter] at he
          exact absurd he List.not_mem_nil

theorem plain_lineEmissions (m : Machine) (nowUs : ℕ) (line : Text) (s : Store) :
    ∀ e ∈ lineEmissions m nowUs line s, e.Plain := by
  intro e he
  unfold lineEmissions at he
  cases hreq : request line with
  | empty => simp [hreq] at he
  | udpPort => simp [hreq] at he
  | malformed =>
    simp only [hreq] at he
    exact plain_of_mem_error (by decide) he
  | values =>
    simp only [hreq] at he
    exact plain_of_mem_error (by decide) he
  | watch expression =>
    simp only [hreq] at he
    split_ifs at he
    · exact plain_of_mem_error (by decide) he
    · exact plain_watchEmissions m nowUs e he
  | assignment name value =>
    simp only [hreq] at he
    split_ifs at he
    · exact absurd he List.not_mem_nil
    · exact plain_of_mem_error (by decide) he

/-! ## Runs -/

/-- A call of the server: a line, or a poll whose callbacks may change the state. -/
inductive ServerCall
  | line (text : Text) (nowUs : ℕ)
  | poll (callbacks : PypilotState → PypilotState) (nowUs : ℕ)

namespace ServerCall

variable (m : Machine) (s : Store)

/-- The store after the call, and the text that the call writes. -/
def run : ServerCall → Store × Text
  | line text nowUs => (handleLine m text nowUs StringValueWriter s []).2
  | poll callbacks nowUs => Server.poll m callbacks nowUs StringValueWriter s []

def step (call : ServerCall) : Store := (call.run m s).1

def output (call : ServerCall) : Text := (call.run m s).2

/-- The store whose values the call writes. -/
def written : ServerCall → Store
  | line _ _ => s
  | poll callbacks _ => { s with state := callbacks s.state }

/-- What the call writes. -/
def emissions : ServerCall → List Emission
  | line text nowUs => lineEmissions m nowUs text s
  | poll callbacks nowUs => pollEmissions nowUs { s with state := callbacks s.state }

/-- Every field that the call writes is showable. -/
def Complete (call : ServerCall) : Prop :=
  ∀ e ∈ call.emissions m s, e.Complete m (call.written s)

instance (call : ServerCall) : Decidable (call.Complete m s) :=
  inferInstanceAs (Decidable (∀ _ ∈ _, _))

theorem output_eq (call : ServerCall) :
    call.output m s = ((call.emissions m s).map (emissionText m (call.written s))).flatten := by
  have hflat : ∀ (s : Store) (es : List Emission),
      (es.flatMap (pieces m s)).flatten = (es.map (emissionText m s)).flatten := by
    intro s es
    induction es with
    | nil => rfl
    | cons e es ih =>
      rw [List.flatMap_cons, List.flatten_append, ih, List.map_cons, List.flatten_cons]
      rfl
  cases call with
  | line text nowUs =>
    show (handleLine m text nowUs (.reliable fun text out => out ++ text) s []).2.2 = _
    rw [(handleLine_reliable m _ s [] text nowUs).1, emit, puts_string, List.nil_append, hflat]
    rfl
  | poll callbacks nowUs =>
    show (Server.poll m callbacks nowUs (.reliable fun text out => out ++ text) s []).2 = _
    rw [poll_reliable, emit, puts_string, List.nil_append, hflat]
    rfl

theorem step_attached (call : ServerCall) :
    (call.step m s).values.attached = s.values.attached := by
  cases call with
  | line text nowUs => exact handleLine_attached m text nowUs StringValueWriter s []
  | poll callbacks nowUs =>
    show (Server.poll m callbacks nowUs (.reliable fun text out => out ++ text) s
      []).1.values.attached = _
    rw [poll_reliable]

theorem emissions_plain (call : ServerCall) : ∀ e ∈ call.emissions m s, e.Plain := by
  cases call with
  | line text nowUs => exact plain_lineEmissions m nowUs text s
  | poll callbacks nowUs =>
    intro e he
    obtain ⟨id, -, rfl⟩ := List.mem_map.mp he
    exact trivial

end ServerCall

/-- **Lines of the server.** In any run from any state, a call whose fields are all showable writes whole
protocol lines; one that writes another field writes something that is not a line. -/
theorem output_concat (m : Machine) (st : PypilotState) (values : ValueRegistry)
    (calls : List ServerCall) :
    ∀ p ∈ Run.steps (fun s call => call.step m s) (create m st values) calls,
      (p.2.Complete m p.1 → Lines.Concat ProtocolLine (p.2.output m p.1)) ∧
        (¬ p.2.Complete m p.1 →
          ∃ e ∈ p.2.emissions m p.1, ¬ ProtocolLine (emissionText m (p.2.written p.1) e)) := by
  intro p hp
  have hat : p.1.values.attached = true :=
    Run.steps_invariant (I := fun s : Store => s.values.attached = true)
      (fun s call h => (call.step_attached m s).trans h) (s := create m st values) rfl calls p hp
  have hwritten : (p.2.written p.1).values.attached = true := by
    rw [← hat]
    cases p.2 <;> rfl
  have hline := fun e he => protocolLine_iff m hwritten (p.2.emissions_plain m p.1 e he)
  constructor
  · intro hcomplete
    refine ⟨(p.2.emissions m p.1).map (emissionText m (p.2.written p.1)), ?_, p.2.output_eq m p.1⟩
    intro l hl
    obtain ⟨e, he, rfl⟩ := List.mem_map.mp hl
    exact (hline e he).mpr (hcomplete e he)
  · intro hnot
    unfold ServerCall.Complete at hnot
    push Not at hnot
    obtain ⟨e, he, hbad⟩ := hnot
    exact ⟨e, he, fun h => hbad ((hline e he).mp h)⟩

/-- A watch with its first line and a listing, a change, and a poll that reports it. -/
theorem output_concat_session :
    let calls : List ServerCall :=
      [.line (lit "watch=\x7b\"values\":true,\"ap.enabled\":true,\"ap.mode\":0.5\x7d") 0,
        .line (lit "ap.enabled=true") 1, .line (lit "ap.heading=1") 2, .poll id 3]
    let steps := Run.steps (fun s call => ServerCall.step default s call) (create default {} {}) calls
    (∀ p ∈ steps, p.2.Complete default p.1) ∧
      ∀ p ∈ steps, Lines.Concat ProtocolLine (p.2.output default p.1) := by
  intro calls steps
  have hcomplete : ∀ p ∈ steps, p.2.Complete default p.1 := by decide +kernel
  exact ⟨hcomplete, fun p hp => (output_concat default {} {} calls p hp).1 (hcomplete p hp)⟩

theorem ProtocolLine.getLast {line : Text} (h : ProtocolLine line) :
    line.getLast? = some (chr '\n') := by
  obtain ⟨name, text, -, -, -, -, rfl⟩ := h
  rw [← List.cons_append, ← List.append_assoc, List.getLast?_concat]

/-- The angle of the rudder is not valid: its name goes out, and no newline behind it. -/
theorem watch_ends_in_line :
    let call := ServerCall.line (lit "watch=\x7b\"rudder.angle\":true\x7d") 0
    call.output default (create default {} {}) = lit "rudder.angle=" ∧
      ¬ Lines.Concat ProtocolLine (call.output default (create default {} {})) := by
  intro call
  have hout : call.output default (create default {} {}) = lit "rudder.angle=" := by decide +kernel
  refine ⟨hout, fun h => ?_⟩
  rw [hout] at h
  rcases h.getLast (fun _ => ProtocolLine.getLast) with hnil | hlast
  · exact absurd hnil (by decide)
  · exact absurd hlast (by decide)

end Pypilot
