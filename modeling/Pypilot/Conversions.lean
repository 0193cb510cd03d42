import Pypilot.ClientCopy
import Pypilot.IterationEnds

/-!
# Conversions

The conversions from `float` to an unsigned integer that the program executes: the port in `set_real`, the
period in `watch` and `emit_due_watches`, the command in `encode_command`. Beside each function that gets
to one stands the list of those it executes; when all of them are in range, what the function does does
not depend on what an undefined conversion gives.
-/

namespace Pypilot

open Text Server

/-- A conversion of `operand` to an unsigned integer of `width` bits. -/
structure Conversion where
  width : ℕ
  operand : Real
  deriving DecidableEq

/-- The operand is a number whose integer part fits. -/
def Conversion.InRange (c : Conversion) : Prop :=
  match c.operand with
  | .fin q => 0 ≤ ExtRat.trunc q ∧ ExtRat.trunc q < 2 ^ c.width
  | _ => False

instance : DecidablePred Conversion.InRange
  | ⟨_, .fin _⟩ => inferInstanceAs (Decidable (_ ∧ _))
  | ⟨_, .inf _⟩ => isFalse not_false
  | ⟨_, .nan⟩ => isFalse not_false

def AllInRange (cs : List Conversion) : Prop := ∀ c ∈ cs, c.InRange

instance : DecidablePred AllInRange := fun cs => inferInstanceAs (Decidable (∀ c ∈ cs, c.InRange))

/-! ## The registry -/

namespace Store

/-- `period_us`. -/
def periodConversions (m : Machine) (seconds : Real) : List Conversion :=
  if seconds ≤ 0 then [] else [⟨64, m.toReal (seconds * 1000000)⟩]

/-- `set_real`. -/
def setRealConversions (s : Store) (id : FieldId) (value : Real) : List Conversion :=
  if !s.values.attached then []
  else match id with
    | .serverPort => [⟨16, value⟩]
    | _ => []

/-- `set_from_wire`. -/
def setFromWireConversions (m : Machine) (s : Store) (name wireValue : Text) (externalWrite : Bool) :
    List Conversion :=
  match find name with
  | none => []
  | some d =>
    if externalWrite && !d.info.writable then []
    else match d.kind with
      | .real =>
        match parseReal m wireValue with
        | some v => s.setRealConversions d.id v
        | none => []
      | _ => []

/-- `watch`: the entry of the field or a free one gets a due time. -/
def watchConversions (m : Machine) (s : Store) (name : Text) (periodSeconds : Real) :
    List Conversion :=
  match find name with
  | none => []
  | some d =>
    if s.values.watches.toList.any (fun e => e.active && e.id = d.id) ||
        s.values.watches.toList.any fun e => !e.active then
      periodConversions m periodSeconds
    else []

/-- `emit_due_watches`. -/
def emitDueConversions (m : Machine) (s : Store) (nowUs : ℕ) : List Conversion :=
  (s.values.watches.toList.filter (isDue nowUs)).flatMap fun e => periodConversions m e.periodSeconds

end Store

/-! ## Lines and polls -/

namespace Server

variable {W : Type} (m : Machine)

/-- One entry of a watch request. -/
def entryConversions (key value : Text) (s : Store) : List Conversion :=
  if key = lit "values" then []
  else if value = lit "false" then []
  else
    match if value = lit "true" then some 0 else parsePeriod m value with
    | none => []
    | some period => s.watchConversions m key period

/-- One round of the loop of `handle_watch`. -/
def roundConversions (p : Text × Store × W) : List Conversion :=
  match watchItem p.1 with
  | .entry key value _ => entryConversions m key value p.2.1
  | _ => []

/-- The rounds of the loop of `handle_watch`, by what is left of the request and of the rest. -/
def watchRounds (expression : Text) (nowUs : ℕ) (out : ValueWriter W) (s : Store) (w : W) :
    List (Text × Store × W) :=
  let e := trim expression
  if e.length < 2 ∨ e.head? ≠ some (chr '\x7b') ∨ e.getLast? ≠ some (chr '\x7d') then []
  else
    let inner := (e.drop 1).take (e.length - 2)
    Loop.visits (watchBody m nowUs out) (inner.length + 1) (inner, s, w)

/-- `handle_line` of the server. -/
def handleLineConversions (line : Text) (nowUs : ℕ) (out : ValueWriter W) (s : Store) (w : W) :
    List Conversion :=
  match request line with
  | .watch expression =>
    (watchRounds m expression nowUs out s w).flatMap (roundConversions m)
  | .assignment name value => s.setFromWireConversions m name value true
  | _ => []

/-- `poll(out)`: only the watches that are due have their periods converted. -/
def pollConversions (nowUs : ℕ) (s : Store) : List Conversion := s.emitDueConversions m nowUs

end Server

/-- `handle_line` of the client. -/
def Client.handleLineConversions (m : Machine) (line : Text) (s : Store) : List Conversion :=
  match parseRecord line with
  | none => []
  | some (name, json) =>
    if name = lit "values" then [] else s.setFromWireConversions m name json false

/-! ## Iterations -/

namespace ServoProtocol

/-- `encode_command`. -/
def encodeConversions (command : Real) : List Conversion :=
  [⟨16, (ExtRat.clamp command (-1) 1 + 1) * 1000⟩]

end ServoProtocol

/-- `Servo::poll`, by way of `raw_command`. -/
def Servo.pollConversions (servo : Servo) (st : PypilotState) : List Conversion :=
  if servo.apEnabled then ServoProtocol.encodeConversions (ExtRat.clamp st.servo.command (-1) 1)
  else []

namespace Autopilot

/-- Up to the angle: the poll of the servo with the autopilot off. -/
def readConversions (ap : Autopilot) (st : PypilotState) : List Conversion :=
  if !st.ap.enabled then ap.servo.pollConversions st else []

/-- From the angle on: the poll of the servo with the autopilot on. -/
def steerConversions (servo : Servo) (st : PypilotState) : List Conversion :=
  let st := if !st.ap.tackState then basicProcess st else st
  let (servo, st) := servo.setAutopilotEnabled st st.ap.enabled
  if st.ap.enabled then servo.pollConversions st else []

/-- `Autopilot::iteration`, where it ends. -/
def iterationConversions (m : Machine) (fuel imuUs : ℕ) (ap : Autopilot) (st : PypilotState) :
    List Conversion :=
  let (servo, read) := readSensors m imuUs ap st
  match headingError fuel read.ap.headingCommand read.ap.heading with
  | none => []
  | some error =>
    ap.readConversions st ++ steerConversions servo { read with ap.headingError := error }

end Autopilot

/-! ## What an undefined conversion gives -/

/-- The machine with another result of the conversions that do not fit. -/
def Machine.withCast (m : Machine) (wild : Real → ℕ) : Machine := { m with wildCast := wild }

/-- A conversion in range has one result. -/
theorem Conversion.InRange.toUnsigned_eq {width : ℕ} {x : Real}
    (h : (⟨width, x⟩ : Conversion).InRange) (wild wild' : Real → ℕ) :
    x.toUnsigned wild width = x.toUnsigned wild' width := by
  cases x with
  | fin q =>
    have hfits : 0 ≤ ExtRat.trunc q ∧ ExtRat.trunc q < 2 ^ width := h
    unfold ExtRat.toUnsigned
    dsimp only
    rw [if_pos hfits, if_pos hfits]
  | inf s => exact h.elim
  | nan => exact h.elim

section WithCast

variable (m : Machine) (wild : Real → ℕ)

theorem periodUs_withCast {seconds : Real} (h : AllInRange (Store.periodConversions m seconds)) :
    periodUs (m.withCast wild) seconds = periodUs m seconds := by
  unfold Store.periodConversions at h
  unfold periodUs
  split_ifs at h ⊢
  · rfl
  · exact (h _ List.mem_cons_self).toUnsigned_eq _ _

namespace Store

variable {s : Store}

theorem setReal_withCast {id : FieldId} {value : Real}
    (h : AllInRange (s.setRealConversions id value)) :
    s.setReal (m.withCast wild) id value = s.setReal m id value := by
  cases id with
  | serverPort =>
    unfold setRealConversions at h
    unfold setReal
    dsimp only at h ⊢
    split_ifs at h ⊢
    · rfl
    · rw [(h _ List.mem_cons_self).toUnsigned_eq (m.withCast wild).wildCast m.wildCast]
  | _ => rfl

theorem setFromWire_withCast {name wireValue : Text} {externalWrite : Bool}
    (h : AllInRange (s.setFromWireConversions m name wireValue externalWrite)) :
    s.setFromWire (m.withCast wild) name wireValue externalWrite =
      s.setFromWire m name wireValue externalWrite := by
  have hparse : parseReal (m.withCast wild) wireValue = parseReal m wireValue := rfl
  unfold setFromWireConversions at h
  unfold setFromWire
  cases hd : find name with
  | none => rfl
  | some d =>
    rw [hd] at h
    dsimp only at h ⊢
    split_ifs at h ⊢
    · rfl
    · cases hk : d.kind with
      | boolean | string => rfl
      | real =>
        rw [hk] at h
        dsimp only at h ⊢
        rw [hparse]
        cases hv : parseReal m wireValue with
        | none => rfl
        | some v =>
          rw [hv] at h
          exact setReal_withCast m wild h

variable {W : Type}

theorem watch_withCast {name : Text} {periodSeconds : Real}
    (h : AllInRange (s.watchConversions m name periodSeconds)) (nowUs : ℕ)
    (initialLine : Option (ValueWriter W)) (w : W) :
    s.watch (m.withCast wild) name periodSeconds nowUs initialLine w =
      s.watch m name periodSeconds nowUs initialLine w := by
  unfold watchConversions at h
  unfold watch
  cases hd : find name with
  | none => rfl
  | some d =>
    rw [hd] at h
    dsimp only at h ⊢
    by_cases hslot : (s.values.watches.toList.any (fun e => e.active && e.id = d.id) ||
        s.values.watches.toList.any fun e => !e.active) = true
    · rw [if_pos hslot] at h
      rw [periodUs_withCast m wild h]
      rfl
    · rw [Bool.or_eq_true, not_or] at hslot
      rw [if_neg hslot.1, if_neg hslot.2, if_neg hslot.1, if_neg hslot.2]
      rfl

theorem emitDueWatches_withCast {nowUs : ℕ} (h : AllInRange (s.emitDueConversions m nowUs))
    (out : ValueWriter W) (w : W) :
    s.emitDueWatches (m.withCast wild) nowUs out w = s.emitDueWatches m nowUs out w := by
  have hredue : ∀ e ∈ s.values.watches.toList,
      redue (m.withCast wild) nowUs e = redue m nowUs e := by
    intro e he
    unfold redue
    split_ifs with hdue
    · have hrange : AllInRange (periodConversions m e.periodSeconds) := fun c hc =>
        h c (List.mem_flatMap.mpr ⟨e, List.mem_filter.mpr ⟨he, hdue⟩, hc⟩)
      rw [periodUs_withCast m wild hrange]
    · rfl
  have hmap : s.values.watches.map (redue (m.withCast wild) nowUs) =
      s.values.watches.map (redue m nowUs) := by
    apply List.Vector.eq
    rw [List.Vector.toList_map, List.Vector.toList_map]
    exact List.map_congr_left hredue
  have hlines : attemptLines (m.withCast wild) out s = attemptLines m out s := rfl
  rw [emitDueWatches_eq, emitDueWatches_eq, hmap, hlines]

end Store

namespace Server

variable {W : Type} {s : Store}

theorem watchEntry_withCast {key value : Text} (h : AllInRange (entryConversions m key value s))
    (nowUs : ℕ) (out : ValueWriter W) (w : W) :
    watchEntry (m.withCast wild) key value nowUs out s w = watchEntry m key value nowUs out s w := by
  have hparse : parsePeriod (m.withCast wild) value = parsePeriod m value := rfl
  unfold entryConversions at h
  unfold watchEntry
  rw [hparse]
  generalize (if value = lit "true" then some 0 else parsePeriod m value) = period at h ⊢
  split_ifs at h ⊢
  · rfl
  · rfl
  · rfl
  · cases period with
    | none => rfl
    | some period =>
      dsimp only at h ⊢
      rw [Store.watch_withCast m wild h]

theorem watchBody_withCast {p : Text × Store × W} (h : AllInRange (roundConversions m p)) (nowUs : ℕ)
    (out : ValueWriter W) : watchBody (m.withCast wild) nowUs out p = watchBody m nowUs out p := by
  obtain ⟨expression, s, w⟩ := p
  unfold roundConversions at h
  unfold watchBody
  dsimp only at h ⊢
  cases hitem : watchItem expression with
  | entry key value rest =>
    rw [hitem] at h
    dsimp only at h ⊢
    rw [watchEntry_withCast m wild h]
  | _ => rfl

/-- **Lines of the server.** -/
theorem handleLine_withCast {line : Text} {nowUs : ℕ} {out : ValueWriter W} {w : W}
    (h : AllInRange (handleLineConversions m line nowUs out s w)) :
    handleLine (m.withCast wild) line nowUs out s w = handleLine m line nowUs out s w := by
  unfold handleLineConversions at h
  unfold handleLine
  cases hreq : request line with
  | watch expression =>
    rw [hreq] at h
    dsimp only at h ⊢
    unfold watchRounds at h
    unfold handleWatch
    dsimp only at h ⊢
    split_ifs at h ⊢
    · rfl
    · exact Loop.run_congr fun t ht => watchBody_withCast m wild
        (fun c hc => h c (List.mem_flatMap.mpr ⟨t, ht, hc⟩)) nowUs out
  | assignment name value =>
    rw [hreq] at h
    dsimp only at h ⊢
    unfold handleAssignment
    rw [Store.setFromWire_withCast m wild h]
  | _ => rfl

/-- **Polls.** -/
theorem poll_withCast {nowUs : ℕ} (h : AllInRange (pollConversions m nowUs s))
    (callbacks : PypilotState → PypilotState) (out : ValueWriter W) (w : W) :
    poll (m.withCast wild) callbacks nowUs out s w = poll m callbacks nowUs out s w := by
  have hchanged : ∀ (s : Store) (w : W),
      s.emitChangedWatches (m.withCast wild) out w = s.emitChangedWatches m out w := fun s w => rfl
  unfold poll
  dsimp only
  rw [hchanged, emitChangedWatches_eq]
  apply Store.emitDueWatches_withCast
  exact h

end Server

/-- **Lines of the client.** -/
theorem Client.handleLine_withCast {line : Text} {s : Store}
    (h : AllInRange (handleLineConversions m line s)) :
    handleLine (m.withCast wild) line s = handleLine m line s := by
  unfold handleLineConversions at h
  unfold handleLine
  cases hrecord : parseRecord line with
  | none => rfl
  | some p =>
    obtain ⟨name, json⟩ := p
    rw [hrecord] at h
    dsimp only at h ⊢
    split_ifs at h ⊢
    · rfl
    · rw [Store.setFromWire_withCast m wild h]

theorem Servo.poll_withCast {servo : Servo} {st : PypilotState}
    (h : AllInRange (servo.pollConversions st)) :
    servo.poll (m.withCast wild) st = servo.poll m st := by
  unfold pollConversions at h
  unfold poll
  split_ifs at h ⊢
  · unfold rawCommand ServoProtocol.encodeCommand
    dsimp only
    rw [(h _ List.mem_cons_self).toUnsigned_eq (m.withCast wild).wildCast m.wildCast]
  · rfl

namespace Autopilot

theorem readSensors_withCast {ap : Autopilot} {st : PypilotState}
    (h : AllInRange (ap.readConversions st)) (imuUs : ℕ) :
    readSensors (m.withCast wild) imuUs ap st = readSensors m imuUs ap st := by
  unfold readConversions at h
  unfold readSensors
  split_ifs at h ⊢
  · rw [Servo.poll_withCast m wild h]
  · rfl

theorem steer_withCast {servo : Servo} {st : PypilotState}
    (h : AllInRange (steerConversions servo st)) (rudderUs : ℕ) :
    steer (m.withCast wild) rudderUs servo st = steer m rudderUs servo st := by
  unfold steerConversions at h
  unfold steer
  generalize (if !st.ap.tackState then basicProcess st else st) = st' at h ⊢
  dsimp only at h ⊢
  split_ifs at h ⊢
  · rw [Servo.poll_withCast m wild h]
  · rfl

/-- **Iterations.** -/
theorem iteration_withCast {fuel imuUs : ℕ} {ap : Autopilot} {st : PypilotState}
    (h : AllInRange (iterationConversions m fuel imuUs ap st)) (rudderUs : ℕ) :
    iteration (m.withCast wild) fuel imuUs rudderUs ap st = iteration m fuel imuUs rudderUs ap st := by
  cases hreturns : iteration m fuel imuUs rudderUs ap st with
  | none =>
    rw [← Option.not_isSome_iff_eq_none, iteration_isSome] at hreturns ⊢
    exact hreturns
  | some r =>
    rw [iteration_eq, Option.map_eq_some_iff] at hreturns
    obtain ⟨error, herror, hsteer⟩ := hreturns
    unfold iterationConversions at h
    dsimp only at h
    rw [herror] at h
    obtain ⟨hread, hsteered⟩ := List.forall_mem_append.mp h
    rw [iteration_eq, readSensors_withCast m wild hread, herror, Option.map_some,
      steer_withCast m wild hsteered, hsteer]

end Autopilot

end WithCast

end Pypilot
