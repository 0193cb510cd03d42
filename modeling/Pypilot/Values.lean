import Pypilot.DataModel
import Pypilot.Lib.Decimal
import Pypilot.Lib.Loop
import Pypilot.Lib.SlotTable
import Pypilot.Lib.Strtof

/-!
# The value registry

`values.cpp`: the typed fields of the state under their protocol names, their text forms, and the
watches. The registry holds a pointer to the state it is attached to; a `Store` is the two together.
Clock readings and due times are counted in microseconds without the wrap at 64 bits.
-/

namespace Pypilot

open Text

/-! ## Writers -/

/-- `ValueWriter`: takes text and reports whether it did. -/
structure ValueWriter (W : Type) where
  write : Text → W → Bool × W

/-- `StringValueWriter`: appends to a string and never fails. -/
def StringValueWriter : ValueWriter Text := ⟨fun text out => (true, out ++ text)⟩

/-- Writes joined by `&&`: the first that fails ends the chain. -/
def putAll {W : Type} : List (W → Bool × W) → W → Bool × W
  | [], w => (true, w)
  | put :: puts, w => if (put w).1 then putAll puts (put w).2 else (false, (put w).2)

/-- The first `text.length` bytes of a buffer of `cap` bytes into which `snprintf` put `text`: where
the text does not fit, its terminator and then whatever lies behind the buffer are read as well. -/
def readBuffer (m : Machine) (cap : ℕ) (text : Text) : Text :=
  if text.length < cap then text
  else text.take (cap - 1) ++ 0 :: (List.range (text.length - cap)).map m.behind

namespace ValueWriter

variable {W : Type} (out : ValueWriter W)

def writeChar (c : Byte) : W → Bool × W := out.write [c]

def writeBool (value : Bool) : W → Bool × W :=
  out.write (if value then lit "true" else lit "false")

def writeReal (m : Machine) (value : Real) : W → Bool × W :=
  out.write (readBuffer m 32 (Decimal.render 4 value))

def writeJsonString (text : Text) : W → Bool × W :=
  putAll ([out.writeChar (chr '"')] ++
    text.flatMap (fun c =>
      (if c = chr '"' ∨ c = chr '\\' then [out.writeChar (chr '\\')] else []) ++
        [out.writeChar c]) ++
    [out.writeChar (chr '"')])

end ValueWriter

/-! ## Fields -/

inductive FieldId
  | serverRunning | serverPort | apEnabled | apMode | apPilot | apHeading
  | apHeadingCommand | apHeadingError | apCommand | rudderAngle
  | rudderOffset | rudderRange | servoCommand | servoCurrent | servoVoltage
  | servoEngaged | servoFault
  deriving DecidableEq

namespace FieldId

/-- The fields in the order of the enumeration. -/
def all : List FieldId :=
  [serverRunning, serverPort, apEnabled, apMode, apPilot, apHeading, apHeadingCommand,
    apHeadingError, apCommand, rudderAngle, rudderOffset, rudderRange, servoCommand, servoCurrent,
    servoVoltage, servoEngaged, servoFault]

@[simp] theorem mem_all (id : FieldId) : id ∈ all := by cases id <;> decide

theorem all_nodup : all.Nodup := by decide

end FieldId

inductive Kind
  | real | boolean | string
  deriving DecidableEq

/-- The part of a field's metadata that the program uses, and the declared range. -/
structure Info where
  type : Text := lit "Value"
  writable : Bool := false
  hasMin : Bool := false
  hasMax : Bool := false
  minValue : Real := 0
  maxValue : Real := 0
  deriving DecidableEq

structure Descriptor where
  name : Text
  id : FieldId
  kind : Kind
  info : Info
  deriving DecidableEq

def fields : List Descriptor :=
  [ ⟨lit "server.running", .serverRunning, .boolean, { type := lit "BooleanValue" }⟩,
    ⟨lit "server.port", .serverPort, .real, {}⟩,
    ⟨lit "ap.enabled", .apEnabled, .boolean, { type := lit "BooleanProperty", writable := true }⟩,
    ⟨lit "ap.mode", .apMode, .string, { type := lit "EnumProperty", writable := true }⟩,
    ⟨lit "ap.pilot", .apPilot, .string, { type := lit "EnumProperty", writable := true }⟩,
    ⟨lit "ap.heading", .apHeading, .real, { type := lit "SensorValue" }⟩,
    ⟨lit "ap.heading_command", .apHeadingCommand, .real,
      { type := lit "RangeProperty", writable := true, hasMin := true, hasMax := true,
        minValue := 0, maxValue := 360 }⟩,
    ⟨lit "ap.heading_error", .apHeadingError, .real, { type := lit "SensorValue" }⟩,
    ⟨lit "ap.command", .apCommand, .real, { type := lit "SensorValue" }⟩,
    ⟨lit "rudder.angle", .rudderAngle, .real, { type := lit "SensorValue" }⟩,
    ⟨lit "rudder.offset", .rudderOffset, .real,
      { type := lit "RangeProperty", writable := true }⟩,
    ⟨lit "rudder.range", .rudderRange, .real, { type := lit "RangeProperty", writable := true }⟩,
    ⟨lit "servo.command", .servoCommand, .real,
      { type := lit "RangeProperty", writable := true, hasMin := true, hasMax := true,
        minValue := -1, maxValue := 1 }⟩,
    ⟨lit "servo.current", .servoCurrent, .real, { type := lit "SensorValue" }⟩,
    ⟨lit "servo.voltage", .servoVoltage, .real, { type := lit "SensorValue" }⟩,
    ⟨lit "servo.engaged", .servoEngaged, .boolean, { type := lit "BooleanValue" }⟩,
    ⟨lit "servo.fault", .servoFault, .boolean, { type := lit "BooleanValue" }⟩ ]

def find (name : Text) : Option Descriptor := fields.find? fun d => name = d.name

/-- The descriptor of a field; every field has one. -/
def descriptor (id : FieldId) : Option Descriptor := fields.find? fun d => d.id = id

/-! ## Text forms -/

/-- The value of a numeric text: the longest literal at the front of its first 31 bytes. -/
def parseReal (m : Machine) (s : Text) : Option Real :=
  (Strtof.strtof (s.take 31)).map fun p => m.toReal p.1

def parseBool (s : Text) : Option Bool :=
  if s = lit "true" ∨ s = lit "True" ∨ s = lit "1" then some true
  else if s = lit "false" ∨ s = lit "False" ∨ s = lit "0" then some false
  else none

def stripQuotes (s : Text) : Text :=
  if 2 ≤ s.length ∧ s.head? = some (chr '"') ∧ s.getLast? = some (chr '"') then
    (s.drop 1).take (s.length - 2)
  else s

/-- `period_us`: the product is a `float`, so the period may come out longer than it is. -/
def periodUs (m : Machine) (seconds : Real) : ℕ :=
  if seconds ≤ 0 then 0 else (m.toReal (seconds * 1000000)).toUnsigned m.wildCast 64

/-! ## The registry -/

def maxWatches : ℕ := 64

structure Watch where
  active : Bool := false
  id : FieldId := .serverRunning
  periodSeconds : Real := 0
  nextDueUs : ℕ := 0
  deriving DecidableEq

structure ValueRegistry where
  attached : Bool := false
  watches : List.Vector Watch maxWatches := List.Vector.replicate maxWatches {}
  dirty : FieldId → Bool := fun _ => false

/-- The state and the registry over it. -/
structure Store where
  state : PypilotState := {}
  values : ValueRegistry := {}

namespace Store

/-- `read_real` by id. An angle that is not valid is not read. -/
def readReal (s : Store) (id : FieldId) : Option Real :=
  if !s.values.attached then none
  else match id with
    | .serverPort => some (.fin s.state.server.port)
    | .apHeading => some s.state.ap.heading
    | .apHeadingCommand => some s.state.ap.headingCommand
    | .apHeadingError => some s.state.ap.headingError
    | .apCommand => some s.state.ap.command
    | .rudderAngle => if s.state.rudder.angle.valid then some s.state.rudder.angle.value else none
    | .rudderOffset => some s.state.rudder.offset
    | .rudderRange => some s.state.rudder.range
    | .servoCommand => some s.state.servo.command
    | .servoCurrent => some s.state.servo.current
    | .servoVoltage => some s.state.servo.voltage
    | _ => none

def readBool (s : Store) (id : FieldId) : Option Bool :=
  if !s.values.attached then none
  else match id with
    | .serverRunning => some s.state.server.running
    | .apEnabled => some s.state.ap.enabled
    | .servoEngaged => some s.state.servo.engaged
    | .servoFault => some s.state.servo.fault
    | _ => none

def readString (s : Store) (id : FieldId) : Option Text :=
  if !s.values.attached then none
  else match id with
    | .apMode => some s.state.ap.mode
    | .apPilot => some s.state.ap.pilot
    | _ => none

def markDirty (s : Store) (id : FieldId) : Store :=
  { s with values := { s.values with dirty := Function.update s.values.dirty id true } }

/-- `set_real` by id: whether the field was set, and the store after it. -/
def setReal (m : Machine) (s : Store) (id : FieldId) (value : Real) : Bool × Store :=
  let st := s.state
  let set (state : PypilotState) : Bool × Store := (true, { s with state := state }.markDirty id)
  if !s.values.attached then (false, s)
  else match id with
    | .serverPort => set { st with server.port := value.toUnsigned m.wildCast 16 }
    | .apHeading => set { st with ap.heading := value }
    | .apHeadingCommand => set { st with ap.headingCommand := value }
    | .apHeadingError => set { st with ap.headingError := value }
    | .apCommand => set { st with ap.command := value }
    | .rudderAngle => set { st with rudder.angle.value := value, rudder.angle.valid := true }
    | .rudderOffset => set { st with rudder.offset := value }
    | .rudderRange => set { st with rudder.range := value }
    | .servoCommand => set { st with servo.command := value }
    | .servoCurrent => set { st with servo.current := value }
    | .servoVoltage => set { st with servo.voltage := value }
    | _ => (false, s)

def setBool (s : Store) (id : FieldId) (value : Bool) : Bool × Store :=
  let st := s.state
  let set (state : PypilotState) : Bool × Store := (true, { s with state := state }.markDirty id)
  if !s.values.attached then (false, s)
  else match id with
    | .serverRunning => set { st with server.running := value }
    | .apEnabled => set { st with ap.enabled := value }
    | .servoEngaged => set { st with servo.engaged := value }
    | .servoFault => set { st with servo.fault := value }
    | _ => (false, s)

def setString (s : Store) (id : FieldId) (value : Text) : Bool × Store :=
  let st := s.state
  let set (state : PypilotState) : Bool × Store := (true, { s with state := state }.markDirty id)
  if !s.values.attached then (false, s)
  else match id with
    | .apMode => set { st with ap.mode := value }
    | .apPilot => set { st with ap.pilot := value }
    | _ => (false, s)

/-- `set_from_wire`. Only here does `external_write` ask whether the field is writable. -/
def setFromWire (m : Machine) (s : Store) (name wireValue : Text) (externalWrite : Bool) :
    Bool × Store :=
  match find name with
  | none => (false, s)
  | some d =>
    if externalWrite && !d.info.writable then (false, s)
    else match d.kind with
      | .real =>
        match parseReal m wireValue with
        | some v => s.setReal m d.id v
        | none => (false, s)
      | .boolean =>
        match parseBool wireValue with
        | some v => s.setBool d.id v
        | none => (false, s)
      | .string => s.setString d.id (stripQuotes wireValue)

/-! ## Output -/

section Output

variable {W : Type} (m : Machine) (s : Store)

def writeValue (name : Text) (out : ValueWriter W) (w : W) : Bool × W :=
  match find name with
  | none => (false, w)
  | some d =>
    match d.kind with
    | .real =>
      match s.readReal d.id with
      | some r => out.writeReal m r w
      | none => (false, w)
    | .boolean =>
      match s.readBool d.id with
      | some b => out.writeBool b w
      | none => (false, w)
    | .string =>
      match s.readString d.id with
      | some t => out.writeJsonString t w
      | none => (false, w)

/-- The name goes out before the value is read. -/
def writeValueLine (id : FieldId) (out : ValueWriter W) (w : W) : Bool × W :=
  match descriptor id with
  | none => (false, w)
  | some d =>
    putAll [out.write d.name, out.writeChar (chr '='), s.writeValue m d.name out,
      out.writeChar (chr '\n')] w

def writeInfoJson (id : FieldId) (out : ValueWriter W) (w : W) : Bool × W :=
  match descriptor id with
  | none => (false, w)
  | some d =>
    putAll ([out.write (lit "\x7b\"type\":"), out.writeJsonString d.info.type] ++
      (if d.info.writable then [out.write (lit ",\"writable\":true")] else []) ++
      [out.writeChar (chr '\x7d')]) w

/-- The listing of all fields: a comma stands before every entry but the first. -/
def writeValuesJson (out : ValueWriter W) : W → Bool × W :=
  let entry (d : Descriptor) : List (W → Bool × W) :=
    [out.writeJsonString d.name, out.writeChar (chr ':'), writeInfoJson d.id out]
  let entries : List (W → Bool × W) :=
    match fields with
    | [] => []
    | d :: ds => entry d ++ ds.flatMap fun d => out.writeChar (chr ',') :: entry d
  putAll ([out.writeChar (chr '\x7b')] ++ entries ++ [out.writeChar (chr '\x7d')])

end Output

/-! ## Watches -/

section Watches

variable {W : Type} (m : Machine)

/-- `watch`: the initial line, then the entry of the field or the first free entry. -/
def watch (s : Store) (name : Text) (periodSeconds : Real) (nowUs : ℕ)
    (initialLine : Option (ValueWriter W)) (w : W) : Bool × Store × W :=
  match find name with
  | none => (false, s, w)
  | some d =>
    let w' := match initialLine with
      | some out => (s.writeValueLine m d.id out w).2
      | none => w
    let entry (e : Watch) : Watch :=
      { e with active := true, id := d.id, periodSeconds := periodSeconds,
               nextDueUs := nowUs + periodUs m periodSeconds }
    let held (e : Watch) : Bool := e.active && e.id = d.id
    let free (e : Watch) : Bool := !e.active
    let put (p : Watch → Bool) : Store :=
      { s with values := { s.values with watches := SlotTable.update p entry s.values.watches } }
    if s.values.watches.toList.any held then (true, put held, w')
    else if s.values.watches.toList.any free then (true, put free, w')
    else (false, s, w')

def unwatch (s : Store) (name : Text) : Bool × Store :=
  match find name with
  | none => (false, s)
  | some d =>
    let drop (e : Watch) : Watch :=
      if e.active && e.id = d.id then { e with active := false } else e
    (true, { s with values := { s.values with watches := s.values.watches.map drop } })

/-- An entry that `emit_changed_watches` looks for. -/
def immediate (id : FieldId) (e : Watch) : Bool := e.active && e.id = id && e.periodSeconds.feq 0

/-- One field of `emit_changed_watches`. -/
def emitChanged (out : ValueWriter W) (p : Store × W) (id : FieldId) : Store × W :=
  let (s, w) := p
  if !s.values.dirty id then (s, w)
  else
    let w' := if s.values.watches.toList.any (immediate id) then (s.writeValueLine m id out w).2
      else w
    ({ s with values := { s.values with dirty := Function.update s.values.dirty id false } }, w')

def emitChangedWatches (s : Store) (out : ValueWriter W) (w : W) : Store × W :=
  FieldId.all.foldl (emitChanged m out) (s, w)

/-- `do { next_due_us += period; } while (period && now_us >= next_due_us)`. -/
def advanceBody (period nowUs due : ℕ) : ℕ ⊕ ℕ :=
  if period ≠ 0 ∧ due + period ≤ nowUs then .inl (due + period) else .inr (due + period)

theorem advanceBody_variant (period nowUs : ℕ) :
    Loop.Variant (advanceBody period nowUs) fun due => nowUs + 1 - due := by
  intro due due' h
  unfold advanceBody at h
  split_ifs at h with hc
  have := Sum.inl.inj h
  dsimp only
  omega

def advance (period nowUs due : ℕ) : ℕ :=
  Loop.run (advanceBody period nowUs) (fun due => nowUs + 1 - due)
    (advanceBody_variant period nowUs) due

/-- An entry that `emit_due_watches` writes. -/
def isDue (nowUs : ℕ) (e : Watch) : Bool :=
  e.active && !(decide (e.periodSeconds ≤ 0)) && decide (e.nextDueUs ≤ nowUs)

def emitDueWatches (s : Store) (nowUs : ℕ) (out : ValueWriter W) (w : W) : Store × W :=
  let visit (e : Watch) (w : W) : Watch × W :=
    if isDue nowUs e then
      ({ e with nextDueUs := advance (periodUs m e.periodSeconds) nowUs e.nextDueUs },
        (s.writeValueLine m e.id out w).2)
    else (e, w)
  let (watches, w') := SlotTable.sweep visit s.values.watches w
  ({ s with values := { s.values with watches := watches } }, w')

end Watches

end Store

end Pypilot
