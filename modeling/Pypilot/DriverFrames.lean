import Pypilot.DriverStream
import Pypilot.Lib.Run
import Pypilot.Servo

/-!
# The stream to the driver

Every operation of the servo puts whole frames on the queue, or none, and the queue is emptied as a whole.
So what has been taken and what is still queued are together the frames of the packets issued, and these
can be decoded (`driver_stream_frames`).
-/

namespace Pypilot

open Text ServoProtocol

/-! ## Commands -/

/-- The value in the frame of a command. -/
def commandValue (m : Machine) (command : Real) : ℕ :=
  ((ExtRat.clamp command (-1) 1 + 1) * 1000).toUnsigned m.wildCast 16

theorem encodeCommand_eq (m : Machine) (command : Real) :
    encodeCommand m command = encode commandCode (commandValue m command) := rfl

section Commands

variable (m : Machine)

theorem commandValue_of_clamp {command : Real} {q : ℚ}
    (h : ExtRat.clamp command (-1) 1 = .fin q) (hlow : -1 ≤ q) (hhigh : q ≤ 1) :
    commandValue m command = ⌊(q + 1) * 1000⌋₊ := by
  have hnonneg : 0 ≤ (q + 1) * 1000 := by linarith
  have hfits : (q + 1) * 1000 < 2 ^ 16 := by linarith
  unfold commandValue
  rw [h]
  exact ExtRat.toUnsigned_fin m.wildCast hnonneg hfits

theorem commandValue_fin (q : ℚ) :
    commandValue m (.fin q) = ⌊(max (-1) (min 1 q) + 1) * 1000⌋₊ :=
  commandValue_of_clamp m (ExtRat.clamp_fin (by norm_num) q) (le_max_left _ _)
    (max_le (by norm_num) (min_le_left _ _))

theorem clamp_ne_nan {command : Real} (h : command ≠ .nan) : ExtRat.clamp command (-1) 1 ≠ .nan := by
  obtain ⟨q, hq, -⟩ := ExtRat.exists_clamp (show (-1 : ℚ) ≤ 1 by norm_num) h
  have hclamp : ExtRat.clamp command (-1) 1 = .fin q := hq
  rw [hclamp]
  simp

/-- The value of a number is in the range of the protocol. -/
theorem commandValue_le {command : Real} (h : command ≠ .nan) : commandValue m command ≤ 2000 := by
  obtain ⟨q, hq, hlow, hhigh⟩ := ExtRat.exists_clamp (show (-1 : ℚ) ≤ 1 by norm_num) h
  rw [commandValue_of_clamp m hq hlow hhigh]
  refine Nat.floor_le_of_le ?_
  push_cast
  linarith

end Commands

/-! ## Frame by frame -/

/-- The packets of a stream read four bytes at a time; `none` when a step is no frame or bytes are left. -/
def decodeFrames : Text → Option (List Packet)
  | [] => some []
  | b₀ :: b₁ :: b₂ :: b₃ :: rest =>
    match decode b₀ b₁ b₂ b₃ with
    | none => none
    | some p => (decodeFrames rest).map (p :: ·)
  | _ => none

theorem decodeFrames_frames {ps : List Packet} (hps : ∀ p ∈ ps, p.value < 2 ^ 16) :
    decodeFrames (frames ps) = some ps := by
  induction ps with
  | nil => rfl
  | cons p ps ih =>
    rw [List.forall_mem_cons] at hps
    have hfront := decode_encode p.code hps.1
    have hcons : decodeFrames (encode p.code p.value ++ frames ps) =
        match frontPacket (encode p.code p.value) with
        | none => none
        | some p => (decodeFrames (frames ps)).map (p :: ·) := rfl
    show decodeFrames (encode p.code p.value ++ frames ps) = _
    rw [hcons, hfront, ih hps.2]
    rfl

/-! ## Operations -/

/-- A call of the servo, or a change of the state by others. -/
inductive ServoOp
  | command (value : Real)
  | rawCommand (value : Real)
  | stop
  | reset
  | disengage
  | setAutopilotEnabled (e : Bool)
  | poll
  | feedDriverBytes (bytes : Text) (nowUs : ℕ)
  | takeDriverTx
  | change (f : PypilotState → PypilotState)

namespace ServoOp

variable (m : Machine) (p : Servo × PypilotState)

def step : ServoOp → Servo × PypilotState
  | command value => (p.1, Servo.command p.2 value)
  | rawCommand value => p.1.rawCommand m p.2 value
  | stop => p.1.stop m p.2
  | reset => (p.1.reset, p.2)
  | disengage => p.1.disengage p.2
  | setAutopilotEnabled e => p.1.setAutopilotEnabled p.2 e
  | poll => p.1.poll m p.2
  | feedDriverBytes bytes nowUs => (p.1.feedDriverBytes p.2 bytes nowUs).2
  | takeDriverTx => (p.1.takeDriverTx.2, p.2)
  | change f => (p.1, f p.2)

/-- The bytes that the call returns to the driver. -/
def taken : ServoOp → Text
  | takeDriverTx => p.1.takeDriverTx.1
  | _ => []

/-- The packets that the call issues. -/
def issued : ServoOp → List Packet
  | rawCommand value => [⟨commandCode, commandValue m (ExtRat.clamp value (-1) 1)⟩]
  | stop => [⟨commandCode, commandValue m (ExtRat.clamp 0 (-1) 1)⟩]
  | reset => [⟨resetCode, 0⟩]
  | disengage => [⟨disengageCode, 0⟩]
  | poll =>
    if p.1.apEnabled then [⟨commandCode, commandValue m (ExtRat.clamp p.2.servo.command (-1) 1)⟩]
    else [⟨disengageCode, 0⟩]
  | _ => []

/-- The command that the call is given, or finds in the state, is a number. -/
def Numeric : ServoOp → Prop
  | command value | rawCommand value => value ≠ .nan
  | poll => p.2.servo.command ≠ .nan
  | _ => True

theorem frames_singleton (packet : Packet) : frames [packet] = encode packet.code packet.value :=
  List.append_nil _

/-- **One operation.** What leaves the queue and what stays is what was queued and what is issued. -/
theorem taken_append_tx (op : ServoOp) :
    op.taken p ++ (op.step m p).1.tx = p.1.tx ++ frames (op.issued m p) := by
  cases op with
  | command value | setAutopilotEnabled e | change f => exact (List.append_nil _).symm
  | feedDriverBytes bytes nowUs => exact (List.append_nil _).symm
  | takeDriverTx => rfl
  | rawCommand value | stop | reset | disengage =>
    unfold issued
    rw [frames_singleton]
    rfl
  | poll =>
    unfold step taken issued Servo.poll
    split_ifs <;> (rw [frames_singleton]; rfl)

/-- The value of a packet fits its field, and that of a command is in the range of the protocol. -/
theorem issued_spec {op : ServoOp} (hnumeric : op.Numeric p) :
    ∀ packet ∈ op.issued m p,
      packet.value < 2 ^ 16 ∧ (packet.code = commandCode → packet.value ≤ 2000) := by
  have hcommand : ∀ {value : Real}, value ≠ .nan →
      commandValue m (ExtRat.clamp value (-1) 1) ≤ 2000 := fun h => commandValue_le m (clamp_ne_nan h)
  have hsingle : ∀ {value : Real}, value ≠ .nan →
      ∀ packet ∈ [(⟨commandCode, commandValue m (ExtRat.clamp value (-1) 1)⟩ : Packet)],
        packet.value < 2 ^ 16 ∧ (packet.code = commandCode → packet.value ≤ 2000) := by
    intro value h packet hpacket
    have hle := hcommand h
    rw [List.mem_singleton.mp hpacket]
    exact ⟨by dsimp only; omega, fun _ => hle⟩
  have hzero : ∀ {code : Byte}, ∀ packet ∈ [(⟨code, 0⟩ : Packet)],
      packet.value < 2 ^ 16 ∧ (packet.code = commandCode → packet.value ≤ 2000) := by
    intro code packet hpacket
    rw [List.mem_singleton.mp hpacket]
    exact ⟨Nat.two_pow_pos 16, fun _ => Nat.zero_le _⟩
  cases op with
  | command value | setAutopilotEnabled e | change f => exact fun _ h => absurd h List.not_mem_nil
  | feedDriverBytes bytes nowUs => exact fun _ h => absurd h List.not_mem_nil
  | takeDriverTx => exact fun _ h => absurd h List.not_mem_nil
  | rawCommand value => exact hsingle hnumeric
  | stop => exact hsingle (by decide)
  | reset | disengage => exact hzero
  | poll =>
    unfold issued
    split_ifs
    · exact hsingle hnumeric
    · exact hzero

/-- **Runs.** All that has been taken, and what is still queued. -/
theorem steps_taken_append_tx (ops : List ServoOp) :
    ((Run.steps (step m) p ops).flatMap fun q => q.2.taken q.1) ++ (ops.foldl (step m) p).1.tx =
      p.1.tx ++ frames ((Run.steps (step m) p ops).flatMap fun q => q.2.issued m q.1) := by
  induction ops generalizing p with
  | nil => exact (List.append_nil _).symm
  | cons op ops ih =>
    have happend : ∀ ps qs : List Packet, frames (ps ++ qs) = frames ps ++ frames qs := fun _ _ =>
      List.flatMap_append
    rw [Run.steps, List.flatMap_cons, List.flatMap_cons, List.foldl_cons, List.append_assoc, ih,
      ← List.append_assoc, taken_append_tx, happend, List.append_assoc]

end ServoOp

/-- The packet that the constructor issues. -/
theorem create_tx (m : Machine) (st : PypilotState) :
    (Servo.create m st).1.tx = frames [⟨commandCode, 1000⟩] := by
  have hzero : ExtRat.clamp 0 (-1) 1 = .fin 0 := by decide
  have hvalue : commandValue m (ExtRat.clamp 0 (-1) 1) = 1000 := by
    rw [hzero, commandValue_fin]
    norm_num
  have htx : (Servo.create m st).1.tx =
      [] ++ encode commandCode (commandValue m (ExtRat.clamp 0 (-1) 1)) := rfl
  rw [htx, hvalue, ServoOp.frames_singleton, List.nil_append]

/-- **The stream to the driver.** In every run of a new servo, with numbers for commands, what has been taken
followed by what is queued is the frames of the packets issued, the constructor's first; it decodes to
these packets, and the value of a command is at most 2000. -/
theorem driver_stream_frames (m : Machine) (st : PypilotState) (ops : List ServoOp)
    (hnumeric : ∀ q ∈ Run.steps (ServoOp.step m) (Servo.create m st) ops, q.2.Numeric q.1) :
    let steps := Run.steps (ServoOp.step m) (Servo.create m st) ops
    let stream := (steps.flatMap fun q => q.2.taken q.1) ++
      (ops.foldl (ServoOp.step m) (Servo.create m st)).1.tx
    let issued := ⟨commandCode, 1000⟩ :: steps.flatMap fun q => q.2.issued m q.1
    stream = frames issued ∧ decodeFrames stream = some issued ∧
      ∀ packet ∈ issued, packet.code = commandCode → packet.value ≤ 2000 := by
  intro steps stream issued
  have hstream : stream = frames issued := by
    show (steps.flatMap fun q => q.2.taken q.1) ++ _ = _
    rw [ServoOp.steps_taken_append_tx, create_tx]
    rfl
  have hspec : ∀ packet ∈ issued,
      packet.value < 2 ^ 16 ∧ (packet.code = commandCode → packet.value ≤ 2000) := by
    intro packet hpacket
    rcases List.mem_cons.mp hpacket with rfl | hpacket
    · exact ⟨by decide, fun _ => by decide⟩
    · obtain ⟨q, hq, hpacket⟩ := List.mem_flatMap.mp hpacket
      exact ServoOp.issued_spec m q.1 (hnumeric q hq) packet hpacket
  refine ⟨hstream, ?_, fun packet hpacket => (hspec packet hpacket).2⟩
  rw [hstream]
  exact decodeFrames_frames fun packet hpacket => (hspec packet hpacket).1

/-- A command and a poll with the autopilot on, taken in two parts. -/
theorem driver_stream_frames_poll :
    let ops := [ServoOp.rawCommand 1, .takeDriverTx, .setAutopilotEnabled true, .poll, .stop]
    let steps := Run.steps (ServoOp.step default) (Servo.create default {}) ops
    decodeFrames ((steps.flatMap fun q => q.2.taken q.1) ++
        (ops.foldl (ServoOp.step default) (Servo.create default {})).1.tx) =
      some [⟨commandCode, 1000⟩, ⟨commandCode, 2000⟩, ⟨commandCode, 1000⟩, ⟨commandCode, 1000⟩] := by
  intro ops steps
  have hnumeric : ∀ q ∈ steps, q.2.Numeric q.1 := by
    simp [steps, ops, Run.steps, ServoOp.Numeric]
    decide +kernel
  have hissued : (⟨commandCode, 1000⟩ :: steps.flatMap fun q => q.2.issued default q.1) =
      [⟨commandCode, 1000⟩, ⟨commandCode, 2000⟩, ⟨commandCode, 1000⟩, ⟨commandCode, 1000⟩] := by
    decide +kernel
  rw [← hissued]
  exact (driver_stream_frames default {} ops hnumeric).2.1

end Pypilot
