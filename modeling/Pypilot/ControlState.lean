import Pypilot.ServerOutput
import Pypilot.Lib.Run

/-!
# The server and the control state

The server owns no control state: its lines and polls change the state in the writable fields only, and
what becomes of the state depends on nothing but the accepted assignments. So the calls that are none can
be deleted from a run (`control_state_of_accepted`).
-/

namespace Pypilot

open Text Server

variable {W : Type}

/-- A call of the server. No callbacks of other components run in the polls. -/
inductive ControlCall
  | line (text : Text) (nowUs : ℕ)
  | poll (nowUs : ℕ)
  deriving DecidableEq

/-- The state `st` with the writable fields of `src`. -/
def adoptSettings (src st : PypilotState) : PypilotState :=
  { st with
    ap.enabled := src.ap.enabled, ap.mode := src.ap.mode, ap.pilot := src.ap.pilot,
    ap.headingCommand := src.ap.headingCommand, rudder.offset := src.rudder.offset,
    rudder.range := src.rudder.range, servo.command := src.servo.command }

theorem adoptSettings_self (st : PypilotState) : adoptSettings st st = st := rfl

/-- The writable fields are adopted, and the other fields are kept. -/
theorem adoptSettings_sameField (src st : PypilotState) (values : ValueRegistry) (id : FieldId) :
    Store.SameField ⟨if id.entry.info.writable then src else st, values⟩
      ⟨adoptSettings src st, values⟩ id := by
  cases id <;> exact ⟨rfl, rfl, rfl⟩

/-! ## Frames -/

section Frames

variable (m : Machine)

theorem setFromWire_adopts (s : Store) (name wireValue : Text) :
    (s.setFromWire m name wireValue true).2.state =
      adoptSettings (s.setFromWire m name wireValue true).2.state s.state := by
  unfold Store.setFromWire
  cases hd : find name with
  | none => rfl
  | some d =>
    dsimp only
    split_ifs with hreadonly
    · rfl
    · obtain ⟨hentry, -⟩ := find_eq_some hd
      have hwritable : d.id.entry.info.writable = true := by
        rw [← hentry]
        simpa using hreadonly
      generalize d.id = id at hwritable ⊢
      cases d.kind with
      | real =>
        cases parseReal m wireValue with
        | none => rfl
        | some v =>
          unfold Store.setReal
          dsimp only
          split_ifs
          · rfl
          · cases id <;> first | rfl | exact absurd hwritable (by decide)
      | boolean =>
        cases parseBool wireValue with
        | none => rfl
        | some v =>
          unfold Store.setBool
          dsimp only
          split_ifs
          · rfl
          · cases id <;> first | rfl | exact absurd hwritable (by decide)
      | string =>
        unfold Store.setString
        dsimp only
        split_ifs
        · rfl
        · cases id <;> rfl

section Congruence

variable {s s' : Store} (hstate : s'.state = s.state)
  (hattached : s'.values.attached = s.values.attached)

include hstate hattached

theorem setReal_state_congr (id : FieldId) (value : Real) :
    (s'.setReal m id value).2.state = (s.setReal m id value).2.state := by
  unfold Store.setReal
  dsimp only
  rw [hstate, hattached]
  split_ifs
  · exact hstate
  · cases id <;> first | rfl | exact hstate

theorem setBool_state_congr (id : FieldId) (value : Bool) :
    (s'.setBool id value).2.state = (s.setBool id value).2.state := by
  unfold Store.setBool
  dsimp only
  rw [hstate, hattached]
  split_ifs
  · exact hstate
  · cases id <;> first | rfl | exact hstate

theorem setString_state_congr (id : FieldId) (value : Text) :
    (s'.setString id value).2.state = (s.setString id value).2.state := by
  unfold Store.setString
  dsimp only
  rw [hstate, hattached]
  split_ifs
  · exact hstate
  · cases id <;> first | rfl | exact hstate

/-- What an assignment does to the state depends on the state alone. -/
theorem setFromWire_state_congr (name wireValue : Text) (externalWrite : Bool) :
    (s'.setFromWire m name wireValue externalWrite).2.state =
      (s.setFromWire m name wireValue externalWrite).2.state := by
  unfold Store.setFromWire
  cases find name with
  | none => exact hstate
  | some d =>
    dsimp only
    split_ifs
    · exact hstate
    · cases d.kind with
      | real =>
        cases parseReal m wireValue with
        | none => exact hstate
        | some v => exact setReal_state_congr m hstate hattached d.id v
      | boolean =>
        cases parseBool wireValue with
        | none => exact hstate
        | some v => exact setBool_state_congr hstate hattached d.id v
      | string => exact setString_state_congr hstate hattached d.id (stripQuotes wireValue)

end Congruence

/-- A poll without callbacks leaves the state alone, whatever the writer does. -/
theorem poll_frame (nowUs : ℕ) (out : ValueWriter W) (s : Store) (w : W) :
    (poll m id nowUs out s w).1.state = s.state ∧
      (poll m id nowUs out s w).1.values.attached = s.values.attached := by
  rw [poll_eq]
  exact ⟨rfl, rfl⟩

end Frames

/-! ## Runs -/

namespace ControlCall

variable (m : Machine)

def step (out : ValueWriter W) (p : Store × W) : ControlCall → Store × W
  | line text nowUs => (handleLine m text nowUs out p.1 p.2).2
  | poll nowUs => Server.poll m id nowUs out p.1 p.2

/-- The text with which the server answers a line. -/
def answer (s : Store) (text : Text) (nowUs : ℕ) : Text :=
  (handleLine m text nowUs StringValueWriter s []).2.2

/-- The line is a watch, a values or a udp_port request. -/
def isQuery (text : Text) : Bool :=
  match request text with
  | .watch _ | .values | .udpPort => true
  | _ => false

/-- A line that is no query and is not answered with an error. -/
def accepted (s : Store) : ControlCall → Bool
  | line text nowUs => !isQuery text && !(lit "error=").isPrefixOf (answer m s text nowUs)
  | poll _ => false

/-- The accepted calls of a run. -/
def acceptedCalls (out : ValueWriter W) (p : Store × W) (calls : List ControlCall) :
    List ControlCall :=
  ((Run.steps (step m out) p calls).filter fun q => accepted m q.1.1 q.2).map Prod.snd

section Step

variable (out : ValueWriter W) (p : Store × W) (call : ControlCall)

theorem step_attached : (call.step m out p).1.values.attached = p.1.values.attached := by
  cases call with
  | line text nowUs => exact handleLine_attached m text nowUs out p.1 p.2
  | poll nowUs => exact (poll_frame m nowUs out p.1 p.2).2

/-- A call changes writable fields only. -/
theorem step_adopts :
    (call.step m out p).1.state = adoptSettings (call.step m out p).1.state p.1.state := by
  cases call with
  | line text nowUs =>
    show (handleLine m text nowUs out p.1 p.2).2.1.state =
      adoptSettings (handleLine m text nowUs out p.1 p.2).2.1.state p.1.state
    rcases handleLine_cases m text nowUs out p.1 p.2 with ⟨name, value, -, hset⟩ | ⟨-, h⟩
    · rw [hset]
      exact setFromWire_adopts m p.1 name value
    · rw [h.state, adoptSettings_self]
  | poll nowUs =>
    show (Server.poll m id nowUs out p.1 p.2).1.state =
      adoptSettings (Server.poll m id nowUs out p.1 p.2).1.state p.1.state
    rw [(poll_frame m nowUs out p.1 p.2).1, adoptSettings_self]

variable {p call} in
/-- A call that is not accepted leaves the state alone. -/
theorem step_not_accepted (h : accepted m p.1 call = false) :
    (call.step m out p).1.state = p.1.state := by
  cases call with
  | poll nowUs => exact (poll_frame m nowUs out p.1 p.2).1
  | line text nowUs =>
    show (handleLine m text nowUs out p.1 p.2).2.1.state = p.1.state
    rcases handleLine_cases m text nowUs out p.1 p.2 with ⟨name, value, hreq, hset⟩ | ⟨-, hsame⟩
    · rw [hset]
      rcases Store.setFromWire_cases m p.1 name value true with hfail | ⟨-, -, hok, -⟩
      · rw [hfail]
      · -- an assignment that succeeds is not answered
        have hanswer : answer m p.1 text nowUs = [] := by
          unfold answer handleLine
          rw [hreq]
          show (handleAssignment m name value StringValueWriter p.1 []).2.2 = _
          unfold handleAssignment
          dsimp only
          rw [if_pos hok]
        have hquery : isQuery text = false := by
          unfold isQuery
          rw [hreq]
        have hno : (!isQuery text && !(lit "error=").isPrefixOf (answer m p.1 text nowUs)) = false := h
        rw [hanswer, hquery] at hno
        exact absurd hno (by decide)
    · exact hsame.state

variable {p} in
/-- What a call does to the state depends on the state alone. -/
theorem step_state_congr {p' : Store × W} (hstate : p'.1.state = p.1.state)
    (hattached : p'.1.values.attached = p.1.values.attached) :
    (call.step m out p').1.state = (call.step m out p).1.state := by
  cases call with
  | poll nowUs =>
    exact ((poll_frame m nowUs out p'.1 p'.2).1.trans hstate).trans
      (poll_frame m nowUs out p.1 p.2).1.symm
  | line text nowUs =>
    show (handleLine m text nowUs out p'.1 p'.2).2.1.state =
      (handleLine m text nowUs out p.1 p.2).2.1.state
    by_cases hassign : ∃ name value, request text = .assignment name value
    · obtain ⟨name, value, hreq⟩ := hassign
      rw [handleLine_assignment m hreq, handleLine_assignment m hreq]
      exact setFromWire_state_congr m hstate hattached name value true
    · have hother : ∀ name value, request text ≠ .assignment name value :=
        fun name value h => hassign ⟨name, value, h⟩
      rw [(handleLine_rewatches m hother nowUs out p'.1 p'.2).state,
        (handleLine_rewatches m hother nowUs out p.1 p.2).state, hstate]

end Step

/-- A run changes writable fields only. -/
theorem states_adopt (out : ValueWriter W) (p : Store × W) (calls : List ControlCall) :
    ∀ q ∈ Run.states (step m out) p calls,
      q.1.values.attached = p.1.values.attached ∧
        q.1.state = adoptSettings q.1.state p.1.state := by
  refine Run.states_invariant (C := fun _ _ => True) ?_ ⟨rfl, (adoptSettings_self _).symm⟩
    fun _ _ => trivial
  rintro q call ⟨hattached, hstate⟩ -
  refine ⟨(step_attached m out q call).trans hattached, ?_⟩
  rw [step_adopts m out q call, hstate]
  rfl

/-- The accepted calls of a run alone lead to the same state. -/
theorem foldl_accepted (out : ValueWriter W) (p p' : Store × W) (calls : List ControlCall)
    (hstate : p'.1.state = p.1.state) (hattached : p'.1.values.attached = p.1.values.attached) :
    ((acceptedCalls m out p calls).foldl (step m out) p').1.state =
      (calls.foldl (step m out) p).1.state := by
  induction calls generalizing p p' with
  | nil => exact hstate
  | cons call calls ih =>
    have hnext := (step_attached m out p call).trans hattached.symm
    unfold acceptedCalls at ih ⊢
    rw [Run.steps, List.filter_cons, List.foldl_cons]
    dsimp only
    by_cases hacc : accepted m p.1 call = true
    · rw [if_pos hacc, List.map_cons, List.foldl_cons]
      refine ih (step m out p call) (step m out p' call)
        (step_state_congr m out call hstate hattached) ?_
      exact (step_attached m out p' call).trans hnext.symm
    · rw [if_neg hacc]
      refine ih (step m out p call) p' ?_ hnext.symm
      rw [step_not_accepted m out (by simpa using hacc), hstate]

end ControlCall

/-- **Control state.** Over any run of lines and polls the fields that are not writable and everything
that is no field stay as they are, and the state at the end is that of the accepted calls alone. -/
theorem control_state_of_accepted (m : Machine) (out : ValueWriter W) (s : Store) (w : W)
    (calls : List ControlCall) :
    (∀ p ∈ Run.states (ControlCall.step m out) (s, w) calls,
        p.1.state = adoptSettings p.1.state s.state ∧
          ∀ id : FieldId, id.entry.info.writable = false → Store.SameField s p.1 id) ∧
      ((ControlCall.acceptedCalls m out (s, w) calls).foldl (ControlCall.step m out) (s, w)).1.state =
        (calls.foldl (ControlCall.step m out) (s, w)).1.state := by
  refine ⟨fun p hp => ?_, ControlCall.foldl_accepted m out (s, w) (s, w) calls rfl rfl⟩
  obtain ⟨hattached, hstate⟩ := ControlCall.states_adopt m out (s, w) calls p hp
  refine ⟨hstate, fun id hid => ?_⟩
  have hsame := adoptSettings_sameField p.1.state s.state s.values id
  rw [if_neg (by rw [hid]; exact Bool.false_ne_true), ← hstate] at hsame
  have hreg : Store.Rewatches ⟨p.1.state, s.values⟩ { p.1 with values.dirty := s.values.dirty } :=
    ⟨rfl, hattached, rfl⟩
  exact ⟨(hreg.sameField id).real.trans hsame.real, (hreg.sameField id).bool.trans hsame.bool,
    (hreg.sameField id).string.trans hsame.string⟩

end Pypilot
