import Pypilot.Effects
import Pypilot.Lib.Run

/-!
# Declared ranges

The table of fields declares a range for some of them. The way from a line to a field does not look at
it, so the ranges hold in a run exactly as long as no line assigns a number outside of them.
-/

namespace Pypilot

open Text Server

/-- A field with a declared range. -/
def Descriptor.Ranged (d : Descriptor) : Prop := d.info.hasMin = true ∧ d.info.hasMax = true

instance : DecidablePred Descriptor.Ranged := fun _ => inferInstanceAs (Decidable (_ ∧ _))

def Descriptor.InRange (d : Descriptor) (v : Real) : Prop :=
  d.info.minValue ≤ v ∧ v ≤ d.info.maxValue

instance (d : Descriptor) : DecidablePred d.InRange := fun _ => inferInstanceAs (Decidable (_ ∧ _))

/-- Every field with a declared range holds a number in it. -/
def Store.DeclaredRanges (s : Store) : Prop :=
  ∀ d ∈ fields, d.Ranged → ∃ v, s.readReal d.id = some v ∧ d.InRange v

/-- The number that the line assigns to a field with a declared range, if it does, is in it. -/
def AssignsInRange (m : Machine) (line : Text) : Prop :=
  ∀ name value d v, request line = .assignment name value → find name = some d → d.Ranged →
    parseReal m value = some v → d.InRange v

/-- One line given to the server, at a reading of its clock. -/
def lineStep {W : Type} (m : Machine) (out : ValueWriter W) (p : Store × W) (line : Text × ℕ) :
    Store × W :=
  (handleLine m line.1 line.2 out p.1 p.2).2

theorem ranged_spec {d : Descriptor} (hd : d ∈ fields) (hr : d.Ranged) :
    d.kind = .real ∧ d.id.entry = d ∧ d.info.writable = true ∧ d.id ≠ .serverPort := by
  revert d
  decide

/-- Ranges stay where the readings of the fields with a range stay. -/
theorem DeclaredRanges.congr {s s' : Store}
    (h : ∀ d ∈ fields, d.Ranged → s'.readReal d.id = s.readReal d.id) :
    s'.DeclaredRanges ↔ s.DeclaredRanges := by
  unfold Store.DeclaredRanges
  refine forall₃_congr fun d hd hr => ?_
  rw [h d hd hr]

section Assignment

variable {m : Machine} {s : Store} (hs : s.DeclaredRanges)

include hs in
/-- There is a field with a range, and only a registry with a state reads it. -/
theorem DeclaredRanges.attached : s.values.attached = true := by
  obtain ⟨v, hv, -⟩ := hs FieldId.apHeadingCommand.entry (by decide) (by decide)
  by_contra hat
  unfold Store.readReal at hv
  rw [if_pos (by simpa using hat)] at hv
  exact absurd hv (by simp)

include hs in
/-- A number assigned to a field with a range keeps the ranges exactly when it is in that range. -/
theorem setReal_declaredRanges_iff {d : Descriptor} (hd : d ∈ fields) (hr : d.Ranged) (v : Real) :
    (s.setReal m d.id v).2.DeclaredRanges ↔ d.InRange v := by
  obtain ⟨hkind, hentry, -, hport⟩ := ranged_spec hd hr
  obtain ⟨hok, hread⟩ := Store.setReal_spec m s (DeclaredRanges.attached hs)
    (show d.id.entry.kind = .real by rw [hentry, hkind]) hport v
  constructor
  · intro hranges
    obtain ⟨v', hv', hin⟩ := hranges d hd hr
    rw [hread] at hv'
    rwa [Option.some.inj hv']
  · intro hin d' hd' hr'
    by_cases hid : d'.id = d.id
    · have hsame : d' = d := by
        rw [← (ranged_spec hd' hr').2.1, hid, hentry]
      exact ⟨v, by rw [hsame]; exact hread, by rw [hsame]; exact hin⟩
    · rcases Store.setReal_cases m s d.id v with hfail | ⟨-, hassign⟩
      · rw [hfail] at hok
        exact absurd hok Bool.false_ne_true
      · rw [(hassign.others d'.id hid).real]
        exact hs d' hd' hr'

include hs in
theorem setFromWire_declaredRanges_iff (name value : Text) :
    (s.setFromWire m name value true).2.DeclaredRanges ↔
      ∀ d v, find name = some d → d.Ranged → parseReal m value = some v → d.InRange v := by
  cases hfind : find name with
  | none =>
    have hsame : s.setFromWire m name value true = (false, s) := by
      rw [Store.setFromWire, hfind]
    rw [hsame]
    simpa using hs
  | some d =>
    have hd : d ∈ fields := List.mem_of_find?_eq_some hfind
    by_cases hr : d.Ranged
    · obtain ⟨hkind, -, hwritable, -⟩ := ranged_spec hd hr
      cases hparse : parseReal m value with
      | none =>
        have hsame : s.setFromWire m name value true = (false, s) := by
          rw [Store.setFromWire, hfind]
          simp [hkind, hparse]
        rw [hsame]
        simpa using hs
      | some v =>
        have hset : s.setFromWire m name value true = s.setReal m d.id v := by
          rw [Store.setFromWire, hfind]
          simp [hkind, hwritable, hparse]
        rw [hset, setReal_declaredRanges_iff hs hd hr]
        simp [hr]
    · -- another field is assigned, or none
      have hkeep : (s.setFromWire m name value true).2.DeclaredRanges := by
        rcases Store.setFromWire_cases m s name value true with hfail | ⟨d', hd', -, hassign⟩
        · rw [hfail]
          exact hs
        · obtain rfl := Option.some.inj (hfind.symm.trans hd')
          refine (DeclaredRanges.congr fun d' hd' hr' => (hassign.others d'.id ?_).real).mpr hs
          intro hid
          have hsame : d' = d := by
            rw [← (ranged_spec hd' hr').2.1, hid, ← (find_eq_some hfind).1]
          exact hr (hsame ▸ hr')
      refine iff_of_true hkeep fun d' v hd' hr' => ?_
      exact absurd (Option.some.inj hd' ▸ hr') hr

end Assignment

theorem declaredRanges_create (m : Machine) : (create m {} {}).DeclaredRanges := by
  intro d hd hr
  obtain ⟨-, hentry, -, -⟩ := ranged_spec hd hr
  refine ⟨0, ?_, ?_⟩
  · rw [← hentry] at hr
    revert hr
    cases d.id
    all_goals first
      | exact fun _ => rfl
      | exact fun hr => absurd hr (by decide)
  · revert d
    decide +kernel

/-- A line keeps the declared ranges exactly when it assigns in range. -/
theorem lineStep_declaredRanges_iff {W : Type} (m : Machine) (out : ValueWriter W) (p : Store × W)
    (line : Text × ℕ) (hs : p.1.DeclaredRanges) :
    (lineStep m out p line).1.DeclaredRanges ↔ AssignsInRange m line.1 := by
  unfold lineStep AssignsInRange
  rcases handleLine_cases m line.1 line.2 out p.1 p.2 with ⟨name, value, hreq, hset⟩ | ⟨hother, hsame⟩
  · rw [hset, setFromWire_declaredRanges_iff hs, hreq]
    constructor
    · intro h name' value' d v hreq'
      obtain ⟨rfl, rfl⟩ := Request.assignment.inj hreq'
      exact h d v
    · intro h d v
      exact h name value d v rfl
  · refine iff_of_true ?_ ?_
    · exact (DeclaredRanges.congr fun d _ _ => (hsame.sameField d.id).real).mpr hs
    · intro name value d v hreq
      exact absurd hreq (hother name value)

/-- **Declared ranges.** From the initial state, the declared ranges hold throughout a run exactly when
no line assigns a number outside of them. -/
theorem declaredRanges_iff {W : Type} (m : Machine) (out : ValueWriter W) (w : W)
    (lines : List (Text × ℕ)) :
    (∀ p ∈ Run.states (lineStep m out) (create m {} {}, w) lines, p.1.DeclaredRanges) ↔
      ∀ line ∈ lines, AssignsInRange m line.1 := by
  rw [← Run.forall_steps_iff (lineStep m out)
    (C := fun line : Text × ℕ => AssignsInRange m line.1) (create m {} {}, w)]
  exact Run.states_invariant_iff (I := fun p : Store × W => p.1.DeclaredRanges)
    (C := fun _ line => AssignsInRange m line.1) (lineStep_declaredRanges_iff m out)
    (s := (create m {} {}, w)) (declaredRanges_create m) lines

theorem not_declaredRanges {s : Store} {id : FieldId} {v : Real} (hr : id.entry.Ranged)
    (hread : s.readReal id = some v) (hout : ¬ id.entry.InRange v) : ¬ s.DeclaredRanges := by
  intro hs
  obtain ⟨v', hv', hin⟩ := hs id.entry (List.mem_of_find?_eq_some (descriptor_eq id)) hr
  rw [entry_id, hread] at hv'
  exact hout (Option.some.inj hv' ▸ hin)

/-- Degrees above 360 are taken, and so is not-a-number. -/
theorem assignment_out_of_range :
    (∃ p ∈ Run.states (lineStep default StringValueWriter) (create default {} {}, [])
        [(lit "ap.heading_command=400", 0)],
      p.1.readReal .apHeadingCommand = some 400 ∧ ¬ p.1.DeclaredRanges) ∧
    ∃ p ∈ Run.states (lineStep default StringValueWriter) (create default {} {}, [])
        [(lit "servo.command=nan", 0)],
      p.1.readReal .servoCommand = some .nan ∧ ¬ p.1.DeclaredRanges := by
  refine ⟨⟨_, Run.foldl_mem_states _ _ _, ?_⟩, _, Run.foldl_mem_states _ _ _, ?_⟩
  · refine (fun hread => ⟨hread, not_declaredRanges (by decide) hread (by decide +kernel)⟩) ?_
    decide +kernel
  · refine (fun hread => ⟨hread, not_declaredRanges (by decide) hread (by decide +kernel)⟩) ?_
    decide +kernel

end Pypilot
