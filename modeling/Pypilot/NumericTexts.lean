import Pypilot.RegistryTable
import Pypilot.RejectedRequests
import Pypilot.StringSetting

/-!
# Numeric texts

An assignment to a numeric field and an entry of a watch request take the literal at the front of their
first 31 bytes for the number, and what follows it for nothing. The number is that of the whole text only
where nothing of weight follows (`numeric_text_iff`).
-/

namespace Pypilot

open Text

/-- The text is one literal, and this is its number. -/
def ReadWhole (m : Machine) (text : Text) (value : Real) : Prop :=
  ∃ x, Strtof.strtof text = some (x, []) ∧ value = m.toReal x

/-- The texts that are taken whole or refused: those with no literal at the front of their first 31 bytes,
and the literals; of a longer literal the first 31 bytes have to stand for its number. -/
def WholeOrNone (m : Machine) (text : Text) : Prop :=
  Strtof.strtof (text.take 31) = none ∨
    ∃ x, Strtof.strtof text = some (x, []) ∧
      (31 < text.length → ∃ y rest, Strtof.strtof (text.take 31) = some (y, rest) ∧
        m.toReal y = m.toReal x)

/-- The parser finds the number of the whole text, or none, in just these texts. -/
theorem parseReal_whole_iff (m : Machine) (text : Text) :
    (∀ v, parseReal m text = some v → ReadWhole m text v) ↔ WholeOrNone m text := by
  unfold parseReal
  cases hcut : Strtof.strtof (text.take 31) with
  | none => exact iff_of_true (fun v hv => nomatch hv) (.inl hcut)
  | some p =>
    obtain ⟨y, rest⟩ := p
    constructor
    · intro hwhole
      obtain ⟨x, hx, hsame⟩ := hwhole _ rfl
      exact .inr ⟨x, hx, fun _ => ⟨y, rest, hcut, hsame⟩⟩
    · rintro (hnone | ⟨x, hx, hlong⟩) v hv
      · exact nomatch hcut.symm.trans hnone
      · obtain rfl : m.toReal y = v := Option.some.inj hv
        refine ⟨x, hx, ?_⟩
        by_cases hlen : 31 < text.length
        · obtain ⟨y', rest', hcut', hsame⟩ := hlong hlen
          obtain ⟨rfl, -⟩ := Prod.mk.inj (Option.some.inj (hcut.symm.trans hcut'))
          exact hsame
        · rw [List.take_of_length_le (by omega), hx] at hcut
          rw [(Prod.mk.inj (Option.some.inj hcut)).1]

namespace RegistryCall

theorem foldl_attached {W : Type} (m : Machine) (out : ValueWriter W) {p : Store × W}
    (hat : p.1.values.attached = true) (calls : List RegistryCall) :
    (calls.foldl (step m out) p).1.values.attached = true := by
  refine Run.foldl_invariant (I := fun p : Store × W => p.1.values.attached = true)
    (C := fun _ _ => True) ?_ hat fun _ _ => trivial
  rintro p call hp -
  cases call with
  | set call => exact (call.run_attached m p.1).trans hp
  | watch name periodSeconds nowUs initialLine =>
    exact (Store.watch_rewatches m p.1 name periodSeconds nowUs _ p.2).attached.trans hp
  | unwatch name => exact (Store.unwatch_rewatches p.1 name).attached.trans hp
  | emitChangedWatches =>
    show (p.1.emitChangedWatches m out p.2).1.values.attached = true
    rw [emitChangedWatches_eq]
    exact hp
  | emitDueWatches nowUs =>
    show (p.1.emitDueWatches m nowUs out p.2).1.values.attached = true
    rw [emitDueWatches_eq]
    exact hp
  | change f => exact hp

end RegistryCall

namespace Server

section Texts

variable {W : Type} (m : Machine) (nowUs : ℕ) (put : Text → W → W) {s : Store} (w : W)

/-- An assignment to a writable numeric field is accepted with the number that the parser finds. -/
theorem assignment_reads (hat : s.values.attached = true) {id : FieldId}
    (hwritable : id.entry.info.writable = true) (hkind : id.entry.kind = .real) {line text : Text}
    (hrequest : request line = .assignment id.entry.name text) :
    ((∀ message, .error message ∉ lineEmissions m nowUs line s) ↔ (parseReal m text).isSome) ∧
      ∀ v, parseReal m text = some v →
        (handleLine m line nowUs (.reliable put) s w).2.1.readReal id = some v := by
  have hport : id ≠ .serverPort := by
    rintro rfl
    exact absurd hwritable (by decide)
  have hset : s.setFromWire m id.entry.name text true =
      (parseReal m text).elim (false, s) fun v => s.setReal m id v := by
    unfold Store.setFromWire
    rw [find_entry]
    dsimp only
    rw [hwritable, hkind, entry_id]
    cases parseReal m text <;> rfl
  have hspec := Store.setReal_spec m s hat hkind hport
  rw [handleLine_assignment m hrequest, hset]
  unfold lineEmissions
  rw [hrequest]
  dsimp only
  rw [hset]
  cases parseReal m text with
  | none =>
    refine ⟨iff_of_false (fun h => h _ List.mem_cons_self) Bool.false_ne_true, fun v hv => nomatch hv⟩
  | some v =>
    rw [Option.elim_some, (hspec v).1]
    refine ⟨iff_of_true (fun _ => List.not_mem_nil) rfl, ?_⟩
    rintro _ ⟨⟩
    exact (hspec v).2

/-- An entry with a period is accepted with the period that the parser finds. -/
theorem watchEntry_reads (hs : s.SingleWatches) (id : FieldId) {text : Text}
    (htrue : text ≠ lit "true") (hfalse : text ≠ lit "false") (out : ValueWriter W) :
    ((watchEntry m id.entry.name text nowUs out s w).1 = none ↔ (parsePeriod m text).isSome) ∧
      ∀ v, parsePeriod m text = some v → ∀ v',
        (watchEntry m id.entry.name text nowUs out s w).2.1.WatchedEvery id v' ↔ v = v' := by
  have hvalues : id.entry.name ≠ lit "values" := (field_name id).2.2.2.2.2.2.2.1
  unfold watchEntry
  rw [if_neg hvalues, if_neg hfalse, if_neg htrue]
  cases parsePeriod m text with
  | none => exact ⟨iff_of_false (Option.some_ne_none _) Bool.false_ne_true, fun v hv => nomatch hv⟩
  | some v =>
    obtain ⟨hfound, -⟩ := Store.watch_watched m v nowUs (some out) w hs id
    dsimp only
    rw [if_pos hfound]
    refine ⟨iff_of_true rfl rfl, ?_⟩
    rintro _ ⟨⟩ v'
    exact (hs.hasEntry_watch m id v nowUs (some out) w).watchedEvery_iff v'

end Texts

/-- **Numeric texts.** Whatever was done with the registry before, an accepted assignment to a writable
numeric field, and an accepted entry with a period, store the number of the whole text exactly for the
texts of `WholeOrNone`. -/
theorem numeric_text_iff {W W₀ : Type} (m : Machine) (out₀ : ValueWriter W₀) (w₀ : W₀)
    (st : PypilotState) (history : List RegistryCall) (nowUs : ℕ) (put : Text → W → W) (w : W) :
    let s := (history.foldl (RegistryCall.step m out₀) (RegistryCall.start st w₀)).1
    (∀ (id : FieldId) (line text : Text), id.entry.info.writable = true → id.entry.kind = .real →
      request line = .assignment id.entry.name text →
        (((∀ message, .error message ∉ lineEmissions m nowUs line s) →
          ∃ v, (handleLine m line nowUs (.reliable put) s w).2.1.readReal id = some v ∧
            ReadWhole m text v) ↔ WholeOrNone m text)) ∧
    ∀ (id : FieldId) (text : Text), text ≠ lit "true" → text ≠ lit "false" →
      (((watchEntry m id.entry.name text nowUs (.reliable put) s w).1 = none →
        ∃ v, (watchEntry m id.entry.name text nowUs (.reliable put) s w).2.1.WatchedEvery id v ∧
          ReadWhole m (trim text) v) ↔ WholeOrNone m (trim text)) := by
  intro s
  have hat : s.values.attached = true := RegistryCall.foldl_attached m out₀ rfl history
  have hs : s.SingleWatches :=
    RegistryCall.foldl_single m out₀ (RegistryCall.single_start st w₀) history
  refine ⟨fun id line text hwritable hkind hrequest => ?_, fun id text htrue hfalse => ?_⟩
  · obtain ⟨haccepted, hread⟩ := assignment_reads m nowUs put w hat hwritable hkind hrequest
    rw [haccepted, ← parseReal_whole_iff]
    constructor
    · intro hwhole v hv
      obtain ⟨v', hv', hstored⟩ := hwhole (by rw [hv]; rfl)
      rw [hread v hv] at hv'
      rwa [Option.some.inj hv']
    · intro hwhole hsome
      obtain ⟨v, hv⟩ := Option.isSome_iff_exists.mp hsome
      exact ⟨v, hread v hv, hwhole v hv⟩
  · obtain ⟨haccepted, hread⟩ := watchEntry_reads m nowUs w hs id htrue hfalse (.reliable put)
    rw [haccepted, ← parseReal_whole_iff]
    constructor
    · intro hwhole v hv
      obtain ⟨v', hv', hstored⟩ := hwhole (Option.isSome_iff_exists.mpr ⟨v, hv⟩)
      rwa [(hread v hv v').mp hv']
    · intro hwhole hsome
      obtain ⟨v, hv⟩ := Option.isSome_iff_exists.mp hsome
      exact ⟨v, (hread v hv v).mpr rfl, hwhole v hv⟩

/-- `ap.heading_command=12abc` is accepted and sets the command to 12. -/
theorem numeric_text_prefix :
    ¬ ∀ (m : Machine) (st : PypilotState) (nowUs : ℕ) (id : FieldId) (line text : Text),
      id.entry.info.writable = true → id.entry.kind = .real →
      request line = .assignment id.entry.name text →
      (∀ message, .error message ∉ lineEmissions m nowUs line (RegistryCall.start st ()).1) →
        ∃ v, (handleLine m line nowUs StringValueWriter (RegistryCall.start st ()).1 []).2.1.readReal
          id = some v ∧ ReadWhole m text v := by
  intro hclaim
  have hnone : lineEmissions default 0 (lit "ap.heading_command=12abc")
      (RegistryCall.start {} ()).1 = [] := by decide +kernel
  obtain ⟨v, -, x, hx, -⟩ := hclaim default {} 0 .apHeadingCommand (lit "ap.heading_command=12abc")
    (lit "12abc") rfl rfl (by decide +kernel) fun message => by rw [hnone]; exact List.not_mem_nil
  have hread : Strtof.strtof (lit "12abc") = some (12, lit "abc") := by decide +kernel
  exact absurd (Prod.mk.inj (Option.some.inj (hread.symm.trans hx))).2 (by decide)

end Server

end Pypilot
