import Pypilot.ServerOutput

/-!
# Rejected requests

A line that is answered with an error leaves the state and the marks alone. A watch request is executed
entry by entry while the rest is still to be parsed, so the entries before the one in error stay in the
table of watches (`rejected_line`).
-/

namespace Pypilot

open Text

namespace Server

/-- The entries of a watch request, as at most `n` rounds take them off its front, and the message for the
malformed text behind them. -/
def requestEntries : ℕ → Text → List (Text × Text) × Option Text
  | 0, _ => ([], none)
  | n + 1, expression =>
    match watchItem expression with
    | .done => ([], none)
    | .comma rest => requestEntries n rest
    | .bad message => ([], some message)
    | .entry key value rest =>
      ((key, value) :: (requestEntries n rest).1, (requestEntries n rest).2)

def watchRequestEntries (expression : Text) : List (Text × Text) × Option Text :=
  let e := trim expression
  if e.length < 2 ∨ e.head? ≠ some (chr '\x7b') ∨ e.getLast? ≠ some (chr '\x7d') then
    ([], some (lit "invalid watch request"))
  else requestEntries e.length ((e.drop 1).take (e.length - 2))

section Rejected

variable (m : Machine) (nowUs : ℕ)

def entriesAfter (entries : List (Text × Text)) (s : Store) : Store :=
  entries.foldl (fun s entry => (entryAfter m nowUs entry.1 entry.2 s).2) s

/-- The message is for the first of the entries, or for the malformed text where there are none. -/
def RejectedAt (message : Text) (s : Store) : List (Text × Text) → Option Text → Prop
  | [], malformed => malformed = some message
  | (key, value) :: _, _ => .error message ∈ entryEmissions m nowUs key value s

variable {m} {nowUs} {s : Store} {message : Text}

theorem entryAfter_of_error {key value : Text}
    (herror : .error message ∈ entryEmissions m nowUs key value s) :
    (entryAfter m nowUs key value s).1 ≠ none ∧ (entryAfter m nowUs key value s).2 = s := by
  unfold entryEmissions at herror
  unfold entryAfter watchEntry
  generalize (if value = lit "true" then some 0 else parsePeriod m value) = period at herror ⊢
  split_ifs at herror with hvalues hlisting hfalse
  · exact absurd herror List.not_mem_nil
  · exact absurd herror (by simp)
  · exact absurd herror List.not_mem_nil
  · rw [if_neg hvalues, if_neg hfalse]
    cases period with
    | none => exact ⟨Option.some_ne_none _, rfl⟩
    | some period =>
      have hfail : (rewatch m s key period nowUs).1 = false := by
        by_contra hfound
        rw [Bool.not_eq_false] at hfound
        dsimp only at herror
        rw [hfound] at herror
        cases hfind : find key <;> simp [hfind] at herror
      have hsame : (rewatch m s key period nowUs).2 = s := by
        unfold rewatch Store.watch at hfail ⊢
        cases hfind : find key with
        | none => rfl
        | some d =>
          rw [hfind] at hfail
          dsimp only at hfail ⊢
          split_ifs at hfail ⊢
          rfl
      dsimp only
      rw [watch_reliable]
      dsimp only
      rw [hfail, hsame]
      exact ⟨Option.some_ne_none _, rfl⟩

/-- The loop stops at the first entry in error, with what the entries before it have done. -/
theorem watchLoop_rejected {W : Type} (put : Text → W → W) {n : ℕ} {expression : Text}
    (hn : expression.length < n) (w : W)
    (herror : .error message ∈ watchEmissions m nowUs n expression s) :
    ∃ before rest, (requestEntries n expression).1 = before ++ rest ∧
      RejectedAt m nowUs message (entriesAfter m nowUs before s) rest (requestEntries n expression).2 ∧
      (Loop.run (watchBody m nowUs (.reliable put)) (fun p => p.1.length)
        (watchBody_variant m nowUs (.reliable put)) (expression, s, w)).2.1 =
        entriesAfter m nowUs before s := by
  induction n generalizing expression s w with
  | zero => omega
  | succ n ih =>
    unfold watchEmissions at herror
    unfold requestEntries
    cases hitem : watchItem expression with
    | done =>
      rw [hitem] at herror
      exact absurd herror List.not_mem_nil
    | bad text =>
      rw [hitem] at herror
      have hbody : watchBody m nowUs (.reliable put) (expression, s, w) =
          .inr (true, s, emit m put s [.error text] w) := by
        simp only [watchBody, hitem, error_reliable m put s]
      obtain rfl : message = text := Emission.error.inj (List.mem_singleton.mp herror)
      rw [Loop.run_leaves hbody]
      exact ⟨[], [], rfl, rfl, rfl⟩
    | comma rest =>
      rw [hitem] at herror
      have hbody : watchBody m nowUs (.reliable put) (expression, s, w) = .inl (rest, s, w) := by
        simp only [watchBody, hitem]
      have hlen := watchItem_comma_lt hitem
      rw [Loop.run_goes_on hbody]
      exact ih (by omega) w herror
    | entry key value rest =>
      rw [hitem] at herror
      dsimp only at herror ⊢
      have hlen := watchItem_entry_lt hitem
      have hentry := watchEntry_reliable m put s w key value nowUs
      rcases List.mem_append.mp herror with hhere | hlater
      · obtain ⟨hends, hsame⟩ := entryAfter_of_error hhere
        obtain ⟨ok, hok⟩ := Option.ne_none_iff_exists'.mp hends
        rw [hok] at hentry
        rw [Loop.run_leaves (watchBody_leaves m hitem hentry)]
        exact ⟨[], _, rfl, hhere, hsame⟩
      · rcases hafter : entryAfter m nowUs key value s with ⟨_ | ok, s'⟩
        · rw [hafter] at hentry hlater
          obtain ⟨before, later, hsplit, hrejected, hrun⟩ := ih (show rest.length < n by omega)
            (emit m put s (entryEmissions m nowUs key value s) w) hlater
          have hcons : entriesAfter m nowUs ((key, value) :: before) s =
              entriesAfter m nowUs before s' := by
            rw [entriesAfter, List.foldl_cons, hafter]
            rfl
          rw [Loop.run_goes_on (watchBody_goes_on m hitem hentry)]
          refine ⟨(key, value) :: before, later, ?_, ?_, ?_⟩
          · rw [hsplit, List.cons_append]
          · rw [hcons]
            exact hrejected
          · rw [hcons]
            exact hrun
        · rw [hafter] at hlater
          exact absurd hlater List.not_mem_nil

theorem rejected_assignment {W : Type} (put : Text → W → W) (w : W) {line name value : Text}
    (hrequest : request line = .assignment name value)
    (herror : .error message ∈ lineEmissions m nowUs line s) :
    (handleLine m line nowUs (.reliable put) s w).2.1 = s := by
  unfold lineEmissions at herror
  rw [hrequest] at herror
  rw [handleLine_assignment m hrequest]
  rcases Store.setFromWire_cases m s name value true with hfail | ⟨d, -, hok, -⟩
  · rw [hfail]
  · dsimp only at herror
    rw [hok] at herror
    exact absurd herror List.not_mem_nil

theorem rejected_watch {W : Type} (put : Text → W → W) (w : W) {line expression : Text}
    (hrequest : request line = .watch expression)
    (herror : .error message ∈ lineEmissions m nowUs line s) :
    ∃ before rest, (watchRequestEntries expression).1 = before ++ rest ∧
      RejectedAt m nowUs message (entriesAfter m nowUs before s) rest
        (watchRequestEntries expression).2 ∧
      (handleLine m line nowUs (.reliable put) s w).2.1.values.watches =
        (entriesAfter m nowUs before s).values.watches := by
  unfold lineEmissions at herror
  unfold handleLine
  rw [hrequest] at herror ⊢
  unfold handleWatch watchRequestEntries
  dsimp only at herror ⊢
  split_ifs at herror ⊢ with hbad
  · obtain rfl : message = _ := Emission.error.inj (List.mem_singleton.mp herror)
    exact ⟨[], [], rfl, rfl, rfl⟩
  · have hlen : (((trim expression).drop 1).take ((trim expression).length - 2)).length <
        (trim expression).length := by
      rw [List.length_take, List.length_drop]
      omega
    obtain ⟨before, rest, hsplit, hrejected, hrun⟩ := watchLoop_rejected put hlen w herror
    refine ⟨before, rest, hsplit, hrejected, ?_⟩
    rw [hrun]

end Rejected

/-- **Rejected requests.** A line that is answered with an error leaves the state and the marks as they
were, and if it is no watch request the watches as well; a watch request leaves the watches as the entries
before the one in error have made them. -/
theorem rejected_line {W : Type} (m : Machine) (put : Text → W → W) (s : Store) (w : W) (line : Text)
    (nowUs : ℕ) (message : Text) (herror : .error message ∈ lineEmissions m nowUs line s) :
    let r := handleLine m line nowUs (.reliable put) s w
    r.2.2 = emit m put s (lineEmissions m nowUs line s) w ∧
      r.2.1.state = s.state ∧ r.2.1.values.dirty = s.values.dirty ∧
      ((∀ expression, request line ≠ .watch expression) →
        r.2.1.values.watches = s.values.watches) ∧
      ∀ expression, request line = .watch expression →
        ∃ before rest, (watchRequestEntries expression).1 = before ++ rest ∧
          RejectedAt m nowUs message (entriesAfter m nowUs before s) rest
            (watchRequestEntries expression).2 ∧
          r.2.1.values.watches = (entriesAfter m nowUs before s).values.watches := by
  intro r
  obtain ⟨hwritten, -⟩ := handleLine_reliable m put s w line nowUs
  refine ⟨hwritten, ?_⟩
  have hother : (∀ name value, request line ≠ .assignment name value) →
      r.2.1.state = s.state ∧ r.2.1.values.dirty = s.values.dirty := fun hnot =>
    have hsame := handleLine_rewatches m hnot nowUs (.reliable put) s w
    ⟨hsame.state, hsame.dirty⟩
  cases hrequest : request line with
  | empty | udpPort =>
    unfold lineEmissions at herror
    rw [hrequest] at herror
    exact absurd herror List.not_mem_nil
  | malformed | values =>
    obtain ⟨hstate, hdirty⟩ := hother fun _ _ h => by rw [hrequest] at h; exact nomatch h
    have hsame : r.2.1.values.watches = s.values.watches := by
      show (handleLine m line nowUs (.reliable put) s w).2.1.values.watches = _
      unfold handleLine
      rw [hrequest]
    exact ⟨hstate, hdirty, fun _ => hsame, fun _ h => nomatch h⟩
  | assignment name value =>
    have hsame : r.2.1 = s := rejected_assignment put w hrequest herror
    rw [hsame]
    exact ⟨rfl, rfl, fun _ => rfl, fun _ h => nomatch h⟩
  | watch expression =>
    obtain ⟨hstate, hdirty⟩ := hother fun _ _ h => by rw [hrequest] at h; exact nomatch h
    refine ⟨hstate, hdirty, fun hnot => absurd rfl (hnot expression), ?_⟩
    rintro _ ⟨⟩
    exact rejected_watch put w hrequest herror

theorem rejected_line_partly :
    let s : Store := ⟨{}, { attached := true }⟩
    let r := handleLine default (lit "watch=\x7b\"ap.heading\":true,\"x\":true\x7d") 0
      StringValueWriter s []
    ∃ before rest, [(lit "ap.heading", lit "true"), (lit "x", lit "true")] = before ++ rest ∧
      RejectedAt default 0 (lit "invalid unknown value") (entriesAfter default 0 before s) rest none ∧
      r.2.1.values.watches = (entriesAfter default 0 before s).values.watches := by
  intro s r
  have hmem : Emission.error (lit "invalid unknown value") ∈ lineEmissions default 0
      (lit "watch=\x7b\"ap.heading\":true,\"x\":true\x7d") s := by decide +kernel
  have h := rejected_line default (fun text out => out ++ text) s [] _ 0 _ hmem
  exact h.2.2.2.2 (lit "\x7b\"ap.heading\":true,\"x\":true\x7d") (by decide +kernel)

def activeWatches (s : Store) : List Watch := s.values.watches.toList.filter Watch.active

/-- `watch={"ap.heading":true,"x":true}`: the field is watched, and the request is rejected. -/
theorem rejected_line_watches :
    ¬ ∀ (m : Machine) (line : Text) (nowUs : ℕ) (s : Store) (message : Text),
      .error message ∈ lineEmissions m nowUs line s →
        let r := handleLine m line nowUs StringValueWriter s []
        r.2.1.state = s.state ∧ activeWatches r.2.1 = activeWatches s ∧
          r.2.1.values.dirty = s.values.dirty := by
  intro hclaim
  have h := hclaim default (lit "watch=\x7b\"ap.heading\":true,\"x\":true\x7d") 0
    ⟨{}, { attached := true }⟩ (lit "invalid unknown value") (by decide +kernel)
  exact absurd h.2.1 (by decide +kernel)

end Server

end Pypilot
