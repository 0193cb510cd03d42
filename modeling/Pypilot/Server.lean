import Pypilot.Values

/-!
# The server

`server.cpp`: the line protocol in front of the registry. A watch request is parsed and executed in
one loop over its text; each round eats at least one byte.
-/

namespace Pypilot

open Text

namespace Server

variable {W : Type} (m : Machine)

/-- `PypilotServer::PypilotServer`. -/
def create (state : PypilotState) (values : ValueRegistry) : Store :=
  let s : Store := ⟨{ state with server.running := true }, { values with attached := true }⟩
  let s := (s.setBool .serverRunning true).2
  (s.setReal m .serverPort (.fin s.state.server.port)).2

def error (out : ValueWriter W) (message : Text) : W → Bool × W :=
  putAll [out.write (lit "error="), out.write message, out.writeChar (chr '\n')]

/-- `parse_real` of the server: the registry's, on the trimmed text. -/
def parsePeriod (s : Text) : Option Real := parseReal m (trim s)

/-! ## Watch requests -/

/-- What one round of the parse loop finds at the front of the expression. -/
inductive WatchItem
  | done
  | comma (rest : Text)
  | entry (key value rest : Text)
  | bad (message : Text)
  deriving DecidableEq

/-- The parse of one round of `handle_watch`. -/
def watchItem (expression : Text) : WatchItem :=
  match trim expression with
  | [] => .done
  | c :: e =>
    if c = chr ',' then .comma e
    else if c ≠ chr '"' then .bad (lit "invalid watch key")
    else match cut (chr '"') e with
      | none => .bad (lit "invalid watch key")
      | some (key, e) =>
        match trim e with
        | [] => .bad (lit "invalid watch separator")
        | c :: e =>
          if c ≠ chr ':' then .bad (lit "invalid watch separator")
          else
            let e := trim e
            match cut (chr ',') e with
            | none => .entry key (trim e) []
            | some (value, rest) => .entry key (trim value) rest

/-- What a watch request does with one entry: `none` goes on with the next one, `some ok` returns
`ok`. -/
def watchEntry (key value : Text) (nowUs : ℕ) (out : ValueWriter W) (s : Store) (w : W) :
    Option Bool × Store × W :=
  if key = lit "values" then
    if value = lit "false" then (none, s, w)
    else
      let (ok, w) := putAll
        [out.write (lit "values="), Store.writeValuesJson out, out.writeChar (chr '\n')] w
      if ok then (none, s, w) else (some false, s, w)
  else if value = lit "false" then (none, (s.unwatch key).2, w)
  else
    match if value = lit "true" then some 0 else parsePeriod m value with
    | none =>
      let (ok, w) := error out (lit "invalid watch period") w
      (some ok, s, w)
    | some period =>
      let (found, s, w) := s.watch m key period nowUs (some out) w
      if found then (none, s, w)
      else
        let (ok, w) := error out (lit "invalid unknown value") w
        (some ok, s, w)

/-- One round of the loop of `handle_watch`. -/
def watchBody (nowUs : ℕ) (out : ValueWriter W) (p : Text × Store × W) :
    (Text × Store × W) ⊕ (Bool × Store × W) :=
  let (expression, s, w) := p
  match watchItem expression with
  | .done => .inr (true, s, w)
  | .comma rest => .inl (rest, s, w)
  | .bad message =>
    let (ok, w) := error out message w
    .inr (ok, s, w)
  | .entry key value rest =>
    match watchEntry m key value nowUs out s w with
    | (none, s, w) => .inl (rest, s, w)
    | (some ok, s, w) => .inr (ok, s, w)

theorem trim_length_le (s : Text) : (trim s).length ≤ s.length :=
  ((List.rdropWhile_prefix isBlank _).length_le).trans (List.dropWhile_sublist isBlank).length_le

theorem cut_length {c : Byte} {s a b : Text} (h : cut c s = some (a, b)) :
    a.length + b.length < s.length := by
  rw [(cut_eq_some h).1]
  simp

theorem watchItem_comma_lt {expression rest : Text} (h : watchItem expression = .comma rest) :
    rest.length < expression.length := by
  have ht := trim_length_le expression
  unfold watchItem at h
  cases he : trim expression with
  | nil => simp [he] at h
  | cons c e =>
    simp only [he, List.length_cons] at h ht
    split_ifs at h with hcomma hquote
    · rw [← WatchItem.comma.inj h]
      omega
    · exfalso
      repeat' split at h
      all_goals exact WatchItem.noConfusion h

/-- An entry takes at least its opening quote from the front of the expression. -/
theorem watchItem_entry_lt {expression key value rest : Text}
    (h : watchItem expression = .entry key value rest) : rest.length < expression.length := by
  have ht := trim_length_le expression
  unfold watchItem at h
  cases he : trim expression with
  | nil => simp [he] at h
  | cons c e =>
    simp only [he, List.length_cons] at h ht
    split_ifs at h with hcomma hquote
    cases hk : cut (chr '"') e with
    | none => simp [hk] at h
    | some p =>
      obtain ⟨key', e₁⟩ := p
      have hk' := cut_length hk
      have ht₁ := trim_length_le e₁
      simp only [hk] at h
      cases he₁ : trim e₁ with
      | nil => simp [he₁] at h
      | cons c e₂ =>
        simp only [he₁, List.length_cons] at h ht₁
        split_ifs at h with hcolon
        have ht₂ := trim_length_le e₂
        cases hv : cut (chr ',') (trim e₂) with
        | none =>
          simp only [hv, WatchItem.entry.injEq] at h
          rw [← h.2.2, List.length_nil]
          omega
        | some q =>
          obtain ⟨value', rest'⟩ := q
          have hv' := cut_length hv
          simp only [hv, WatchItem.entry.injEq] at h
          rw [← h.2.2]
          omega

theorem watchBody_variant (nowUs : ℕ) (out : ValueWriter W) :
    Loop.Variant (watchBody m nowUs out) fun p => p.1.length := by
  rintro ⟨expression, s, w⟩ ⟨rest, s', w'⟩ h
  unfold watchBody at h
  dsimp only at h ⊢
  cases hi : watchItem expression with
  | done => simp [hi] at h
  | bad message => simp [hi] at h
  | comma r =>
    simp only [hi, Sum.inl.injEq, Prod.mk.injEq] at h
    rw [← h.1]
    exact watchItem_comma_lt hi
  | entry key value r =>
    rcases he : watchEntry m key value nowUs out s w with ⟨_ | ok, s₁, w₁⟩
    · simp only [hi, he, Sum.inl.injEq, Prod.mk.injEq] at h
      rw [← h.1]
      exact watchItem_entry_lt hi
    · simp [hi, he] at h

def handleWatch (expression : Text) (nowUs : ℕ) (out : ValueWriter W) (s : Store) (w : W) :
    Bool × Store × W :=
  let e := trim expression
  if e.length < 2 ∨ e.head? ≠ some (chr '\x7b') ∨ e.getLast? ≠ some (chr '\x7d') then
    let (ok, w) := error out (lit "invalid watch request") w
    (ok, s, w)
  else
    Loop.run (watchBody m nowUs out) (fun p => p.1.length) (watchBody_variant m nowUs out)
      ((e.drop 1).take (e.length - 2), s, w)

/-! ## Requests -/

def handleAssignment (name value : Text) (out : ValueWriter W) (s : Store) (w : W) :
    Bool × Store × W :=
  let (ok, s) := s.setFromWire m name value true
  if ok then (true, s, w)
  else
    let (ok, w) := error out (lit "invalid set") w
    (ok, s, w)

/-- What a line asks for. -/
inductive Request
  | empty
  | malformed
  | watch (expression : Text)
  | values
  | udpPort
  | assignment (name value : Text)
  deriving DecidableEq

/-- The split of a line into a name and a value at its first `=`. -/
def request (line : Text) : Request :=
  let line := trim line
  if line = [] then .empty
  else match cut (chr '=') line with
    | none => .malformed
    | some (name, value) =>
      let name := trim name
      let value := trim value
      if name = lit "watch" then .watch value
      else if name = lit "values" then .values
      else if name = lit "udp_port" then .udpPort
      else .assignment name value

/-- `handle_line`, at the clock reading `nowUs`. -/
def handleLine (line : Text) (nowUs : ℕ) (out : ValueWriter W) (s : Store) (w : W) :
    Bool × Store × W :=
  match request line with
  | .empty => (true, s, w)
  | .malformed =>
    let (ok, w) := error out (lit "invalid request: missing '='") w
    (ok, s, w)
  | .watch expression => handleWatch m expression nowUs out s w
  | .values =>
    let (ok, w) := error out (lit "remote value registration not implemented") w
    (ok, s, w)
  | .udpPort => (true, s, w)
  | .assignment name value => handleAssignment m name value out s w

/-- `poll(out)`: a pass of the event loop, whose callbacks may change the state, then the watches
that a change or the clock makes due. -/
def poll (callbacks : PypilotState → PypilotState) (nowUs : ℕ) (out : ValueWriter W) (s : Store)
    (w : W) : Store × W :=
  let s := { s with state := callbacks s.state }
  let (s, w) := s.emitChangedWatches m out w
  s.emitDueWatches m nowUs out w

end Server

end Pypilot
