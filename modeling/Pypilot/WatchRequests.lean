import Pypilot.Lib.Literal
import Pypilot.RegistryRuns
import Pypilot.WatchLines

/-!
# Watch requests

A watch request is a JSON object: keys in quotes, `true`, `false` or decimal literals for values, and blanks
anywhere between them. The loop of the server takes one pair after the other off the front of the text,
whatever blanks it leaves at the end, and does what the pair asks for (`handleLine_watchRequest`).
-/

namespace Pypilot

open Text Server Numeral

/-! ## Requests -/

/-- Spaces, tabs, carriage returns and newlines. -/
structure Blanks where
  text : Text := []
  blank : ∀ c ∈ text, isBlank c = true

inductive WatchKey
  | field (id : FieldId)
  | values

inductive WatchValue
  | yes
  | no
  | period (l : Literal) (short : l.text.length ≤ 31)

def WatchKey.text : WatchKey → Text
  | field id => id.entry.name
  | values => lit "values"

def WatchValue.text : WatchValue → Text
  | yes => lit "true"
  | no => lit "false"
  | period l _ => l.text

structure WatchPair where
  key : WatchKey
  value : WatchValue
  beforeKey : Blanks
  afterKey : Blanks
  beforeValue : Blanks
  afterValue : Blanks

/-- A pair from its key on. -/
def WatchPair.body (pair : WatchPair) : Text :=
  chr '"' :: (pair.key.text ++ chr '"' :: (pair.afterKey.text ++ chr ':' ::
    (pair.beforeValue.text ++ pair.value.text)))

def WatchPair.text (pair : WatchPair) : Text :=
  pair.beforeKey.text ++ (pair.body ++ pair.afterValue.text)

/-- The pairs with commas between them. -/
def pairsText : List WatchPair → Text
  | [] => []
  | [pair] => pair.text
  | pair :: next :: pairs => pair.text ++ chr ',' :: pairsText (next :: pairs)

structure WatchRequest where
  pairs : List WatchPair
  beforeOpen : Blanks
  afterOpen : Blanks
  afterClose : Blanks

def WatchRequest.inner (request : WatchRequest) : Text :=
  request.afterOpen.text ++ pairsText request.pairs

/-- The line of a request. -/
def WatchRequest.line (request : WatchRequest) : Text :=
  lit "watch=" ++ (request.beforeOpen.text ++
    ((chr '\x7b' :: request.inner ++ [chr '\x7d']) ++ request.afterClose.text))

/-! ## What a request asks for -/

section Meaning

variable {W : Type} (m : Machine) (nowUs : ℕ) (out : ValueWriter W)

/-- What a pair asks for, and whether it succeeds: a listing that cannot be written fails. -/
def WatchPair.perform (pair : WatchPair) (p : Store × W) : Bool × Store × W :=
  match pair.key, pair.value with
  | .field id, .yes => (true, (p.1.watch m id.entry.name 0 nowUs (some out) p.2).2)
  | .field id, .no => (true, (p.1.unwatch id.entry.name).2, p.2)
  | .field id, .period l _ =>
    (true, (p.1.watch m id.entry.name (m.toReal (.fin l.value)) nowUs (some out) p.2).2)
  | .values, .no => (true, p)
  | .values, _ =>
    let (ok, w) := putAll
      [out.write (lit "values="), Store.writeValuesJson out, out.writeChar (chr '\n')] p.2
    (ok, p.1, w)

/-- Pairs from left to right, up to a listing that fails. -/
def performAll : List WatchPair → Store × W → Bool × Store × W
  | [], p => (true, p)
  | pair :: pairs, p =>
    if (pair.perform m nowUs out p).1 then performAll pairs (pair.perform m nowUs out p).2
    else pair.perform m nowUs out p

end Meaning

/-- What a pair writes: the line of the field, or the listing. -/
def WatchPair.emissions (pair : WatchPair) : List Emission :=
  match pair.key, pair.value with
  | .field _, .no => []
  | .field id, _ => [.value id]
  | .values, .no => []
  | .values, _ => [.listing]

theorem WatchPair.error_not_mem (pair : WatchPair) (message : Text) :
    .error message ∉ pair.emissions := by
  obtain ⟨key, value⟩ := pair
  cases key <;> cases value <;> simp [emissions]

/-! ## Reading -/

theorem quote_not_mem_key (key : WatchKey) : chr '"' ∉ key.text := by
  cases key with
  | field id =>
    obtain ⟨-, -, hquote, -⟩ := field_name id
    exact hquote
  | values => decide

/-- A value is a word without blanks and commas. -/
theorem value_spec (value : WatchValue) :
    value.text ≠ [] ∧ ∀ c ∈ value.text, isBlank c = false ∧ c ≠ chr ',' := by
  have hkeyword : ∀ c, 45 ≤ c.toNat → isBlank c = false ∧ c ≠ chr ',' := by
    intro c hc
    obtain ⟨hblank, hcomma, -⟩ := plain_of_le hc
    exact ⟨hblank, hcomma⟩
  cases value with
  | yes => exact ⟨by decide, fun c hc => hkeyword c (plain_word (by decide) c hc)⟩
  | no => exact ⟨by decide, fun c hc => hkeyword c (plain_word (by decide) c hc)⟩
  | period l short =>
    refine ⟨l.text_ne_nil, fun c hc => ?_⟩
    obtain ⟨-, hblank, hcomma, -⟩ := literalByte_spec (l.isLiteralByte_of_mem hc)
    exact ⟨hblank, hcomma⟩

/-- Trimming takes nothing from a text between a mark and a word. -/
theorem trim_mark {c : Byte} (hc : isBlank c = false) {s word : Text} (hne : word ≠ [])
    (hword : ∀ c ∈ word, isBlank c = false) :
    trim (c :: (s ++ word)) = c :: (s ++ word) := by
  obtain ⟨front, last, rfl⟩ : ∃ front last, word = front ++ [last] := by
    rcases List.eq_nil_or_concat' word with rfl | h
    · exact absurd rfl hne
    · exact h
  have hlast : isBlank last = false := hword last (by simp)
  have hsplit : c :: (s ++ (front ++ [last])) = (c :: s ++ front) ++ [last] := by simp
  rw [trim, dropWhile_eq_self hc, hsplit, rdropWhile_eq_self hlast]

/-- Trimming takes nothing from a text between a mark and a comma. -/
theorem trim_before_comma {u : Text} (hu : ∀ c ∈ u, isBlank c = true) {c : Byte}
    (hc : isBlank c = false) (s rest : Text) :
    trim (u ++ (c :: s ++ chr ',' :: rest)) = c :: s ++ chr ',' :: rest.rdropWhile isBlank := by
  rw [trim, List.dropWhile_append_of_pos hu, List.cons_append, dropWhile_eq_self hc,
    ← List.cons_append, rdropWhile_append_cons (by decide)]

theorem body_append (pair : WatchPair) (tail : Text) :
    pair.body ++ tail = chr '"' :: (pair.key.text ++ chr '"' :: (pair.afterKey.text ++
      chr ':' :: (pair.beforeValue.text ++ (pair.value.text ++ tail)))) := by
  simp [WatchPair.body]

/-- The last pair: nothing follows the value. -/
theorem watchItem_last {expression : Text} {pair : WatchPair}
    (h : trim expression = trim pair.text) :
    watchItem expression = .entry pair.key.text pair.value.text [] := by
  obtain ⟨hne, hvalue⟩ := value_spec pair.value
  have hword : ∀ c ∈ pair.value.text, isBlank c = false := fun c hc => (hvalue c hc).1
  have hcomma : chr ',' ∉ pair.value.text := fun hc => (hvalue _ hc).2 rfl
  have htrim : trim pair.value.text = pair.value.text := trim_eq_self hword
  have hbody := body_append pair []
  rw [List.append_nil, List.append_nil] at hbody
  have hexpression : trim expression = chr '"' :: (pair.key.text ++ chr '"' ::
      (pair.afterKey.text ++ chr ':' :: (pair.beforeValue.text ++ pair.value.text))) := by
    have hmark : chr '"' :: (pair.key.text ++ chr '"' :: (pair.afterKey.text ++
        chr ':' :: (pair.beforeValue.text ++ pair.value.text))) = chr '"' :: ((pair.key.text ++
        chr '"' :: (pair.afterKey.text ++ chr ':' :: pair.beforeValue.text)) ++ pair.value.text) := by
      simp
    rw [h, WatchPair.text, trim_append_blanks pair.beforeKey.blank pair.afterValue.blank, hbody, hmark]
    exact trim_mark (by decide) hne hword
  have hafter : trim (pair.afterKey.text ++ chr ':' :: (pair.beforeValue.text ++ pair.value.text)) =
      chr ':' :: (pair.beforeValue.text ++ pair.value.text) := by
    rw [trim_blanks_append pair.afterKey.blank]
    exact trim_mark (by decide) hne hword
  have hbefore : trim (pair.beforeValue.text ++ pair.value.text) = pair.value.text := by
    rw [trim_blanks_append pair.beforeValue.blank, htrim]
  rw [watchItem_of_trim (quote_not_mem_key pair.key) hexpression hafter hbefore, cut_eq_none hcomma,
    Option.elim_none, htrim]

/-- A pair before a comma: the round leaves what follows, up to the blanks at its end. -/
theorem watchItem_next {expression u : Text} {pair : WatchPair}
    (h : trim expression = trim (pair.text ++ chr ',' :: u)) :
    watchItem expression = .entry pair.key.text pair.value.text (u.rdropWhile isBlank) := by
  obtain ⟨hne, hvalue⟩ := value_spec pair.value
  have hword : ∀ c ∈ pair.value.text, isBlank c = false := fun c hc => (hvalue c hc).1
  have hfree : chr ',' ∉ pair.value.text ++ pair.afterValue.text := by
    rw [List.mem_append, not_or]
    exact ⟨fun hc => (hvalue _ hc).2 rfl, fun hc => absurd (pair.afterValue.blank _ hc) (by decide)⟩
  obtain ⟨rest, hrest⟩ : ∃ rest, u.rdropWhile isBlank = rest := ⟨_, rfl⟩
  have hidem : rest.rdropWhile isBlank = rest := by
    rw [← hrest, List.rdropWhile_idempotent]
  have hbody := body_append pair (pair.afterValue.text ++ chr ',' :: rest)
  have hexpression : trim expression = pair.body ++ (pair.afterValue.text ++ chr ',' :: rest) := by
    have hsplit : pair.text ++ chr ',' :: u = pair.beforeKey.text ++
        (chr '"' :: (pair.body.tail ++ pair.afterValue.text) ++ chr ',' :: u) := by
      simp [WatchPair.text, WatchPair.body]
    rw [h, hsplit, trim_before_comma pair.beforeKey.blank (by decide), hrest]
    simp [WatchPair.body]
  have hafter : trim (pair.afterKey.text ++ chr ':' :: (pair.beforeValue.text ++ (pair.value.text ++
      (pair.afterValue.text ++ chr ',' :: rest)))) = chr ':' :: (pair.beforeValue.text ++
        (pair.value.text ++ (pair.afterValue.text ++ chr ',' :: rest))) := by
    have hsplit : chr ':' :: (pair.beforeValue.text ++ (pair.value.text ++
          (pair.afterValue.text ++ chr ',' :: rest))) =
        chr ':' :: (pair.beforeValue.text ++ (pair.value.text ++ pair.afterValue.text)) ++
          chr ',' :: rest := by simp
    rw [hsplit, trim_before_comma pair.afterKey.blank (by decide), hidem]
  have hbefore : trim (pair.beforeValue.text ++ (pair.value.text ++ (pair.afterValue.text ++
      chr ',' :: rest))) = pair.value.text ++ (pair.afterValue.text ++ chr ',' :: rest) := by
    obtain ⟨c, t, hct⟩ := List.exists_cons_of_ne_nil hne
    have hc : isBlank c = false := hword c (hct ▸ List.mem_cons_self)
    have hsplit : pair.value.text ++ (pair.afterValue.text ++ chr ',' :: rest) =
        c :: (t ++ pair.afterValue.text) ++ chr ',' :: rest := by simp [hct]
    rw [hsplit, trim_before_comma pair.beforeValue.blank hc, hidem]
  rw [watchItem_of_trim (quote_not_mem_key pair.key) (hexpression.trans hbody) hafter hbefore,
    ← List.append_assoc, cut_append hfree, Option.elim_some,
    trim_append_of_blank pair.afterValue.blank, trim_eq_self hword, hrest]

/-- **One round.** From the front of a text, up to blanks at its ends, the loop takes the first pair. -/
theorem watchItem_pair {expression : Text} {pair : WatchPair} {pairs : List WatchPair}
    (h : trim expression = trim (pairsText (pair :: pairs))) :
    ∃ rest, watchItem expression = .entry pair.key.text pair.value.text rest ∧
      trim rest = trim (pairsText pairs) := by
  cases pairs with
  | nil => exact ⟨[], watchItem_last h, rfl⟩
  | cons next pairs => exact ⟨_, watchItem_next h, trim_rdropWhile _⟩

/-! ## Performing -/

section Perform

variable {W : Type} (m : Machine) (nowUs : ℕ) (out : ValueWriter W) {s : Store}

/-- A literal is no keyword, and its value is the period. -/
theorem parsePeriod_literal {l : Literal} (short : l.text.length ≤ 31) :
    l.text ≠ lit "true" ∧ l.text ≠ lit "false" ∧
      parsePeriod m l.text = some (m.toReal (.fin l.value)) := by
  have hread := l.strtof_text
  have hkeyword : ∀ t : Text, Strtof.strtof t = none → l.text ≠ t := by
    rintro t ht rfl
    exact nomatch ht.symm.trans hread
  refine ⟨hkeyword _ (by decide +kernel), hkeyword _ (by decide +kernel), ?_⟩
  have htrim : trim l.text = l.text := trim_eq_self fun c hc =>
    (literalByte_spec (l.isLiteralByte_of_mem hc)).2.1
  show (Strtof.strtof ((trim l.text).take 31)).map (fun p => m.toReal p.1) = _
  rw [htrim, List.take_of_length_le short, hread]
  rfl

theorem watch_found (hs : s.SingleWatches) (id : FieldId) (periodSeconds : Real) (w : W) :
    (s.watch m id.entry.name periodSeconds nowUs (some out) w).1 = true :=
  (Store.watch_watched m periodSeconds nowUs (some out) w hs id).1

/-- The loop does with an entry what the pair asks for. -/
theorem watchEntry_pair (hs : s.SingleWatches) (pair : WatchPair) (w : W) :
    watchEntry m pair.key.text pair.value.text nowUs out s w =
      (if (pair.perform m nowUs out (s, w)).1 then none else some false,
        (pair.perform m nowUs out (s, w)).2) := by
  obtain ⟨key, value⟩ := pair
  unfold watchEntry
  cases key with
  | field id =>
    obtain ⟨-, -, -, -, -, -, -, hvalues, -⟩ := field_name id
    rw [if_neg (show WatchKey.text (.field id) ≠ lit "values" from hvalues)]
    cases value with
    | no => rfl
    | yes =>
      rw [if_neg (show WatchValue.text .yes ≠ lit "false" by decide),
        if_pos (show WatchValue.text .yes = lit "true" from rfl)]
      exact if_pos (watch_found m nowUs out hs id 0 w)
    | period l short =>
      obtain ⟨htrue, hfalse, hread⟩ := parsePeriod_literal m short
      rw [if_neg (show WatchValue.text (.period l short) ≠ lit "false" from hfalse),
        if_neg (show WatchValue.text (.period l short) ≠ lit "true" from htrue),
        show parsePeriod m (WatchValue.text (.period l short)) = _ from hread]
      exact if_pos (watch_found m nowUs out hs id _ w)
  | values =>
    rw [if_pos (show WatchKey.text .values = lit "values" from rfl)]
    have hlisting : ∀ v : WatchValue, v ≠ .no → v.text ≠ lit "false" := by
      intro v hv
      cases v with
      | yes => decide
      | no => exact absurd rfl hv
      | period l short => exact (parsePeriod_literal m short).2.1
    cases value with
    | no => rfl
    | yes | period l short =>
      rw [if_neg (hlisting _ (by simp))]
      unfold WatchPair.perform
      dsimp only
      split_ifs <;> rfl

/-- **The loop.** It performs the pairs, of which it finds one at a time. -/
theorem run_pairs (hs : s.SingleWatches) {pairs : List WatchPair} {expression : Text}
    (h : trim expression = trim (pairsText pairs)) (w : W) :
    Loop.run (watchBody m nowUs out) (fun p => p.1.length) (watchBody_variant m nowUs out)
      (expression, s, w) = performAll m nowUs out pairs (s, w) := by
  induction pairs generalizing expression s w with
  | nil =>
    have hdone : watchBody m nowUs out (expression, s, w) = .inr (true, s, w) := by
      have hitem : watchItem expression = .done := by
        unfold watchItem
        rw [h]
        rfl
      unfold watchBody
      dsimp only
      rw [hitem]
    rw [Loop.run_leaves hdone]
    rfl
  | cons pair pairs ih =>
    obtain ⟨rest, hitem, hrest⟩ := watchItem_pair h
    have hentry := watchEntry_pair m nowUs out hs pair w
    have hsingle : (pair.perform m nowUs out (s, w)).2.1.SingleWatches := by
      have hkept := singleWatches_watchEntry m pair.key.text pair.value.text nowUs out hs w
      rw [hentry] at hkept
      exact hkept
    unfold performAll
    by_cases hok : (pair.perform m nowUs out (s, w)).1 = true
    · rw [if_pos hok] at hentry
      rw [Loop.run_goes_on (watchBody_goes_on m hitem hentry), if_pos hok]
      exact ih hsingle hrest _
    · rw [if_neg hok] at hentry
      rw [Loop.run_leaves (watchBody_leaves m hitem hentry), if_neg hok,
        ← Bool.eq_false_of_not_eq_true hok]

end Perform

section Lines

variable {W : Type} (m : Machine) (nowUs : ℕ) {s : Store}

theorem handleLine_pairs (out : ValueWriter W) (hs : s.SingleWatches) (r : WatchRequest) (w : W) :
    handleLine m r.line nowUs out s w = performAll m nowUs out r.pairs (s, w) := by
  have htrim : trim r.inner = trim (pairsText r.pairs) := trim_blanks_append r.afterOpen.blank _
  unfold handleLine
  rw [WatchRequest.line, request_braced r.beforeOpen.blank r.afterClose.blank]
  dsimp only
  rw [handleWatch_braced]
  exact run_pairs m nowUs out hs htrim w

variable (put : Text → W → W)

/-- Behind a reliable writer a pair succeeds, and writes its emissions. -/
theorem perform_reliable (pair : WatchPair) (p : Store × W) :
    let r := pair.perform m nowUs (.reliable put) p
    r.1 = true ∧ Store.Rewatches p.1 r.2.1 ∧ r.2.2 = emit m put p.1 pair.emissions p.2 := by
  obtain ⟨s, w⟩ := p
  obtain ⟨key, value⟩ := pair
  cases key with
  | field id =>
    cases value with
    | no => exact ⟨rfl, Store.unwatch_rewatches s _, rfl⟩
    | yes | period l short =>
      refine ⟨rfl, Store.watch_rewatches m s _ _ _ _ w, ?_⟩
      unfold WatchPair.perform
      dsimp only
      simp only [watch_reliable, find_entry, entry_id]
      rfl
  | values =>
    cases value with
    | no => exact ⟨rfl, .refl s, rfl⟩
    | yes | period l short =>
      unfold WatchPair.perform
      dsimp only
      rw [listing_reliable m put s w]
      refine ⟨rfl, .refl s, ?_⟩
      dsimp only [WatchPair.emissions]

theorem performAll_reliable (pairs : List WatchPair) (p : Store × W) :
    performAll m nowUs (.reliable put) pairs p =
        (true, pairs.foldl (fun p pair => (pair.perform m nowUs (.reliable put) p).2) p) ∧
      (performAll m nowUs (.reliable put) pairs p).2.2 =
        emit m put p.1 (pairs.flatMap WatchPair.emissions) p.2 := by
  induction pairs generalizing p with
  | nil => exact ⟨rfl, rfl⟩
  | cons pair pairs ih =>
    obtain ⟨hok, hsame, hout⟩ := perform_reliable m nowUs put pair p
    obtain ⟨hrest, hwritten⟩ := ih (pair.perform m nowUs (.reliable put) p).2
    unfold performAll
    rw [if_pos hok]
    refine ⟨hrest, ?_⟩
    rw [hwritten, hout, emit_rewatches m put hsame, List.flatMap_cons, emit_append]

/-- **Watch requests.** Whatever was done with the registry before, a request performs its pairs from left
to right. Behind a writer that does not fail it performs all of them, and writes the lines of the fields
and the listings they ask for and no error. -/
theorem handleLine_watchRequest {W₀ : Type} (out₀ : ValueWriter W₀) (w₀ : W₀) (st : PypilotState)
    (history : List RegistryCall) (request : WatchRequest) :
    let s := (history.foldl (RegistryCall.step m out₀) (RegistryCall.start st w₀)).1
    (∀ (out : ValueWriter W) w, handleLine m request.line nowUs out s w =
      performAll m nowUs out request.pairs (s, w)) ∧
    ∀ w, handleLine m request.line nowUs (.reliable put) s w =
        (true, request.pairs.foldl (fun p pair => (pair.perform m nowUs (.reliable put) p).2) (s, w)) ∧
      (handleLine m request.line nowUs (.reliable put) s w).2.2 =
        emit m put s (request.pairs.flatMap WatchPair.emissions) w ∧
      ∀ message, .error message ∉ request.pairs.flatMap WatchPair.emissions := by
  intro s
  have hs : s.SingleWatches :=
    RegistryCall.foldl_single m out₀ (RegistryCall.single_start st w₀) history
  refine ⟨fun out w => handleLine_pairs m nowUs out hs request w, fun w => ?_⟩
  rw [handleLine_pairs m nowUs _ hs]
  obtain ⟨hall, hwritten⟩ := performAll_reliable m nowUs put request.pairs (s, w)
  refine ⟨hall, hwritten, fun message hmem => ?_⟩
  obtain ⟨pair, -, herror⟩ := List.mem_flatMap.mp hmem
  exact pair.error_not_mem message herror

end Lines

end Pypilot
