import Pypilot.Lib.Numeral
import Pypilot.Outbox
import Pypilot.StringSetting
import Pypilot.WatchTable

/-!
# The lines of field calls

The client turns a watch, unwatch or set call on a registered field into a line. The server reads the line
of a watch call as one for this field with a period it can parse, and that of a set call as an
assignment, so only the former change its watches (`handleLine_watched`).
-/

namespace Pypilot

open Text Client Server

/-! ## Field calls -/

/-- A call on a registered field. -/
inductive FieldCall
  | watch (id : FieldId) (periodSeconds : Real)
  | unwatch (id : FieldId)
  | set (id : FieldId) (wireValue : Text)
  | setBool (id : FieldId) (value : Bool)
  | setReal (id : FieldId) (value : Real)
  | setString (id : FieldId) (value : Text)
  deriving DecidableEq

namespace FieldCall

/-- The call of the client. -/
def op {W : Type} : FieldCall → ClientOp W
  | watch id periodSeconds => .watch id.entry.name periodSeconds
  | unwatch id => .unwatch id.entry.name
  | set id wireValue => .set id.entry.name wireValue
  | setBool id value => .setBool id.entry.name value
  | setReal id value => .setReal id.entry.name value
  | setString id value => .setString id.entry.name value

/-- The line that the call hands on, when it makes one. -/
def line : FieldCall → Option Text
  | watch id periodSeconds => watchLine id.entry.name periodSeconds
  | unwatch id => unwatchLine id.entry.name
  | set id wireValue => setLine id.entry.name wireValue
  | setBool id value => setBoolLine id.entry.name value
  | setReal id value => setRealLine id.entry.name value
  | setString id value => setStringLine id.entry.name value

end FieldCall

/-! ## Periods -/

/-- The text of a period in a watch line. -/
def periodText (periodSeconds : Real) : Text :=
  if periodSeconds ≤ 0 then lit "true" else cstr (appendReal 32 [] periodSeconds)

theorem watchLine_eq (name : Text) (periodSeconds : Real) :
    watchLine name periodSeconds = makeWatch maxLineSize name (periodText periodSeconds) := by
  unfold watchLine makeWatchPeriod periodText
  split_ifs <;> rfl

/-- A numeral that starts with a digit keeps one when it is trimmed. -/
theorem trimNumber_digit {d : Byte} (hd : Strtof.isDigit 10 d = true) (s : Text) :
    ∃ d' t, trimNumber (d :: s) = d' :: t ∧ Strtof.isDigit 10 d' = true ∧
      ∀ c ∈ d' :: t, c ∈ d :: s ∨ c = chr '0' := by
  have hall : ∀ k < 10, Decimal.digit k ≠ chr ' ' ∧ Decimal.digit k ≠ chr '-' := by decide +kernel
  obtain ⟨k, hk, rfl⟩ := Numeral.exists_digit hd
  obtain ⟨hspace, hminus⟩ := hall k hk
  have hfront : (Decimal.digit k :: s).dropWhile (fun c => decide (c = chr ' ')) =
      Decimal.digit k :: s := dropWhile_eq_self (decide_eq_false hspace)
  -- what is left of the numeral is a prefix of it
  obtain ⟨u, hu, htrim⟩ : ∃ u, u <+: Decimal.digit k :: s ∧ trimNumber (Decimal.digit k :: s) =
      if u = [] ∨ u = [chr '-'] then u ++ [chr '0'] else u := by
    refine ⟨_, ?_, rfl⟩
    rw [hfront]
    have hprefix := List.rdropWhile_prefix (fun c => decide (c = chr '0')) (Decimal.digit k :: s)
    split_ifs
    · exact (List.dropLast_prefix _).trans hprefix
    · exact hprefix
  rcases u with _ | ⟨c, t⟩
  · exact ⟨chr '0', [], htrim, by decide, fun c hc => .inr (List.mem_singleton.mp hc)⟩
  · obtain ⟨rfl, -⟩ := List.cons_prefix_cons.mp hu
    refine ⟨_, t, ?_, hd, fun c hc => .inl (hu.subset hc)⟩
    rw [htrim, if_neg]
    simp [hminus]

/-- The text of a positive number starts with a digit. -/
theorem appendReal_digit {q : ℚ} (hq : 0 < q) :
    ∃ d t, appendReal 32 [] (.fin q) = d :: t ∧ Strtof.isDigit 10 d = true ∧
      (d :: t).length ≤ 31 ∧ ∀ c ∈ d :: t, 45 ≤ c.toNat := by
  obtain ⟨c, u, hdigits⟩ := List.exists_cons_of_ne_nil
    (Numeral.natural_ne_nil (Decimal.scaled 6 q / 10 ^ 6))
  have hc : Strtof.isDigit 10 c = true :=
    Numeral.isDigit_of_mem_natural (hdigits ▸ List.mem_cons_self)
  obtain ⟨v, hrender⟩ : ∃ v, Decimal.render 6 (.fin q) = c :: v := by
    refine ⟨u ++ chr '.' :: Decimal.padded 6 (Decimal.scaled 6 q), ?_⟩
    show Decimal.sign q ++ _ ++ _ = _
    rw [Decimal.sign, if_neg (not_lt.mpr hq.le), List.nil_append, hdigits]
    rfl
  obtain ⟨d, t, htrim, hd, hmem⟩ := trimNumber_digit hc (v.take 30)
  have hput : appendReal 32 [] (.fin q) = d :: t.take 30 := by
    unfold appendReal appendRaw
    rw [hrender]
    show [] ++ (trimNumber (c :: v.take 30)).take 31 = _
    rw [htrim]
    rfl
  refine ⟨d, t.take 30, hput, hd, ?_, ?_⟩
  · rw [List.length_cons, List.length_take]
    omega
  · intro b hb
    have hb' : b ∈ d :: t := by
      rcases List.mem_cons.mp hb with rfl | hb
      · exact List.mem_cons_self
      · exact List.mem_cons_of_mem _ (List.mem_of_mem_take hb)
    rcases hmem b hb' with hb | rfl
    · refine Decimal.le_of_mem_render (k := 6) (x := .fin q) ?_
      rw [hrender]
      rcases List.mem_cons.mp hb with rfl | hb
      · exact List.mem_cons_self
      · exact List.mem_cons_of_mem _ (List.mem_of_mem_take hb)
    · decide

/-- Bytes from 45 on are no blanks, commas, quotes or terminators. -/
theorem plain_of_le {c : Byte} (h : 45 ≤ c.toNat) :
    isBlank c = false ∧ c ≠ chr ',' ∧ c ≠ chr '"' ∧ c ≠ 0 := by
  have hne : ∀ b : Byte, b.toNat < 45 → c ≠ b := by
    rintro b hb rfl
    omega
  refine ⟨?_, hne _ (by decide), hne _ (by decide), hne _ (by decide)⟩
  unfold isBlank
  simp [hne (chr ' ') (by decide), hne (chr '\t') (by decide), hne (chr '\r') (by decide),
    hne (chr '\n') (by decide)]

theorem plain_word {word : Text} (h : (word.all fun c => decide (45 ≤ c.toNat)) = true) :
    ∀ c ∈ word, 45 ≤ c.toNat :=
  fun c hc => of_decide_eq_true (List.all_eq_true.mp h c hc)

/-- The text of a period is a word of plain bytes that the server accepts. -/
theorem periodText_spec (m : Machine) (periodSeconds : Real) :
    (∀ c ∈ periodText periodSeconds, 45 ≤ c.toNat) ∧ (periodText periodSeconds).length ≤ 31 ∧
      periodText periodSeconds ≠ lit "false" ∧
      (periodText periodSeconds = lit "true" ∨
        (parsePeriod m (periodText periodSeconds)).isSome = true) := by
  have hparse : ∀ w, parsePeriod m w = (Strtof.strtof ((trim w).take 31)).map fun p => m.toReal p.1 :=
    fun _ => rfl
  unfold periodText
  split_ifs with hzero
  · exact ⟨plain_word (by decide), by decide, by decide, .inl rfl⟩
  · cases periodSeconds with
    | nan =>
      have htext : cstr (appendReal 32 [] .nan) = lit "nan" := by decide
      rw [htext]
      refine ⟨plain_word (by decide), by decide, by decide, .inr ?_⟩
      rw [hparse, Option.isSome_map]
      decide +kernel
    | inf s =>
      have hs : s = false := by
        cases s
        · rfl
        · exact absurd (.inl rfl) hzero
      subst hs
      have htext : cstr (appendReal 32 [] (.inf false)) = lit "inf" := by decide
      rw [htext]
      refine ⟨plain_word (by decide), by decide, by decide, .inr ?_⟩
      rw [hparse, Option.isSome_map]
      decide +kernel
    | fin q =>
      have hq : 0 < q := by
        rw [ExtRat.ofNat_eq, ExtRat.fin_le_fin] at hzero
        exact_mod_cast not_le.mp hzero
      obtain ⟨d, t, hput, hd, hlen, hplain⟩ := appendReal_digit hq
      have htext : cstr (appendReal 32 [] (.fin q)) = d :: t := by
        rw [hput]
        exact cstr_eq_self fun h0 => (plain_of_le (hplain 0 h0)).2.2.2 rfl
      have htrim : trim (d :: t) = d :: t :=
        trim_eq_self fun c hc => (plain_of_le (hplain c hc)).1
      rw [htext]
      refine ⟨hplain, hlen, ?_, .inr ?_⟩
      · rintro heq
        rw [(List.cons.inj heq).1] at hd
        exact absurd hd (by decide)
      · rw [hparse, Option.isSome_map, htrim]
        exact Numeral.strtof_isSome hd (t.take 30)

/-! ## Watch requests for one field -/

/-- The entry of a key in a watch request. -/
def watchEntryText (key value : Text) : Text := chr '"' :: (key ++ chr '"' :: chr ':' :: value)

/-- The line of a watch request with one entry. -/
def watchRecord (key value : Text) : Text :=
  lit "watch" ++ chr '=' :: (chr '\x7b' :: watchEntryText key value ++ [chr '\x7d', chr '\n'])

theorem makeWatch_eq {key value : Text} (hlen : key.length + value.length ≤ 160)
    (hkey : (0 : Byte) ∉ key) (hvalue : (0 : Byte) ∉ value) :
    makeWatch maxLineSize key value = some (watchRecord key value) := by
  have hlinelen : (watchRecord key value).length = key.length + value.length + 12 := by
    unfold watchRecord watchEntryText lit
    simp only [List.length_append, List.length_cons, List.length_nil, List.length_map]
    show 5 + _ = _
    omega
  refine makeRecord_eq (by simp [watchRecord, watchEntryText, lit]) ?_ ?_ ?_
  · omega
  · unfold maxLineSize
    omega
  · have hword : (0 : Byte) ∉ lit "watch" := by decide
    unfold watchRecord watchEntryText
    simp only [List.mem_append, List.mem_cons, List.not_mem_nil, or_false, not_or]
    exact ⟨hword, by decide, ⟨by decide, by decide, hkey, by decide, by decide, hvalue⟩,
      by decide, by decide⟩

theorem trim_braced (inner : Text) :
    trim (chr '\x7b' :: inner ++ [chr '\x7d']) = chr '\x7b' :: inner ++ [chr '\x7d'] := by
  rw [trim, List.cons_append, dropWhile_eq_self (by decide), ← List.cons_append]
  exact rdropWhile_eq_self (by decide)

/-- A watch request keeps its braces, without the blanks around them. -/
theorem request_braced {a b : Text} (ha : ∀ c ∈ a, isBlank c = true) (hb : ∀ c ∈ b, isBlank c = true)
    (inner : Text) :
    request (lit "watch=" ++ (a ++ ((chr '\x7b' :: inner ++ [chr '\x7d']) ++ b))) =
      .watch (chr '\x7b' :: inner ++ [chr '\x7d']) := by
  have hbrace : isBlank (chr '\x7d') = false := by decide
  have hword : lit "watch=" = lit "watch" ++ [chr '='] := by decide
  have hline : trim (lit "watch=" ++ (a ++ ((chr '\x7b' :: inner ++ [chr '\x7d']) ++ b))) =
      lit "watch" ++ chr '=' :: (a ++ (chr '\x7b' :: inner ++ [chr '\x7d'])) := by
    have hfront : ∀ u : Text, (lit "watch" ++ u).dropWhile isBlank = lit "watch" ++ u := fun u =>
      dropWhile_eq_self (by decide)
    have hsplit : lit "watch=" ++ (a ++ ((chr '\x7b' :: inner ++ [chr '\x7d']) ++ b)) =
        lit "watch" ++ (chr '=' :: (a ++ chr '\x7b' :: inner) ++ chr '\x7d' :: b) := by
      rw [hword]
      simp
    have hblank : b.rdropWhile isBlank = [] := List.rdropWhile_eq_nil_iff.mpr hb
    rw [hsplit, trim, hfront, ← List.append_assoc, rdropWhile_append_cons hbrace, hblank]
    simp
  unfold request
  dsimp only
  rw [hline, if_neg (by simp [lit]), cut_append (by decide)]
  dsimp only
  rw [trim_blanks_append ha, trim_braced, if_pos (by decide)]

theorem request_watchRecord (key value : Text) :
    request (watchRecord key value) =
      .watch (chr '\x7b' :: watchEntryText key value ++ [chr '\x7d']) := by
  have hnone : ∀ c ∈ ([] : Text), isBlank c = true := fun _ h => absurd h List.not_mem_nil
  have hnewline : ∀ c ∈ [chr '\n'], isBlank c = true := List.forall_mem_singleton.mpr (by decide)
  have hsplit : watchRecord key value = lit "watch=" ++
      ([] ++ ((chr '\x7b' :: watchEntryText key value ++ [chr '\x7d']) ++ [chr '\n'])) := by
    have hword : lit "watch=" = lit "watch" ++ [chr '='] := by decide
    rw [hword]
    simp [watchRecord]
  rw [hsplit, request_braced hnone hnewline]

/-- What stands between the braces is what the loop works on. -/
theorem handleWatch_braced {W : Type} (m : Machine) (inner : Text) (nowUs : ℕ) (out : ValueWriter W)
    (s : Store) (w : W) :
    handleWatch m (chr '\x7b' :: inner ++ [chr '\x7d']) nowUs out s w =
      Loop.run (watchBody m nowUs out) (fun p => p.1.length) (watchBody_variant m nowUs out)
        (inner, s, w) := by
  have hlen : (chr '\x7b' :: inner ++ [chr '\x7d']).length = inner.length + 2 := by simp
  have hbraces : ¬ ((chr '\x7b' :: inner ++ [chr '\x7d']).length < 2 ∨
      (chr '\x7b' :: inner ++ [chr '\x7d']).head? ≠ some (chr '\x7b') ∨
      (chr '\x7b' :: inner ++ [chr '\x7d']).getLast? ≠ some (chr '\x7d')) := by
    rw [hlen, List.getLast?_concat]
    simp
  have hinner : ((chr '\x7b' :: inner ++ [chr '\x7d']).drop 1).take
      ((chr '\x7b' :: inner ++ [chr '\x7d']).length - 2) = inner := by
    rw [hlen, Nat.add_sub_cancel]
    show (inner ++ [chr '\x7d']).take _ = _
    rw [List.take_left]
  unfold handleWatch
  dsimp only
  rw [trim_braced, if_neg hbraces, hinner]

/-- The scanner finds a key in quotes, a colon, and a value up to the first comma or the end. -/
theorem watchItem_of_trim {expression key a b text : Text} (hkey : chr '"' ∉ key)
    (hexpression : trim expression = chr '"' :: (key ++ chr '"' :: (a ++ chr ':' :: (b ++ text))))
    (hafter : trim (a ++ chr ':' :: (b ++ text)) = chr ':' :: (b ++ text))
    (hbefore : trim (b ++ text) = text) :
    watchItem expression =
      (cut (chr ',') text).elim (.entry key (trim text) []) fun p => .entry key (trim p.1) p.2 := by
  unfold watchItem
  rw [hexpression]
  dsimp only
  rw [if_neg (by decide), if_neg (not_not.mpr rfl), cut_append hkey]
  dsimp only
  rw [hafter]
  dsimp only
  rw [if_neg (not_not.mpr rfl), hbefore]
  cases cut (chr ',') text <;> rfl

section Entry

variable {W : Type} (m : Machine) {key value : Text} (hkey : chr '"' ∉ key)
  (hvalue : ∀ c ∈ value, 45 ≤ c.toNat) (nowUs : ℕ) (out : ValueWriter W) (s : Store) (w : W)

include hkey hvalue

theorem watchItem_entryText : watchItem (watchEntryText key value) = .entry key value [] := by
  have hblank : ∀ c ∈ value, isBlank c = false := fun c hc => (plain_of_le (hvalue c hc)).1
  have hcomma : chr ',' ∉ value := fun h => (plain_of_le (hvalue _ h)).2.1 rfl
  have htrim : trim (watchEntryText key value) = watchEntryText key value := by
    have hsplit : watchEntryText key value =
        (chr '"' :: key ++ [chr '"']) ++ chr ':' :: value := by simp [watchEntryText]
    have hfront : (watchEntryText key value).dropWhile isBlank = watchEntryText key value :=
      dropWhile_eq_self (by decide)
    rw [trim, hfront, hsplit, rdropWhile_append_cons (by decide), rdropWhile_of_forall hblank]
  have hcolon : trim (chr ':' :: value) = chr ':' :: value := by
    refine trim_eq_self fun c hc => ?_
    rcases List.mem_cons.mp hc with rfl | hc
    · decide
    · exact hblank c hc
  rw [watchItem_of_trim (a := []) (b := []) hkey htrim hcolon (trim_eq_self hblank),
    cut_eq_none hcomma, Option.elim_none, trim_eq_self hblank]

/-- A request with one entry does what the entry asks for. -/
theorem handleLine_watchRecord :
    (handleLine m (watchRecord key value) nowUs out s w).2 =
      (watchEntry m key value nowUs out s w).2 := by
  have hdone : ∀ p : Store × W, watchBody m nowUs out ([], p) = .inr (true, p) := fun _ => rfl
  have hitem := watchItem_entryText hkey hvalue
  unfold handleLine
  rw [request_watchRecord]
  dsimp only
  rw [handleWatch_braced]
  rcases he : watchEntry m key value nowUs out s w with ⟨_ | ok, p⟩
  · rw [Loop.run_goes_on (watchBody_goes_on m hitem he), Loop.run_leaves (hdone p)]
  · rw [Loop.run_leaves (watchBody_leaves m hitem he)]

end Entry

/-! ## Field calls at the server -/

/-- A name that fits a slot has a line, whatever its period. -/
theorem watchLine_record_of_short {name : Text} (hlen : name.length < maxNameSize)
    (hname : (0 : Byte) ∉ name) (periodSeconds : Real) :
    watchLine name periodSeconds = some (watchRecord name (periodText periodSeconds)) := by
  obtain ⟨hplain, hshort, -⟩ := periodText_spec default periodSeconds
  have hperiod : (0 : Byte) ∉ periodText periodSeconds :=
    fun h0 => (plain_of_le (hplain 0 h0)).2.2.2 rfl
  rw [watchLine_eq]
  refine makeWatch_eq ?_ hname hperiod
  unfold maxNameSize at hlen
  omega

theorem line_watch (id : FieldId) (periodSeconds : Real) :
    (FieldCall.watch id periodSeconds).line =
      some (watchRecord id.entry.name (periodText periodSeconds)) := by
  obtain ⟨-, -, -, -, hlen, hname, -⟩ := field_name id
  exact watchLine_record_of_short (hlen.trans_lt (by decide)) hname periodSeconds

theorem line_unwatch (id : FieldId) :
    (FieldCall.unwatch id).line = some (watchRecord id.entry.name (lit "false")) := by
  obtain ⟨-, -, -, -, hlen, hname, -⟩ := field_name id
  exact makeWatch_eq (by show _ + 5 ≤ _; omega) hname (by decide)

/-- The record of a field starts with its name. -/
theorem makeRecordRaw_field {id : FieldId} {json line : Text}
    (h : makeRecordRaw maxLineSize id.entry.name json = some line) :
    ∃ rest, line = id.entry.name ++ chr '=' :: rest := by
  obtain ⟨-, -, -, -, hlen, hname, -⟩ := field_name id
  have hhead : (0 : Byte) ∉ id.entry.name ++ [chr '='] := by
    rw [List.mem_append, not_or]
    exact ⟨hname, by decide⟩
  have hflat : [id.entry.name, lit "=", json, lit "\n"].flatten =
      (id.entry.name ++ [chr '=']) ++ (json ++ [chr '\n']) := by simp [lit]
  have hfits : (id.entry.name ++ [chr '=']).length ≤ maxLineSize - 1 := by
    rw [List.length_append]
    exact (Nat.add_le_add_right hlen 1).trans (by decide)
  unfold makeRecordRaw makeRecord at h
  rw [foldl_appendRaw _ (Nat.zero_le _), List.nil_append, hflat, List.take_append,
    List.take_of_length_le hfits] at h
  dsimp only at h
  split_ifs at h
  rw [cstr_append hhead, List.append_assoc] at h
  exact ⟨_, (Option.some.inj h).symm⟩

namespace FieldCall

/-- Whether a field is watched after the call, by whether there was room for another and whether it was
watched before. -/
def tells (call : FieldCall) (id : FieldId) (room before : Prop) : Prop :=
  match call with
  | watch id' _ => id = id' ∧ room ∨ before
  | unwatch id' => id ≠ id' ∧ before
  | _ => before

variable {W : Type} (m : Machine) (nowUs : ℕ) (out : ValueWriter W) {s : Store} (w : W)

/-- **Field calls.** The server follows the watch and unwatch calls that it is sent. -/
theorem handleLine_watched (hs : s.SingleWatches) {call : FieldCall} {text : Text}
    (hline : call.line = some text) (id : FieldId) :
    (handleLine m text nowUs out s w).2.1.Watched id ↔ call.tells id True (s.Watched id) := by
  have hset : ∀ (id' : FieldId) (json : Text),
      makeRecordRaw maxLineSize id'.entry.name json = some text →
      ((handleLine m text nowUs out s w).2.1.Watched id ↔ s.Watched id) := by
    intro id' json hrecord
    obtain ⟨rest, rfl⟩ := makeRecordRaw_field hrecord
    rw [handleLine_assignment m (request_assignment id' rest)]
    rcases Store.setFromWire_cases m s id'.entry.name (trim (rest.rdropWhile isBlank)) true with
      hfail | ⟨d, -, -, hd⟩
    · rw [hfail]
    · exact Store.watched_congr hd.watches id
  cases call with
  | set id' wireValue => exact hset id' wireValue hline
  | setBool id' value => exact hset id' _ hline
  | setReal id' value => exact hset id' _ hline
  | setString id' value => exact hset id' _ hline
  | watch id' periodSeconds =>
    obtain ⟨-, -, hquote, -, -, -, -, hvalues, -⟩ := field_name id'
    obtain ⟨hplain, -, hfalse, hperiod⟩ := periodText_spec m periodSeconds
    rw [line_watch] at hline
    rw [← Option.some.inj hline, handleLine_watchRecord m hquote hplain]
    obtain ⟨period, hread⟩ : ∃ period,
        (if periodText periodSeconds = lit "true" then some 0
          else parsePeriod m (periodText periodSeconds)) = some period := by
      split_ifs with htrue
      · exact ⟨0, rfl⟩
      · exact Option.isSome_iff_exists.mp (hperiod.resolve_left htrue)
    obtain ⟨hfound, hwatched⟩ := Store.watch_watched m period nowUs (some out) w hs id'
    have hentry : (watchEntry m id'.entry.name (periodText periodSeconds) nowUs out s w).2.1 =
        (s.watch m id'.entry.name period nowUs (some out) w).2.1 := by
      unfold watchEntry
      rw [if_neg hvalues, if_neg hfalse, hread]
      dsimp only
      rw [if_pos hfound]
    rw [hentry, hwatched]
    exact or_congr_left (iff_of_eq (and_true _)).symm
  | unwatch id' =>
    obtain ⟨-, -, hquote, -, -, -, -, hvalues, -⟩ := field_name id'
    have hplain : ∀ c ∈ lit "false", 45 ≤ c.toNat := plain_word (by decide)
    rw [line_unwatch] at hline
    rw [← Option.some.inj hline, handleLine_watchRecord m hquote hplain]
    have hentry : (watchEntry m id'.entry.name (lit "false") nowUs out s w).2.1 =
        (s.unwatch id'.entry.name).2 := by
      unfold watchEntry
      rw [if_neg hvalues, if_pos rfl]
    rw [hentry]
    exact Store.unwatch_watched s id' id

/-! ## Sequences of calls -/

/-- The calls leave the field watched: it was at `first` and none of them unwatches it, or one of them
watches it, with room for it, and none behind that unwatches it. -/
def leaves (first : Prop) (room : List FieldCall → Prop) (calls : List FieldCall) (id : FieldId) :
    Prop :=
  (first ∧ unwatch id ∉ calls) ∨
    ∃ before periodSeconds after, calls = before ++ watch id periodSeconds :: after ∧
      room before ∧ unwatch id ∉ after

theorem leaves_nil (first : Prop) (room : List FieldCall → Prop) (id : FieldId) :
    leaves first room [] id ↔ first := by
  unfold leaves
  simp

/-- What the first call tells is what holds before the other calls. -/
theorem leaves_cons (first : Prop) (room : List FieldCall → Prop) (call : FieldCall)
    (calls : List FieldCall) (id : FieldId) :
    leaves first room (call :: calls) id ↔
      leaves (call.tells id (room []) first) (fun before => room (call :: before)) calls id := by
  constructor
  · rintro (⟨hfirst, hnot⟩ | ⟨before, periodSeconds, after, heq, hroom, hafter⟩)
    · rw [List.mem_cons, not_or] at hnot
      refine .inl ⟨?_, hnot.2⟩
      cases call with
      | watch id' periodSeconds => exact .inr hfirst
      | unwatch id' => exact ⟨fun hid => hnot.1 (congrArg unwatch hid), hfirst⟩
      | _ => exact hfirst
    · rcases before with _ | ⟨call', before⟩
      · obtain ⟨rfl, rfl⟩ := List.cons.inj heq
        exact .inl ⟨.inl ⟨rfl, hroom⟩, hafter⟩
      · obtain ⟨rfl, rfl⟩ := List.cons.inj heq
        exact .inr ⟨before, periodSeconds, after, rfl, hroom, hafter⟩
  · rintro (⟨htold, hnot⟩ | ⟨before, periodSeconds, after, rfl, hroom, hafter⟩)
    · have hother : first → (∀ id', call = unwatch id' → id ≠ id') →
          leaves first room (call :: calls) id := by
        refine fun hfirst hcall => .inl ⟨hfirst, ?_⟩
        rw [List.mem_cons, not_or]
        exact ⟨fun heq => hcall id heq.symm rfl, hnot⟩
      cases call with
      | watch id' periodSeconds =>
        rcases htold with ⟨rfl, hroom⟩ | hfirst
        · exact .inr ⟨[], periodSeconds, calls, rfl, hroom, hnot⟩
        · exact hother hfirst fun _ h => nomatch h
      | unwatch id' =>
        refine hother htold.2 fun id'' h => ?_
        rw [← unwatch.inj h]
        exact htold.1
      | _ => exact hother htold fun _ h => nomatch h
    · exact .inr ⟨call :: before, periodSeconds, after, rfl, hroom, hafter⟩

/-- Watch calls for which there is room leave their fields watched. -/
theorem leaves_append_watches {first : Prop} {calls watches : List FieldCall}
    (hwatches : ∀ call ∈ watches, ∃ id periodSeconds, call = watch id periodSeconds) (id : FieldId) :
    leaves first (fun _ => True) (calls ++ watches) id ↔
      leaves first (fun _ => True) calls id ∨ ∃ periodSeconds, watch id periodSeconds ∈ watches := by
  have hnot : unwatch id ∉ watches := by
    intro h
    obtain ⟨id', periodSeconds, heq⟩ := hwatches _ h
    exact nomatch heq
  induction calls generalizing first with
  | nil =>
    rw [List.nil_append, leaves_nil]
    constructor
    · rintro (⟨hfirst, -⟩ | ⟨before, periodSeconds, after, rfl, -, -⟩)
      · exact .inl hfirst
      · exact .inr ⟨periodSeconds, List.mem_append_right _ List.mem_cons_self⟩
    · rintro (hfirst | ⟨periodSeconds, hmem⟩)
      · exact .inl ⟨hfirst, hnot⟩
      · obtain ⟨before, after, rfl⟩ := List.append_of_mem hmem
        refine .inr ⟨before, periodSeconds, after, rfl, trivial, fun h => hnot ?_⟩
        exact List.mem_append_right _ (List.mem_cons_of_mem _ h)
  | cons call calls ih =>
    rw [List.cons_append, leaves_cons, leaves_cons]
    exact ih

end FieldCall

end Pypilot
