import Pypilot.ClientCopy
import Pypilot.Lib.Literal
import Pypilot.NumericTexts

/-!
# Real settings

A number that a client sets goes out with six decimals, without the zeros at its end and without a point that
nothing follows. Trimmed so, it is the same number, and the server stores it (`setReal_round_trip`).
-/

namespace Pypilot

open Text Decimal Numeral

namespace Client

/-! ## Trimming -/

theorem trimNumber_render (k : ℕ) (q : ℚ) :
    trimNumber (render k (.fin q)) = (trimmed k q).text := by
  have hnonempty : natural (scaled k q / 10 ^ k) ≠ [] := natural_ne_nil _
  have hdigit : ∀ c : Byte, Strtof.isDigit 10 c = true → c ≠ chr '.' ∧ c ≠ chr '-' := by
    intro c hc
    obtain ⟨d, hd, rfl⟩ := exists_digit hc
    exact (by decide +kernel : ∀ d < 10, digit d ≠ chr '.' ∧ digit d ≠ chr '-') d hd
  have hrender : render k (.fin q) = (sign q ++ natural (scaled k q / 10 ^ k)) ++
      chr '.' :: padded k (scaled k q) := rfl
  have hfront : (render k (.fin q)).dropWhile (fun c => decide (c = chr ' ')) =
      render k (.fin q) := by
    obtain ⟨c, s, hcons⟩ := List.exists_cons_of_ne_nil (show render k (.fin q) ≠ [] by simp [hrender])
    have hc : 45 ≤ c.toNat := le_of_mem_render (hcons ▸ List.mem_cons_self)
    have hne : c ≠ chr ' ' := by
      rintro rfl
      exact absurd hc (by decide)
    rw [hcons, dropWhile_eq_self (decide_eq_false hne)]
  have hzeros : (render k (.fin q)).rdropWhile (fun c => decide (c = chr '0')) =
      (sign q ++ natural (scaled k q / 10 ^ k)) ++ chr '.' :: trimmedFrac k (scaled k q) := by
    rw [hrender, rdropWhile_append_cons (by decide)]
    rfl
  have hlong : ∀ rest : Text,
      ¬ (sign q ++ (natural (scaled k q / 10 ^ k) ++ rest) = [] ∨
        sign q ++ (natural (scaled k q / 10 ^ k) ++ rest) = [chr '-']) := by
    obtain ⟨c, s, hcons⟩ := List.exists_cons_of_ne_nil hnonempty
    have hc := (hdigit c (isDigit_of_mem_natural (hcons ▸ List.mem_cons_self))).2
    intro rest
    rw [hcons]
    unfold sign
    split_ifs <;> simp [hc]
  unfold trimNumber
  rw [hfront]
  dsimp only
  rw [hzeros, trimmed_text]
  by_cases hfrac : trimmedFrac k (scaled k q) = []
  · rw [hfrac, List.getLast?_concat, if_pos rfl, if_pos rfl, List.dropLast_concat]
    have h := hlong []
    rw [List.append_nil] at h ⊢
    rw [if_neg h]
  · have hlast : ((sign q ++ natural (scaled k q / 10 ^ k)) ++
        chr '.' :: trimmedFrac k (scaled k q)).getLast? ≠ some (chr '.') := by
      rw [List.getLast?_append_of_ne_nil _ (List.cons_ne_nil _ _), List.getLast?_cons_of_ne_nil hfrac]
      intro h
      have hmem := (trimmedFrac_spec k (scaled k q)).subset (List.mem_of_getLast? h)
      exact (hdigit _ (isDigit_of_mem_padded hmem)).1 rfl
    rw [if_neg hlast, if_neg hfrac, List.append_assoc, if_neg (hlong _)]

/-- A trimmed number is no longer, and consists of plain bytes. -/
theorem trimmed_spec {q : ℚ} (hfits : (render 6 (.fin q)).length ≤ 31) :
    (trimmed 6 q).text.length ≤ 31 ∧ ∀ c ∈ (trimmed 6 q).text, 45 ≤ c.toNat := by
  have hprefix := trimmedFrac_spec 6 (scaled 6 q)
  rw [trimmed_text]
  constructor
  · have hlen := fixed_length 6 q
    have hfrac := hprefix.length_le
    rw [padded_length] at hfrac
    replace hfits : (fixed 6 q).length ≤ 31 := hfits
    simp only [List.length_append]
    split_ifs
    · rw [List.length_nil]
      omega
    · rw [List.length_cons]
      omega
  · have hmem : ∀ c ∈ sign q ++ (natural (scaled 6 q / 10 ^ 6) ++
        if trimmedFrac 6 (scaled 6 q) = [] then [] else chr '.' :: trimmedFrac 6 (scaled 6 q)),
        c ∈ render 6 (.fin q) := by
      intro c hc
      show c ∈ sign q ++ natural (scaled 6 q / 10 ^ 6) ++ chr '.' :: padded 6 (scaled 6 q)
      rcases List.mem_append.mp hc with hc | hc
      · exact List.mem_append_left _ (List.mem_append_left _ hc)
      rcases List.mem_append.mp hc with hc | hc
      · exact List.mem_append_left _ (List.mem_append_right _ hc)
      · refine List.mem_append_right _ ?_
        split_ifs at hc
        · exact absurd hc List.not_mem_nil
        · exact List.cons_subset_cons _ hprefix.subset hc
    exact fun c hc => le_of_mem_render (hmem c hc)

theorem setRealLine_eq (id : FieldId) {q : ℚ} (hfits : (render 6 (.fin q)).length ≤ 31) :
    setRealLine id.entry.name (.fin q) =
      some (id.entry.name ++ chr '=' :: ((trimmed 6 q).text ++ [chr '\n'])) := by
  obtain ⟨-, -, -, -, hname, hzero, -⟩ := field_name id
  obtain ⟨hlen, hplain⟩ := trimmed_spec hfits
  have hplain0 : (0 : Byte) ∉ (trimmed 6 q).text := fun h0 => (plain_of_le (hplain 0 h0)).2.2.2 rfl
  have hput : appendReal 32 [] (.fin q) = (trimmed 6 q).text := by
    unfold appendReal appendRaw
    rw [List.take_of_length_le hfits, trimNumber_render, List.nil_append]
    exact List.take_of_length_le hlen
  unfold setRealLine makeRecordRaw
  rw [hput, cstr_eq_self hplain0]
  refine makeRecord_eq (by simp [lit]) ?_ ?_ ?_
  · rw [List.length_append, List.length_cons]
    omega
  · simp only [List.length_append, List.length_cons, List.length_nil]
    unfold maxLineSize
    omega
  · simp only [List.mem_append, List.mem_cons, List.not_mem_nil, or_false, not_or]
    exact ⟨hzero, by decide, hplain0, by decide⟩

end Client

/-- **Real settings.** A number whose text fits the buffer, set by a client on a writable field, is accepted
by the server and stored rounded to six decimals; trimming keeps the number. -/
theorem setReal_round_trip {W : Type} (m : Machine) {s : Store} (hat : s.values.attached = true)
    {id : FieldId} (hwritable : id.entry.info.writable = true) (hkind : id.entry.kind = .real) (q : ℚ)
    (hfits : (render 6 (.fin q)).length ≤ 31) (nowUs : ℕ) (put : Text → W → W) (w : W) :
    ∃ line, Client.setRealLine id.entry.name (.fin q) = some line ∧
      (∀ message, .error message ∉ Server.lineEmissions m nowUs line s) ∧
      (Server.handleLine m line nowUs (.reliable put) s w).2.1.readReal id =
        some (m.toReal (rounded 6 (.fin q))) ∧
      Strtof.strtof (Client.trimNumber (render 6 (.fin q))) = some (rounded 6 (.fin q), []) ∧
      Strtof.strtof (render 6 (.fin q)) = some (rounded 6 (.fin q), []) := by
  obtain ⟨hlen, hplain⟩ := Client.trimmed_spec hfits
  have hread : Strtof.strtof (trimmed 6 q).text = some (rounded 6 (.fin q), []) := by
    rw [Literal.strtof_text, trimmed_value]
  have hparse : parseReal m (trimmed 6 q).text = some (m.toReal (rounded 6 (.fin q))) := by
    unfold parseReal
    rw [List.take_of_length_le hlen, hread]
    rfl
  have hrequest : Server.request (id.entry.name ++ chr '=' :: ((trimmed 6 q).text ++ [chr '\n'])) =
      .assignment id.entry.name (trimmed 6 q).text := by
    rw [request_assignment, trim_line_plain fun c hc => (plain_of_le (hplain c hc)).1]
  obtain ⟨haccepted, hstored⟩ :=
    Server.assignment_reads m nowUs put w hat hwritable hkind hrequest
  refine ⟨_, Client.setRealLine_eq id hfits, haccepted.mpr (by rw [hparse]; rfl),
    hstored _ hparse, ?_, strtof_render 6 _⟩
  rw [Client.trimNumber_render, hread]

/-- `ap.heading_command=350`, without the zeros of the decimals and with that of the number. -/
theorem setReal_round_trip_whole :
    ∃ line, Client.setRealLine (lit "ap.heading_command") (.fin 350) = some line ∧
      (∀ message, .error message ∉
        Server.lineEmissions default 0 line ⟨{}, { attached := true }⟩) ∧
      (Server.handleLine default line 0 StringValueWriter ⟨{}, { attached := true }⟩
        []).2.1.readReal .apHeadingCommand =
          some ((default : Machine).toReal (rounded 6 (.fin 350))) := by
  obtain ⟨line, hline, haccepted, hstored, -⟩ := setReal_round_trip default
    (show (⟨{}, { attached := true }⟩ : Store).values.attached = true from rfl)
    (show FieldId.apHeadingCommand.entry.info.writable = true from rfl) rfl 350 (by decide +kernel) 0
    (fun text out => out ++ text) []
  exact ⟨line, hline, haccepted, hstored⟩

end Pypilot
