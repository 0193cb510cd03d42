import Pypilot.NmeaChecksum

/-!
# Rendered sentences

A sentence written out with its checksum is parsed back (`parseLineOut_render`). The checksum is a sum of
bytes without carry, so it tells a body from the same body with one byte replaced.
-/

namespace Pypilot.Nmea

open Text

/-! ## Bodies -/

/-- The body of a sentence: talker and type, and a comma in front of every field. -/
def bodyText (talker type : Text) (fields : List Text) : Text :=
  talker ++ type ++ fields.flatMap fun field => chr ',' :: field

/-- A sentence with the body and two digits behind the star. -/
def lineText (body : Text) (hi lo : Byte) (rest : Text) : Text :=
  chr '$' :: (body ++ chr '*' :: hi :: lo :: rest)

theorem splitFields_append {header : Text} {fields : List Text}
    (hplain : ∀ part ∈ header :: fields, chr ',' ∉ part) :
    splitFields (header ++ fields.flatMap fun field => chr ',' :: field) = header :: fields := by
  have hjoin : ∀ (header : Text) (fields : List Text),
      [chr ','].intercalate (header :: fields) =
        header ++ fields.flatMap fun field => chr ',' :: field := by
    intro header fields
    induction fields generalizing header with
    | nil => simp
    | cons field fields ih =>
      rw [List.intercalate_cons_cons, ih, List.flatMap_cons]
      simp
  unfold splitFields
  rw [← hjoin]
  exact List.splitOn_intercalate (chr ',') hplain (List.cons_ne_nil _ _)

section Render

variable {talker type : Text} {fields : List Text}

/-- The body of a sentence stands for it. -/
theorem content_bodyText (htype : type.length = 3)
    (hplain : ∀ part ∈ talker :: type :: fields, chr ',' ∉ part) :
    content (bodyText talker type fields) = some { talker := talker, type := type, fields := fields } := by
  rw [List.forall_mem_cons, List.forall_mem_cons] at hplain
  have hheader : chr ',' ∉ talker ++ type := by
    rw [List.mem_append, not_or]
    exact ⟨hplain.1, hplain.2.1⟩
  unfold content bodyText
  rw [splitFields_append (List.forall_mem_cons.mpr ⟨hheader, hplain.2.2⟩)]
  dsimp only
  rw [List.length_append, htype, if_neg (by omega), Nat.add_sub_cancel, List.take_left' rfl,
    List.drop_left' rfl]

theorem star_not_mem_bodyText (hplain : ∀ part ∈ talker :: type :: fields, chr '*' ∉ part) :
    chr '*' ∉ bodyText talker type fields := by
  rw [List.forall_mem_cons, List.forall_mem_cons] at hplain
  unfold bodyText
  simp only [List.mem_append, List.mem_flatMap, List.mem_cons]
  rintro ((h | h) | ⟨field, hfield, h | h⟩)
  · exact hplain.1 h
  · exact hplain.2.1 h
  · exact absurd h (by decide)
  · exact hplain.2.2 field hfield h

end Render

/-! ## Checksums -/

theorem checksumBody_append (a b : Text) :
    checksumBody (a ++ b) = checksumBody a ^^^ checksumBody b := by
  have hfold : ∀ (b : Text) (c : Byte), b.foldl (· ^^^ ·) c = c ^^^ checksumBody b := by
    intro b
    induction b with
    | nil => exact fun c => (UInt8.xor_zero).symm
    | cons x b ih =>
      intro c
      unfold checksumBody
      rw [List.foldl_cons, List.foldl_cons, ih, ih (0 ^^^ x), UInt8.zero_xor, UInt8.xor_assoc]
  exact (List.foldl_append).trans (hfold b _)

/-- Another byte at one place gives another checksum. -/
theorem checksumBody_replace_ne {x y : Byte} (h : y ≠ x) (before after : Text) :
    checksumBody (before ++ y :: after) ≠ checksumBody (before ++ x :: after) := by
  have hcons : ∀ z : Byte, checksumBody (z :: after) = z ^^^ checksumBody after := fun z =>
    (checksumBody_append [z] after).trans (by rw [checksumBody, List.foldl_cons, List.foldl_nil,
      UInt8.zero_xor])
  rw [checksumBody_append, checksumBody_append, hcons, hcons]
  intro heq
  exact h ((UInt8.xor_left_inj _).mp ((UInt8.xor_right_inj _).mp heq))

/-- **Rendered sentences.** A sentence with its checksum in two hexadecimal digits of either case is parsed
back, with any line ends or other bytes behind it. With another byte than a star in one place of the body
the verdict is that the checksum is wrong, whether or not the line still is a sentence. -/
theorem parseLineOut_render (talker type : Text) (fields : List Text) (hi lo : Byte) (rest : Text)
    (htype : type.length = 3)
    (hplain : ∀ part ∈ talker :: type :: fields, chr ',' ∉ part ∧ chr '*' ∉ part)
    (hhi : hexValue hi = some ((checksumBody (bodyText talker type fields)).toNat / 16))
    (hlo : hexValue lo = some ((checksumBody (bodyText talker type fields)).toNat % 16)) :
    parseLineOut (lineText (bodyText talker type fields) hi lo rest) =
        (true, { talker := talker, type := type, fields := fields, checksumOk := true }) ∧
      ∀ before x after y, bodyText talker type fields = before ++ x :: after → y ≠ x → y ≠ chr '*' →
        (parseLineOut (lineText (before ++ y :: after) hi lo rest)).2.checksumOk = false := by
  have hstar := star_not_mem_bodyText fun part hpart => (hplain part hpart).2
  have hcontent := content_bodyText htype fun part hpart => (hplain part hpart).1
  generalize bodyText talker type fields = body at hhi hlo hstar hcontent ⊢
  have hcut : ∀ {body : Text}, chr '*' ∉ body →
      cut (chr '*') (lineText body hi lo rest) = some (chr '$' :: body, hi :: lo :: rest) := by
    intro body hbody
    have hfront : chr '*' ∉ chr '$' :: body := by
      rw [List.mem_cons, not_or]
      exact ⟨by decide, hbody⟩
    exact cut_append hfront _
  have hsum := Nat.div_add_mod (checksumBody body).toNat 16
  constructor
  · obtain ⟨tail, hout⟩ := parseLineOut_eq (hcut hstar) hlo
    rw [hout, hcontent, (checksumMatches_iff hhi hlo).mpr hsum]
    rfl
  · rintro before x after y rfl hne hplain'
    rw [List.mem_append, List.mem_cons, not_or, not_or] at hstar
    have hcorrupted : Corrupted (lineText (before ++ y :: after) hi lo rest) (before ++ y :: after) := by
      refine ⟨hi, lo, rest, _, _, hcut ?_, hhi, hlo, ?_⟩
      · rw [List.mem_append, List.mem_cons, not_or, not_or]
        exact ⟨hstar.1, Ne.symm hplain', hstar.2.2⟩
      · rw [hsum]
        exact fun heq => checksumBody_replace_ne hne before after (UInt8.toNat_inj.mp heq).symm
    exact parseLineOut_corrupted hcorrupted

/-- A heading with one empty field, its checksum in small letters. -/
theorem parseLineOut_render_heading :
    parseLineOut (lit "$GPHDT,123.4,T,*1d\r\n") =
        (true, ⟨lit "GP", lit "HDT", [lit "123.4", lit "T", []], true⟩) ∧
      (parseLineOut (lit "$GPHDT,123,4,T,*1d\r\n")).2.checksumOk = false :=
  ⟨(parseLineOut_render (lit "GP") (lit "HDT") [lit "123.4", lit "T", []] (chr '1') (chr 'd')
      (lit "\r\n") (by decide) (by decide) (by decide) (by decide)).1,
    (parseLineOut_render (lit "GP") (lit "HDT") [lit "123.4", lit "T", []] (chr '1') (chr 'd')
      (lit "\r\n") (by decide) (by decide) (by decide) (by decide)).2
      (lit "GPHDT,123") (chr '.') (lit "4,T,") (chr ',') (by decide) (by decide) (by decide)⟩

end Pypilot.Nmea
