import CodeAtlas.Proofs.JsonPasses
import CodeAtlas.Proofs.ReplyWrapping

/-!
# Replies with commas behind last items

An object with such commas is read from its repaired text. The repair goes over the whole text, so
it drops and adds commas in strings too: what is proposed is what the object proposes whose strings
are repaired (`proposals_of_last_commas`), and that may differ from what the object without the
commas proposes (`proposals_of_last_comma_in_note`).
-/

namespace CodeAtlas.Reply

open Json

/-! ## The repairs as passes -/

theorem isControl_eq_false {c : Char} (h : 0x20 ≤ c.toNat) (hhigh : c.toNat < 0x7f) :
    isControl c = false := by
  rw [Bool.eq_false_iff, Ne, isControl_iff]
  omega

def blanking : Pass where
  write c _ := [if isControl c then ' ' else c]
  blank c := if isControl c then ' ' else c
  keepsCommas := true
  isSpace_blank c h := by
    split
    · rfl
    · exact h
  write_space _ _ _ := rfl
  write_inert c _ h := by simp [isControl_eq_false h.1.le h.2.1]
  write_comma _ _ := rfl
  write_lastComma _ _ := rfl
  write_close c _ h _ := by rcases h with rfl | rfl <;> rfl
  write_inString c _ h d hd := by
    obtain rfl := List.mem_singleton.1 hd
    split
    · decide
    · exact h
  isClosing_of_nil _ _ h := by cases h

def isLastComma (c : Char) (next : Option Char) : Bool :=
  c == ',' && (next == some closeBrace || next == some ']')

theorem isLastComma_iff (c : Char) (next : Option Char) :
    isLastComma c next = true ↔ c = ',' ∧ IsClosing next := by
  unfold isLastComma IsClosing closeBrace
  simp [or_comm]

def dropping : Pass where
  write c next := if isLastComma c next then [] else [c]
  blank c := c
  keepsCommas := false
  isSpace_blank _ h := h
  write_space c next h := by
    rw [if_neg]
    rw [isLastComma_iff]
    rintro ⟨rfl, -⟩
    cases h
  write_inert c next h := by
    rw [if_neg]
    rw [isLastComma_iff]
    exact fun hcomma => h.2.2.1 hcomma.1
  write_comma next h := by
    rw [if_neg]
    rw [isLastComma_iff]
    exact fun hcomma => h hcomma.2
  write_lastComma next h := by
    rw [if_pos ((isLastComma_iff _ _).2 ⟨rfl, h⟩)]
    rfl
  write_close c next h _ := by
    rw [if_neg]
    rw [isLastComma_iff]
    rintro ⟨rfl, -⟩
    revert h
    decide
  write_inString c next h d hd := by
    split at hd
    · cases hd
    · obtain rfl := List.mem_singleton.1 hd
      exact h
  isClosing_of_nil c next h := by
    split at h
    · next hcomma => exact ((isLastComma_iff c next).1 hcomma).2
    · cases h

def adding (closing opening : Char) (hclosing : closing = ']' ∨ closing = '}')
    (hopening : opening = '[' ∨ opening = '{') : Pass where
  write c next := if c == closing && next == some opening then [c, ','] else [c]
  blank c := c
  keepsCommas := true
  isSpace_blank _ h := h
  write_space c next h := by
    rw [if_neg]
    rw [Bool.and_eq_true, beq_iff_eq]
    rintro ⟨rfl, -⟩
    rcases hclosing with rfl | rfl <;> cases h
  write_inert c next h := by
    rw [if_neg]
    rw [Bool.and_eq_true, beq_iff_eq]
    rintro ⟨rfl, -⟩
    rcases hclosing with rfl | rfl
    · exact h.2.2.2.1 rfl
    · exact h.2.2.2.2 rfl
  write_comma next _ := by
    rcases hclosing with rfl | rfl <;> rfl
  write_lastComma next _ := by
    rcases hclosing with rfl | rfl <;> rfl
  write_close c next _ h := by
    rw [if_neg]
    rw [Bool.and_eq_true, beq_iff_eq, beq_iff_eq]
    rintro ⟨-, rfl⟩
    refine h ?_
    rcases hopening with rfl | rfl
    · exact .inl rfl
    · exact .inr rfl
  write_inString c next h d hd := by
    split at hd
    · simp only [List.mem_cons, List.not_mem_nil, or_false] at hd
      rcases hd with rfl | rfl
      · exact h
      · decide
    · obtain rfl := List.mem_singleton.1 hd
      exact h
  isClosing_of_nil c next h := by
    split at h <;> cases h

theorem blanking_run (cs : List Char) : blanking.run cs = blankControls cs := by
  induction cs with
  | nil => rfl
  | cons c cs ih =>
    rw [Pass.run, ih]
    rfl

theorem dropping_run (cs : List Char) : dropping.run cs = dropCommas cs := by
  induction cs with
  | nil => rfl
  | cons c cs ih =>
    rw [Pass.run, ih]
    change (if isLastComma c (nextMark? cs) then [] else [c]) ++ dropCommas cs =
      if isLastComma c (nextMark? cs) then dropCommas cs else c :: dropCommas cs
    split <;> rfl

theorem adding_run {closing opening : Char} (hclosing : closing = ']' ∨ closing = '}')
    (hopening : opening = '[' ∨ opening = '{') (cs : List Char) :
    (adding closing opening hclosing hopening).run cs = addCommas closing opening cs := by
  induction cs with
  | nil => rfl
  | cons c cs ih =>
    rw [Pass.run, ih, addCommas]
    simp only [adding]
    split <;> rfl

def addingBetweenObjects : Pass :=
  adding closeBrace openBrace (.inr rfl) (.inr rfl)

def addingBetweenArrays : Pass :=
  adding ']' '[' (.inl rfl) (.inl rfl)

/-- The document whose text the repair makes of a document's text. -/
def repaired (d : Doc) : Doc :=
  addingBetweenArrays.doc (addingBetweenObjects.doc (dropping.doc d))

theorem repair_eq_run (cs : List Char) :
    repair cs = addingBetweenArrays.run (addingBetweenObjects.run (dropping.run cs)) := by
  unfold addingBetweenArrays addingBetweenObjects
  rw [adding_run, adding_run, dropping_run]
  rfl

theorem doc_text_of_run (p : Pass) {d : Doc} (h : d.IsSpaced) : p.run d.text = (p.doc d).text := by
  have hend : ¬ IsOpening (nextMark? []) := by decide
  have hrun := p.run_doc h hend
  simpa [Pass.run] using hrun

theorem blankControls_text {d : Doc} (h : d.IsSpaced) :
    blankControls d.text = (blanking.doc d).text := by
  rw [← blanking_run, doc_text_of_run blanking h]

theorem repair_text {d : Doc} (h : d.IsSpaced) : repair d.text = (repaired d).text := by
  have hdropped := dropping.doc_isSpaced h
  rw [repair_eq_run, doc_text_of_run _ h, doc_text_of_run _ hdropped,
    doc_text_of_run _ (Pass.doc_isSpaced _ hdropped)]
  rfl

theorem repaired_isStrict {d : Doc} (h : d.IsSpaced) : (repaired d).IsStrict := by
  have hdropped := dropping.doc_isSpaced h
  have hstrict := (dropping.doc_isStrict_iff h).2 (.inr rfl)
  unfold repaired
  rw [Pass.doc_isStrict_iff _ (Pass.doc_isSpaced _ hdropped), Pass.doc_isStrict_iff _ hdropped]
  exact .inl (.inl hstrict)

/-- The repair drops the commas behind last items, so it does not matter whether they are there. -/
theorem repaired_stripped {d : Doc} (h : d.IsSpaced) : repaired d.stripped = repaired d := by
  have hstrict := (dropping.doc_isStrict_iff h).2 (.inr rfl)
  unfold repaired
  rw [← dropping.stripped_doc h, Doc.stripped_of_isStrict hstrict]

/-! ## Reading -/

def Fits (d : Doc) : Prop :=
  d.depth ≤ standard.depth ∧ Admits standard.digits d.width

instance (d : Doc) : Decidable (Fits d) :=
  inferInstanceAs (Decidable (_ ∧ _))

theorem fits_doc (p : Pass) (d : Doc) : Fits (p.doc d) ↔ Fits d := by
  unfold Fits
  rw [(p.doc_limits d).1, (p.doc_limits d).2]

theorem fits_repaired (d : Doc) : Fits (repaired d) ↔ Fits d := by
  unfold repaired
  rw [fits_doc, fits_doc, fits_doc]

theorem fits_stripped (d : Doc) : Fits d.stripped ↔ Fits d := by
  unfold Fits
  rw [d.stripped_agree.depth, d.stripped_agree.width]

theorem read?_text {d : Doc} (hstrict : d.IsStrict) (hfits : Fits d) : read? d.text = some d.value := by
  have hread := (Document.readWithin_text (d := ⟨[], d, [], none⟩)
    ⟨Gap.isStrict_nil, hstrict, Gap.isStrict_nil, rfl⟩ standard).2 hfits
  have htext : Document.text ⟨[], d, [], none⟩ = String.ofList d.text := by
    simp [Document.text, Document.chars, Gap.text, lastComment]
  rw [htext] at hread
  unfold read? Json.read
  rw [hread]
  rfl

theorem read?_eq_none {d : Doc} (hspaced : d.IsSpaced) (h : ¬ (d.IsStrict ∧ Fits d)) :
    read? d.text = none := by
  have hread : ∀ v, Json.read (String.ofList d.text) ≠ .ok v := by
    intro v hread
    have hstart : skipSpaces d.text = d.text := by
      simpa [Gap.text] using Doc.skipSpaces_text Gap.isStrict_nil d []
    simp only [Json.read, readWithin, String.toList_ofList, hstart] at hread
    split at hread
    · cases hread
    · next v rest hvalue =>
      rw [← List.append_nil d.text] at hvalue
      have hfuel : 2 * d.text.length < 2 * (d.text ++ []).length + 2 := by simp
      have hstrict := Doc.isStrict_of_readValue hspaced hfuel hvalue
      exact h ⟨hstrict, Doc.fits_of_readValue hstrict hfuel (stops_nil _) hvalue⟩
  unfold read?
  cases hcase : Json.read (String.ofList d.text) with
  | error e => rfl
  | ok v => exact absurd hcase (hread v)

theorem value?_of_read? {cs : List Char} {v : Json} (h : read? cs = some v) : value? cs = some v := by
  simp [value?, h]

theorem value?_of_repair {cs : List Char} (h : read? cs = none) : value? cs =
    (read? (repair cs)).or ((flat? (repair cs)).bind read?) := by
  simp [value?, h]

section
variable {d : Doc} (hspaced : d.IsSpaced)
include hspaced

theorem repair_blankControls : repair (blankControls d.text) = (repaired (blanking.doc d)).text := by
  rw [blankControls_text hspaced, repair_text (blanking.doc_isSpaced hspaced)]

theorem value?_strict (hstrict : d.IsStrict) (hfits : Fits d) :
    value? (blankControls d.text) = some (blanking.doc d).value := by
  rw [blankControls_text hspaced]
  exact value?_of_read? (read?_text ((blanking.doc_isStrict_iff hspaced).2 (.inl hstrict))
    ((fits_doc _ d).2 hfits))

theorem value?_last_commas (hcommas : ¬ d.IsStrict) (hfits : Fits d) :
    value? (blankControls d.text) = some (repaired (blanking.doc d)).value := by
  have hblanked := blanking.doc_isSpaced hspaced
  have hnone : read? (blankControls d.text) = none := by
    rw [blankControls_text hspaced]
    refine read?_eq_none hblanked fun h => ?_
    rcases (blanking.doc_isStrict_iff hspaced).1 h.1 with hstrict | hkeeps
    · exact hcommas hstrict
    · cases hkeeps
  have hread := read?_text (repaired_isStrict hblanked)
    ((fits_repaired _).2 ((fits_doc blanking d).2 hfits))
  rw [value?_of_repair hnone, repair_blankControls hspaced, hread]
  rfl

/-- Beyond the limits there is only the repaired text, which is the same without the commas. -/
theorem value?_beyond (hfits : ¬ Fits d) :
    value? (blankControls d.text) = value? (blankControls d.stripped.text) := by
  have hstripped := d.stripped_isStrict.isSpaced
  have hnone : ∀ e : Doc, e.IsSpaced → ¬ Fits e → read? (blankControls e.text) = none := by
    intro e he hbeyond
    rw [blankControls_text he]
    exact read?_eq_none (blanking.doc_isSpaced he) fun h => hbeyond ((fits_doc _ e).1 h.2)
  rw [value?_of_repair (hnone d hspaced hfits),
    value?_of_repair (hnone _ hstripped fun h => hfits ((fits_stripped d).1 h)),
    repair_blankControls hspaced, repair_blankControls hstripped, ← blanking.stripped_doc hspaced,
    repaired_stripped (blanking.doc_isSpaced hspaced)]

/-- Where the repair leaves the text without the commas as it is, it leaves the value. -/
theorem repaired_value_eq (hfits : Fits d)
    (hstable : repair (blankControls d.stripped.text) = blankControls d.stripped.text) :
    (repaired (blanking.doc d)).value = (blanking.doc d).value := by
  have hblanked := blanking.doc_isSpaced hspaced
  have hfits' := (fits_doc blanking d).2 hfits
  have hstripped := d.stripped_isStrict.isSpaced
  have htext : (repaired (blanking.doc d)).text = (blanking.doc d).stripped.text := by
    rw [← repaired_stripped hblanked, blanking.stripped_doc hspaced, ← repair_blankControls hstripped,
      hstable, blankControls_text hstripped]
  -- equal texts have equal values, because the reader gives both
  have hread := read?_text (repaired_isStrict hblanked) ((fits_repaired _).2 hfits')
  rw [htext, read?_text (Doc.stripped_isStrict _) ((fits_stripped _).2 hfits'),
    (Doc.stripped_agree _).value] at hread
  exact (Option.some.inj hread).symm

end

/-! ## Replies -/

theorem between_of_object {d : Doc} (h : ∃ members, d.value = .obj members) :
    Between openBrace closeBrace d.text := by
  obtain ⟨members, h⟩ := h
  cases d with
  | emptyObject gap => exact ⟨Gap.text gap, rfl⟩
  | object ms => exact ⟨ms.text, rfl⟩
  | number n =>
    simp only [Doc.value, Numeral.value] at h
    split at h <;> cases h
  | _ => cases h

def fencedReply (w : Fenced) (d : Document) : Json :=
  .str (String.ofList (w.text d.chars))

def bareReply (d : Document) : Json :=
  .str d.stripped.text

theorem proposals_of_body {text : String} {core : List Char} (h : body? text = some core) :
    proposals (.str text) = ((value? core).map Proposals.ofJson).getD {} := by
  simp [proposals, h]

section
variable {d : Document} (hspaced : d.IsSpaced) (hobject : ∃ members, d.value = .obj members)
include hspaced hobject

theorem proposals_fencedReply (w : Fenced) : proposals (fencedReply w d) =
    ((value? (blankControls d.body.text)).map Proposals.ofJson).getD {} := by
  have hchars : d.chars = Gap.text d.lead ++ (d.body.text ++ Gap.text d.trail) := by
    simp [Document.chars, hspaced.closed, lastComment]
  unfold fencedReply
  rw [hchars]
  exact proposals_of_body (body?_fenced w (fun _ => Gap.isSpace_of_isStrict hspaced.lead)
    (fun _ => Gap.isSpace_of_isStrict hspaced.trail) (between_of_object hobject))

theorem proposals_bareReply (hfree : ¬ fence <:+: d.stripped.chars) : proposals (bareReply d) =
    ((value? (blankControls d.body.stripped.text)).map Proposals.ofJson).getD {} := by
  have hchars : d.stripped.chars = Gap.text d.lead ++ (d.body.stripped.text ++ Gap.text d.trail) := by
    simp [Document.chars, Document.stripped, lastComment, Gap.stripped_of_isStrict hspaced.lead,
      Gap.stripped_of_isStrict hspaced.trail]
  have hcore : Between openBrace closeBrace d.body.stripped.text :=
    between_of_object (by rwa [d.body.stripped_agree.value])
  have hopen : openBrace ∉ Gap.text d.lead := fun hmem =>
    absurd (Gap.isSpace_of_isStrict hspaced.lead hmem) (by decide)
  have hclose : closeBrace ∉ Gap.text d.trail := fun hmem =>
    absurd (Gap.isSpace_of_isStrict hspaced.trail hmem) (by decide)
  unfold bareReply Document.text
  rw [hchars] at hfree ⊢
  exact proposals_of_body (body?_bare hopen hclose hcore hfree)

theorem proposals_bareReply_of_fits (hfree : ¬ fence <:+: d.stripped.chars) (hfits : Fits d.body) :
    proposals (bareReply d) = Proposals.ofJson (blanking.doc d.body).value := by
  have hstrict := d.body.stripped_isStrict
  rw [proposals_bareReply hspaced hobject hfree,
    value?_strict hstrict.isSpaced hstrict ((fits_stripped _).2 hfits),
    ← blanking.stripped_doc hspaced.body, (Doc.stripped_agree _).value]
  rfl

/-- What is proposed differs only where commas are there to go, within the limits of the reader. -/
theorem proposals_fencedReply_eq (w : Fenced) (hfree : ¬ fence <:+: d.stripped.chars)
    (h : d.body.IsStrict ∨ ¬ Fits d.body) :
    proposals (fencedReply w d) = proposals (bareReply d) := by
  rw [proposals_fencedReply hspaced hobject, proposals_bareReply hspaced hobject hfree]
  rcases h with hstrict | hfits
  · rw [Doc.stripped_of_isStrict hstrict]
  · rw [value?_beyond hspaced.body hfits]

theorem proposals_fencedReply_of_commas (w : Fenced) (hcommas : ¬ d.body.IsStrict)
    (hfits : Fits d.body) : proposals (fencedReply w d) =
      Proposals.ofJson (repaired (blanking.doc d.body)).value := by
  rw [proposals_fencedReply hspaced hobject, value?_last_commas hspaced.body hcommas hfits]
  rfl

end

/-- An object with commas behind last items proposes what it does with its strings repaired. That is
what it proposes without those commas if the repair finds nothing to do in its strings. -/
theorem proposals_of_last_commas (w : Fenced) {d : Document} (hspaced : d.IsSpaced)
    (hobject : ∃ members, d.value = .obj members) :
    (¬ d.body.IsStrict → Fits d.body → proposals (fencedReply w d) =
      Proposals.ofJson (repaired (blanking.doc d.body)).value) ∧
    (¬ fence <:+: d.stripped.chars →
      (Fits d.body → proposals (bareReply d) = Proposals.ofJson (blanking.doc d.body).value) ∧
      ((proposals (fencedReply w d) = proposals (bareReply d) ∨ proposals (fencedReply w d) = {}) ↔
        (¬ d.body.IsStrict → Fits d.body →
          Proposals.ofJson (repaired (blanking.doc d.body)).value =
            Proposals.ofJson (blanking.doc d.body).value ∨
          Proposals.ofJson (repaired (blanking.doc d.body)).value = {})) ∧
      (repair (blankControls d.stripped.body.text) = blankControls d.stripped.body.text →
        proposals (fencedReply w d) = proposals (bareReply d))) := by
  have hcommas := proposals_fencedReply_of_commas hspaced hobject w
  refine ⟨hcommas, fun hfree => ?_⟩
  have hbare := proposals_bareReply_of_fits hspaced hobject hfree
  have hsame := proposals_fencedReply_eq hspaced hobject w hfree
  refine ⟨hbare, ?_, fun hstable => ?_⟩
  · constructor
    · intro h hloose hfits
      rwa [hcommas hloose hfits, hbare hfits] at h
    · intro h
      by_cases hcase : d.body.IsStrict ∨ ¬ Fits d.body
      · exact .inl (hsame hcase)
      · obtain ⟨hloose, hfits⟩ := not_or.1 hcase
        rw [hcommas hloose (not_not.1 hfits), hbare (not_not.1 hfits)]
        exact h hloose (not_not.1 hfits)
  · by_cases hcase : d.body.IsStrict ∨ ¬ Fits d.body
    · exact hsame hcase
    · obtain ⟨hloose, hfits⟩ := not_or.1 hcase
      rw [hcommas hloose (not_not.1 hfits), hbare (not_not.1 hfits),
        repaired_value_eq hspaced.body (not_not.1 hfits) hstable]

def jsonFence : Fenced where
  before := []
  label := ['j', 's', 'o', 'n']
  lead := ['\n']
  trail := ['\n']
  after := []
  label_eq := Fenced.label_json
  lead_isBlank := List.all_eq_true.1 (by decide)
  trail_isBlank := List.all_eq_true.1 (by decide)
  before_free := by decide +kernel
  after_free := by decide +kernel

def plainQuote (cs : List Char) (h : ∀ c ∈ cs, InString c) : Quote :=
  ⟨cs.pmap Piece.plain h⟩

def noteWithComma (note : Quote) : Document where
  lead := []
  body := .object (.last [] (plainQuote ['n', 'o', 't', 'e', 's'] (by simp [InString]))
    [] [.space ' ' isSpace_space] (.array (.last [] (.string note) [] (some []))) [] none)
  trail := []
  last? := none

theorem noteWithComma_isSpaced (note : Quote) : (noteWithComma note).IsSpaced :=
  ⟨Gap.isStrict_nil,
    ⟨Gap.isStrict_nil, Gap.isStrict_nil, fun f hf => by obtain rfl := List.mem_singleton.1 hf; trivial,
      ⟨Gap.isStrict_nil, trivial, Gap.isStrict_nil, Gap.isStrict_nil⟩, Gap.isStrict_nil,
      Gap.isStrict_nil⟩,
    Gap.isStrict_nil, rfl⟩

theorem noteWithComma_not_isStrict (note : Quote) : ¬ (noteWithComma note).body.IsStrict := by
  rintro ⟨-, -, -, ⟨-, -, -, hcomma⟩, -⟩
  cases hcomma

def listNote : Quote :=
  plainQuote ['a', ',', ' ', 'b'] (by simp [InString])

def braceNote : Quote :=
  plainQuote ['a', ',', '}'] (by simp [InString])

theorem proposals_of_list_and_brace_notes :
    (noteWithComma listNote).IsSpaced ∧ (∃ members, (noteWithComma listNote).value = .obj members) ∧
    ¬ (noteWithComma braceNote).body.IsStrict ∧
    proposals (fencedReply jsonFence (noteWithComma listNote)) =
      proposals (bareReply (noteWithComma listNote)) ∧
    proposals (bareReply (noteWithComma listNote)) = { notes := ["a, b"] } ∧
    proposals (fencedReply jsonFence (noteWithComma braceNote)) = { notes := ["a\x7d"] } ∧
    proposals (bareReply (noteWithComma braceNote)) = { notes := ["a,\x7d"] } := by
  obtain ⟨-, hlist⟩ := proposals_of_last_commas jsonFence (noteWithComma_isSpaced listNote) ⟨_, rfl⟩
  obtain ⟨hcommas, hbrace⟩ :=
    proposals_of_last_commas jsonFence (noteWithComma_isSpaced braceNote) ⟨_, rfl⟩
  obtain ⟨hbare, -, hsame⟩ := hlist (by decide +kernel)
  refine ⟨noteWithComma_isSpaced listNote, ⟨_, rfl⟩, noteWithComma_not_isStrict braceNote,
    hsame (by decide +kernel), ?_, ?_, ?_⟩
  · rw [hbare (by decide +kernel)]
    decide +kernel
  · rw [hcommas (noteWithComma_not_isStrict braceNote) (by decide +kernel)]
    decide +kernel
  · rw [(hbrace (by decide +kernel)).1 (by decide +kernel)]
    decide +kernel

theorem proposals_of_last_comma_in_note :
    fencedReply jsonFence (noteWithComma braceNote) =
      .str "```json\n\x7b\"notes\": [\"a,\x7d\",]\x7d\n```" ∧
    bareReply (noteWithComma braceNote) = .str "\x7b\"notes\": [\"a,\x7d\"]\x7d" ∧
    ¬ (proposals (fencedReply jsonFence (noteWithComma braceNote)) =
        proposals (bareReply (noteWithComma braceNote)) ∨
      proposals (fencedReply jsonFence (noteWithComma braceNote)) = {}) := by
  refine ⟨congrArg Json.str (by decide +kernel), congrArg Json.str (by decide +kernel), ?_⟩
  decide +kernel

end CodeAtlas.Reply
