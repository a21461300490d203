import CodeAtlas.Proofs.JsonBlanks

/-!
# Objects inside of replies

A reply may hold its object bare, with text around it, or in a fence. Either way the object is found,
and what the reply proposes is what the object proposes (`proposals_of_wrapped_object`).
-/

namespace CodeAtlas.Reply

open Json (Between Clear blankControls_append blankControls_cons)

/-! ## Blanks at the ends -/

theorem dropWhile_isBlank_append {m : List Char} {c : Char} (hhead : m.head? = some c)
    (hc : Text.isBlank c = false) (a : List Char) :
    (a ++ m).dropWhile Text.isBlank = a.dropWhile Text.isBlank ++ m := by
  obtain ⟨cs, rfl⟩ := List.head?_eq_some_iff.1 hhead
  rw [List.dropWhile_append]
  split
  · next hempty =>
    rw [List.isEmpty_iff.1 hempty, List.dropWhile_cons_of_neg (by simp [hc])]
    rfl
  · rfl

/-- Taking blanks off the ends of a text leaves what starts and ends with other characters. -/
theorem stripChars_around {m : List Char} {c z : Char} (hhead : m.head? = some c)
    (hlast : m.getLast? = some z) (hc : Text.isBlank c = false) (hz : Text.isBlank z = false)
    (a b : List Char) : ∃ a' b', a' <:+ a ∧ b' <+: b ∧
      Text.stripChars (a ++ (m ++ b)) = a' ++ (m ++ b') := by
  have hfront : (m ++ b).head? = some c := by
    rw [List.head?_append, hhead]
    rfl
  have hback : (m.reverse ++ (a.dropWhile Text.isBlank).reverse).head? = some z := by
    rw [List.head?_append, List.head?_reverse, hlast]
    rfl
  refine ⟨a.dropWhile Text.isBlank, (b.reverse.dropWhile Text.isBlank).reverse,
    List.dropWhile_suffix _, ?_, ?_⟩
  · rw [← List.reverse_suffix, List.reverse_reverse]
    exact List.dropWhile_suffix _
  · unfold Text.stripChars
    rw [dropWhile_isBlank_append hfront hc, List.reverse_append, List.reverse_append, List.append_assoc,
      dropWhile_isBlank_append hback hz]
    simp

/-! ## Braces -/

theorem dropWhile_until {mark : Char} {a : List Char} (h : mark ∉ a) (cs : List Char) :
    (a ++ mark :: cs).dropWhile (· != mark) = mark :: cs := by
  rw [List.dropWhile_append_of_pos]
  · simp
  · intro c hc
    rw [bne_iff_ne]
    rintro rfl
    exact h hc

theorem braced?_between {a core b : List Char} (ha : openBrace ∉ a) (hb : closeBrace ∉ b)
    (hcore : Between openBrace closeBrace core) : braced? (a ++ (core ++ b)) = some core := by
  obtain ⟨inner, rfl⟩ := hcore
  have hopen := dropWhile_until ha ((inner ++ [closeBrace]) ++ b)
  have hb' : closeBrace ∉ b.reverse := by simpa using hb
  have hclose := dropWhile_until hb' (inner.reverse ++ [openBrace])
  unfold braced?
  rw [List.cons_append, hopen]
  simp only [List.reverse_cons, List.reverse_append, List.nil_append, List.append_assoc,
    List.cons_append] at hclose ⊢
  rw [hclose]
  simp

theorem between_blankControls {core : List Char} (h : Between openBrace closeBrace core) :
    Between openBrace closeBrace (blankControls core) := by
  obtain ⟨inner, rfl⟩ := h
  refine ⟨blankControls inner, ?_⟩
  rw [blankControls_cons (by decide), blankControls_append, blankControls_cons (by decide)]
  rfl

theorem notMem_blankControls {mark : Char} (hmark : mark ≠ ' ') {cs : List Char} (h : mark ∉ cs) :
    mark ∉ blankControls cs := by
  intro hmem
  obtain ⟨c, hc, heq⟩ := List.mem_map.1 hmem
  split at heq
  · exact hmark heq.symm
  · exact h (heq ▸ hc)

/-! ## Fences -/

theorem fencedAt?_of_not_start {cs : List Char} (h : ¬ fence <+: cs) : fencedAt? cs = none := by
  unfold fencedAt?
  rw [if_neg (by rwa [List.isPrefixOf_iff_prefix])]

theorem fenced?_of_not_within {cs : List Char} (h : ¬ fence <:+: cs) : fenced? cs = none := by
  induction cs with
  | nil => rfl
  | cons c cs ih =>
    have hhere := fencedAt?_of_not_start fun hpre => h hpre.isInfix
    have hrest := ih fun hwithin => h (hwithin.trans (List.suffix_cons c cs).isInfix)
    rw [fenced?, hhere]
    exact hrest

def unlabelled (cs : List Char) : List Char :=
  if ['j', 's', 'o', 'n'].isPrefixOf cs then cs.drop 4 else cs

theorem fencedAt?_fence (cs : List Char) : fencedAt? (fence ++ cs) =
    match (unlabelled cs).dropWhile Text.isBlank with
    | c :: rest => if c == openBrace then (closedBody? rest).map (c :: ·) else none
    | [] => none :=
  rfl

theorem closedBody?_of_not_within {cs : List Char} (h : ¬ fence <:+: cs) : closedBody? cs = none := by
  induction cs with
  | nil => rfl
  | cons c cs ih =>
    have hrest := ih fun hwithin => h (hwithin.trans (List.suffix_cons c cs).isInfix)
    have hhere : ¬ fence.isPrefixOf (cs.dropWhile Text.isBlank) = true := by
      rw [List.isPrefixOf_iff_prefix]
      intro hpre
      exact h (hpre.isInfix.trans ((List.dropWhile_suffix _).trans (List.suffix_cons c cs)).isInfix)
    rw [closedBody?, hrest]
    simp [hhere]

theorem closedBody?_skip {cs : List Char} (hcs : closeBrace ∉ cs) {rest : List Char}
    (h : closedBody? rest = none) : closedBody? (cs ++ rest) = none := by
  induction cs with
  | nil => exact h
  | cons c cs ih =>
    have hc : c ≠ closeBrace := fun heq => hcs (by simp [heq])
    rw [List.cons_append, closedBody?, ih fun hmem => hcs (by simp [hmem])]
    simp [hc]

theorem closedBody?_close {rest : List Char} (hrest : closedBody? rest = none)
    (hfence : fence <+: rest.dropWhile Text.isBlank) (inner : List Char) :
    closedBody? (inner ++ closeBrace :: rest) = some (inner ++ [closeBrace]) := by
  induction inner with
  | nil =>
    rw [List.nil_append, closedBody?, hrest]
    simp [List.isPrefixOf_iff_prefix.2 hfence]
  | cons c inner ih =>
    rw [List.cons_append, closedBody?, ih]
    rfl

/-- A fence with blanks in it around a place for an object, and the text around the fence. -/
structure Fenced where
  before : List Char
  label : List Char
  lead : List Char
  trail : List Char
  after : List Char
  label_eq : label = [] ∨ label = ['j', 's', 'o', 'n']
  lead_isBlank : ∀ c ∈ lead, Text.isBlank c = true
  trail_isBlank : ∀ c ∈ trail, Text.isBlank c = true
  before_free : ¬ fence <:+: before
  after_free : ¬ fence <:+: after

namespace Fenced

theorem label_json : ['j', 's', 'o', 'n'] = [] ∨ ['j', 's', 'o', 'n'] = ['j', 's', 'o', 'n'] :=
  .inr rfl

def inside (w : Fenced) (t : List Char) : List Char :=
  fence ++ (w.label ++ (w.lead ++ (t ++ (w.trail ++ fence))))

def text (w : Fenced) (t : List Char) : List Char :=
  w.before ++ (w.inside t ++ w.after)

def widen (w : Fenced) {l r : List Char} (hl : ∀ c ∈ l, Text.isBlank c = true)
    (hr : ∀ c ∈ r, Text.isBlank c = true) : Fenced :=
  { w with
    lead := w.lead ++ l
    trail := r ++ w.trail
    lead_isBlank := List.forall_mem_append.2 ⟨w.lead_isBlank, hl⟩
    trail_isBlank := List.forall_mem_append.2 ⟨hr, w.trail_isBlank⟩ }

theorem widen_text (w : Fenced) {l r : List Char} (hl : ∀ c ∈ l, Text.isBlank c = true)
    (hr : ∀ c ∈ r, Text.isBlank c = true) (t : List Char) :
    (w.widen hl hr).text t = w.text (l ++ (t ++ r)) := by
  simp [widen, text, inside]

variable (w : Fenced)

theorem closedBody?_after : closedBody? (w.trail ++ (fence ++ w.after)) = none := by
  refine closedBody?_skip ?_ (closedBody?_skip (by decide) (closedBody?_of_not_within w.after_free))
  intro hmem
  exact absurd (w.trail_isBlank _ hmem) (by decide)

theorem fence_after : fence <+: (w.trail ++ (fence ++ w.after)).dropWhile Text.isBlank := by
  rw [List.dropWhile_append_of_pos w.trail_isBlank]
  exact List.prefix_append _ _

/-- Behind the fence stands the label, or a blank or a brace that could not begin it. -/
theorem behind_label (cs : List Char) :
    (unlabelled (w.label ++ (w.lead ++ openBrace :: cs))).dropWhile Text.isBlank = openBrace :: cs := by
  have hlead : (w.lead ++ openBrace :: cs).dropWhile Text.isBlank = openBrace :: cs := by
    rw [List.dropWhile_append_of_pos w.lead_isBlank, List.dropWhile_cons_of_neg (by decide)]
  rcases w.label_eq with h | h
  -- without a label, neither a blank nor the brace is its first letter
  · have hno : ¬ ['j', 's', 'o', 'n'].isPrefixOf (w.lead ++ openBrace :: cs) = true := by
      rw [List.isPrefixOf_iff_prefix]
      intro hpre
      cases hcases : w.lead with
      | nil =>
        rw [hcases, List.nil_append, List.cons_prefix_cons] at hpre
        exact absurd hpre.1 (by decide)
      | cons b bs =>
        rw [hcases, List.cons_append, List.cons_prefix_cons] at hpre
        have hb := w.lead_isBlank b (by simp [hcases])
        rw [← hpre.1] at hb
        exact absurd hb (by decide)
    rw [h, List.nil_append, unlabelled, if_neg hno, hlead]
  · rw [h]
    exact hlead

theorem fencedAt?_inside {core : List Char} (h : Between openBrace closeBrace core) :
    fencedAt? (w.inside core ++ w.after) = some core := by
  obtain ⟨inner, rfl⟩ := h
  have hclose := closedBody?_close w.closedBody?_after w.fence_after inner
  have hlabel := w.behind_label (inner ++ closeBrace :: (w.trail ++ (fence ++ w.after)))
  have hinside : w.inside (openBrace :: (inner ++ [closeBrace])) ++ w.after = fence ++ (w.label
      ++ (w.lead ++ openBrace :: (inner ++ closeBrace :: (w.trail ++ (fence ++ w.after))))) := by
    simp [inside]
  rw [hinside, fencedAt?_fence, hlabel]
  simp [hclose]

/-- Backticks in front of the fence only move its start. -/
theorem fencedAt?_before {b : List Char} (hb : b ≠ []) (hfree : ¬ fence <:+: b) (t rest : List Char) :
    fencedAt? (b ++ (w.inside t ++ rest)) = none := by
  by_cases hpre : fence <+: b ++ (w.inside t ++ rest)
  -- a fence that starts in `b` takes one or two backticks from it, and one more stands behind it
  · obtain ⟨c, cs, rfl⟩ := List.exists_cons_of_ne_nil hb
    cases cs with
    | nil =>
      obtain rfl : '`' = c := (List.cons_prefix_cons.1 hpre).1
      rfl
    | cons d cs =>
      cases cs with
      | nil =>
        obtain ⟨hc, hrest⟩ := List.cons_prefix_cons.1 hpre
        obtain rfl : '`' = d := (List.cons_prefix_cons.1 hrest).1
        subst hc
        rfl
      | cons e cs =>
        refine absurd ?_ hfree
        obtain ⟨more, hmore⟩ := hpre
        simp only [fence, List.cons_append, List.nil_append, List.cons.injEq] at hmore
        obtain ⟨rfl, rfl, rfl, -⟩ := hmore
        exact (List.prefix_append fence cs).isInfix
  · exact fencedAt?_of_not_start hpre

theorem fenced?_behind {b : List Char} (hfree : ¬ fence <:+: b) {core : List Char}
    (h : Between openBrace closeBrace core) : fenced? (b ++ (w.inside core ++ w.after)) = some core := by
  induction b with
  | nil =>
    have hhere := w.fencedAt?_inside h
    cases hcs : w.inside core ++ w.after with
    | nil =>
      rw [hcs] at hhere
      cases hhere
    | cons c cs =>
      rw [hcs] at hhere
      rw [List.nil_append, fenced?, hhere]
  | cons c b ih =>
    have hnone := w.fencedAt?_before (List.cons_ne_nil c b) hfree core w.after
    rw [List.cons_append] at hnone
    rw [List.cons_append, fenced?, hnone]
    exact ih fun hwithin => hfree (hwithin.trans (List.suffix_cons c b).isInfix)

theorem stripChars_text (t : List Char) : ∃ w' : Fenced, Text.stripChars (w.text t) = w'.text t := by
  have hlast : (w.inside t).getLast? = some '`' := by
    have hconcat : w.inside t =
        (fence ++ (w.label ++ (w.lead ++ (t ++ (w.trail ++ ['`', '`']))))) ++ ['`'] := by
      simp [inside, fence]
    rw [hconcat, List.getLast?_concat]
  obtain ⟨a, b, ha, hb, hstrip⟩ :=
    stripChars_around (m := w.inside t) rfl hlast (by decide) (by decide) w.before w.after
  refine ⟨{ w with
    before := a, after := b, before_free := fun h => w.before_free (h.trans ha.isInfix)
    after_free := fun h => w.after_free (h.trans hb.isInfix) }, hstrip⟩

end Fenced

/-! ## The object of a reply -/

theorem body?_ofList (cs : List Char) : body? (String.ofList cs) =
    braced? (blankControls ((fenced? (Text.stripChars cs)).getD (Text.stripChars cs))) := by
  simp only [body?, String.toList_ofList]

theorem body?_fenced (w : Fenced) {l core r : List Char} (hl : ∀ c ∈ l, Json.isSpace c = true)
    (hr : ∀ c ∈ r, Json.isSpace c = true) (hcore : Between openBrace closeBrace core) :
    body? (String.ofList (w.text (l ++ (core ++ r)))) = some (blankControls core) := by
  have hl' : ∀ c ∈ l, Text.isBlank c = true := fun c hc => Json.isBlank_of_isSpace (hl c hc)
  have hr' : ∀ c ∈ r, Text.isBlank c = true := fun c hc => Json.isBlank_of_isSpace (hr c hc)
  obtain ⟨w', hstrip⟩ := (w.widen hl' hr').stripChars_text core
  have hbraced := braced?_between (a := []) (b := []) (by simp) (by simp) (between_blankControls hcore)
  rw [List.append_nil, List.nil_append] at hbraced
  rw [body?_ofList, ← w.widen_text hl' hr', hstrip, Fenced.text, w'.fenced?_behind w'.before_free hcore]
  exact hbraced

theorem body?_bare {a core b : List Char} (ha : openBrace ∉ a) (hb : closeBrace ∉ b)
    (hcore : Between openBrace closeBrace core) (hfree : ¬ fence <:+: a ++ (core ++ b)) :
    body? (String.ofList (a ++ (core ++ b))) = some (blankControls core) := by
  have hends : core.head? = some openBrace ∧ core.getLast? = some closeBrace := by
    obtain ⟨inner, rfl⟩ := hcore
    refine ⟨rfl, ?_⟩
    rw [← List.cons_append, List.getLast?_concat]
  obtain ⟨a', b', ha', hb', hstrip⟩ := stripChars_around hends.1 hends.2 (by decide) (by decide) a b
  have hinner : a' ++ (core ++ b') <:+: a ++ (core ++ b) := by
    obtain ⟨front, rfl⟩ := ha'
    obtain ⟨back, rfl⟩ := hb'
    exact ⟨front, back, by simp⟩
  have hnone := fenced?_of_not_within fun h => hfree (h.trans hinner)
  have hopen := notMem_blankControls (by decide) fun hmem => ha (ha'.subset hmem)
  have hclose := notMem_blankControls (by decide) fun hmem => hb (hb'.subset hmem)
  rw [body?_ofList, hstrip, hnone, Option.getD_none, blankControls_append, blankControls_append]
  exact braced?_between hopen hclose (between_blankControls hcore)

theorem proposals_of_read {text : String} {core : List Char} {v : Json} (hbody : body? text = some core)
    (hread : Json.read (String.ofList core) = .ok v) : proposals (.str text) = Proposals.ofJson v := by
  have hvalue : value? core = some v := by
    unfold value? read?
    rw [hread]
    rfl
  unfold proposals
  simp only [hbody, Option.bind_some, hvalue, Option.map_some, Option.getD_some]

/-- A reply proposes what its object does: with any text around the object, as long as no brace of the
text could be taken for the object's own, and in a fence with any text around that. -/
theorem proposals_of_wrapped_object {t : String} {members : List (String × Json)}
    (hread : Json.read t = .ok (.obj members)) (hclear : Clear t.toList) :
    (∀ pre post : String, openBrace ∉ pre.toList → closeBrace ∉ post.toList →
      ¬ fence <:+: (pre ++ t ++ post).toList →
      proposals (.str (pre ++ t ++ post)) = Proposals.ofJson (.obj members)) ∧
    ∀ w : Fenced, proposals (.str (String.ofList (w.text t.toList))) = Proposals.ofJson (.obj members) := by
  obtain ⟨l, core, r, htext, hl, hr, hcore, hblanked⟩ := Json.read_obj_taken hread
  rw [htext, Json.clear_append, Json.clear_append] at hclear
  have hvalue := hblanked hclear.2.1
  constructor
  · intro pre post hpre hpost hfree
    have hopen : openBrace ∉ pre.toList ++ l := by
      rw [List.mem_append, not_or]
      exact ⟨hpre, fun hmem => absurd (hl _ hmem) (by decide)⟩
    have hclose : closeBrace ∉ r ++ post.toList := by
      rw [List.mem_append, not_or]
      exact ⟨fun hmem => absurd (hr _ hmem) (by decide), hpost⟩
    have hwhole : (pre ++ t ++ post).toList = (pre.toList ++ l) ++ (core ++ (r ++ post.toList)) := by
      simp [htext]
    rw [hwhole] at hfree
    have hbody := body?_bare hopen hclose hcore hfree
    rw [← hwhole, String.ofList_toList] at hbody
    exact proposals_of_read hbody hvalue
  · intro w
    rw [htext]
    exact proposals_of_read (body?_fenced w hl hr hcore) hvalue

/-- Braces and backticks in a string, control characters between tokens, and a number that is none. -/
def braceful : String :=
  "\n\x7b\"notes\": [\"\x7d\x7b``, \\\" \x7d\"],\r\n\t\"k\" : \x7b\"x\": NaN\x7d\x7d\t"

def fencedBetween : Fenced where
  before := "\x7b see \x7d:\n``".toList
  label := ['j', 's', 'o', 'n']
  lead := ['\u00a0', '\n']
  trail := ['\u0085']
  after := "`\x7d\n`` \x7b".toList
  label_eq := Fenced.label_json
  lead_isBlank := List.all_eq_true.1 (by decide)
  trail_isBlank := List.all_eq_true.1 (by decide)
  before_free := by decide +kernel
  after_free := by decide +kernel

theorem proposals_of_braceful :
    Json.read braceful = .ok (.obj [("notes", .arr [.str "\x7d\x7b``, \" \x7d"]),
      ("k", .obj [("x", .real .notANumber)])]) ∧ Clear braceful.toList ∧
    proposals (.str ("so \x7d:\n" ++ braceful ++ " \x7b`")) =
      { notes := ["\x7d\x7b``, \" \x7d"] } ∧
    proposals (.str (String.ofList (fencedBetween.text braceful.toList))) =
      { notes := ["\x7d\x7b``, \" \x7d"] } := by
  have hread : Json.read braceful = .ok (.obj [("notes", .arr [.str "\x7d\x7b``, \" \x7d"]),
      ("k", .obj [("x", .real .notANumber)])]) := by decide +kernel
  have hclear : Clear braceful.toList := by decide +kernel
  obtain ⟨hbare, hfenced⟩ := proposals_of_wrapped_object hread hclear
  refine ⟨hread, hclear, ?_, ?_⟩
  · rw [hbare "so \x7d:\n" " \x7b`" (by decide +kernel) (by decide +kernel) (by decide +kernel)]
    decide +kernel
  · rw [hfenced fencedBetween]
    decide +kernel

end CodeAtlas.Reply
