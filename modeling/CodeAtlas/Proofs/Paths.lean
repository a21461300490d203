import CodeAtlas.Text.Path
import Mathlib.Data.List.TakeWhile
import Mathlib.Tactic.Tauto

/-!
# Normal forms of paths

A relative path is normalised segment by segment, so a path behind another one is followed from where
that one leads (`steps_join`), and its normal form does not depend on whether the first is normalised
before (`canonical_join`).
-/

namespace CodeAtlas.Path

theorem startsWith_slash (s : String) : s.startsWith "/" = true ↔ ∃ cs, s.toList = '/' :: cs := by
  rw [String.startsWith_string_iff]
  constructor
  · rintro ⟨cs, hcs⟩
    exact ⟨cs, hcs.symm⟩
  · rintro ⟨cs, hcs⟩
    exact ⟨cs, hcs.symm⟩

theorem endsWith_slash (s : String) : s.endsWith "/" = true ↔ ∃ cs, s.toList = cs ++ ['/'] := by
  rw [String.endsWith_eq_endsWith_toSlice, String.Slice.endsWith_string_iff]
  constructor
  · rintro ⟨cs, hcs⟩
    exact ⟨cs, by simpa using hcs.symm⟩
  · rintro ⟨cs, hcs⟩
    exact ⟨cs, by simpa using hcs.symm⟩

/-! ## Segments -/

theorem splitChars_ne_nil (p : Char → Bool) (cs : List Char) : splitChars p cs ≠ [] := by
  cases cs with
  | nil => simp [splitChars]
  | cons c cs =>
    unfold splitChars
    split
    · simp
    · split <;> simp

theorem splitChars_append {p : Char → Bool} {c : Char} (hc : p c = true) (xs ys : List Char) :
    splitChars p (xs ++ c :: ys) = splitChars p xs ++ splitChars p ys := by
  induction xs with
  | nil => simp [splitChars, hc]
  | cons x xs ih =>
    rw [List.cons_append, splitChars, splitChars, ih]
    split
    · rfl
    · cases hxs : splitChars p xs with
      | nil => exact absurd hxs (splitChars_ne_nil p xs)
      | cons run runs => rfl

theorem mem_splitChars {p : Char → Bool} {cs run : List Char} (h : run ∈ splitChars p cs) {c : Char}
    (hc : c ∈ run) : c ∈ cs ∧ p c = false := by
  induction cs generalizing run with
  | nil =>
    obtain rfl := List.mem_singleton.1 h
    cases hc
  | cons x xs ih =>
    rw [splitChars] at h
    split at h
    · rcases List.mem_cons.1 h with rfl | h
      · cases hc
      · exact ⟨List.mem_cons_of_mem _ (ih h hc).1, (ih h hc).2⟩
    · next hx =>
      cases hxs : splitChars p xs with
      | nil => exact absurd hxs (splitChars_ne_nil p xs)
      | cons first runs =>
        rw [hxs] at h ih
        rcases List.mem_cons.1 h with rfl | h
        · rcases List.mem_cons.1 hc with rfl | hc
          · exact ⟨List.mem_cons_self, Bool.eq_false_iff.2 hx⟩
          · have := ih List.mem_cons_self hc
            exact ⟨List.mem_cons_of_mem _ this.1, this.2⟩
        · have := ih (List.mem_cons_of_mem _ h) hc
          exact ⟨List.mem_cons_of_mem _ this.1, this.2⟩

theorem splitChars_of_forall {p : Char → Bool} {cs : List Char} (h : ∀ c ∈ cs, p c = false) :
    splitChars p cs = [cs] := by
  induction cs with
  | nil => rfl
  | cons c cs ih =>
    rw [splitChars, ih fun c hc => h c (List.mem_cons_of_mem _ hc), if_neg]
    simp [h c List.mem_cons_self]

theorem segments_append (x y : String) : segments (x ++ "/" ++ y) = segments x ++ segments y := by
  unfold segments
  rw [← List.map_append, ← splitChars_append (c := '/') (by decide)]
  simp

theorem mem_segments {x part : String} (h : part ∈ segments x) {c : Char} (hc : c ∈ part.toList) :
    c ∈ x.toList ∧ c ≠ '/' := by
  obtain ⟨run, hrun, rfl⟩ := List.mem_map.1 h
  rw [String.toList_ofList] at hc
  have hmem := mem_splitChars hrun hc
  exact ⟨hmem.1, by simpa using hmem.2⟩

theorem segments_of_notMem {x : String} (h : '/' ∉ x.toList) : segments x = [x] := by
  unfold segments
  rw [splitChars_of_forall]
  · simp
  · intro c hc
    rw [beq_eq_false_iff_ne]
    rintro rfl
    exact h hc

theorem segments_ofSegments {parts : List String} (hne : parts ≠ [])
    (h : ∀ part ∈ parts, '/' ∉ part.toList) : segments (ofSegments parts) = parts := by
  unfold ofSegments
  induction parts with
  | nil => exact absurd rfl hne
  | cons part parts ih =>
    have hpart := segments_of_notMem (h part List.mem_cons_self)
    cases parts with
    | nil => rw [String.intercalate_singleton, hpart]
    | cons next parts =>
      rw [String.intercalate_cons_cons, segments_append, hpart,
        ih (List.cons_ne_nil _ _) fun part hmem => h part (List.mem_cons_of_mem _ hmem)]
      rfl

theorem mem_intercalate {mark : String} {parts : List String} {c : Char}
    (h : c ∈ (mark.intercalate parts).toList) : c ∈ mark.toList ∨ ∃ part ∈ parts, c ∈ part.toList := by
  induction parts with
  | nil => cases h
  | cons part parts ih =>
    cases parts with
    | nil =>
      rw [String.intercalate_singleton] at h
      exact .inr ⟨part, List.mem_cons_self, h⟩
    | cons next parts =>
      rw [String.intercalate_cons_cons] at h
      simp only [String.toList_append, List.mem_append] at h
      rcases h with (h | h) | h
      · exact .inr ⟨part, List.mem_cons_self, h⟩
      · exact .inl h
      · rcases ih h with h | ⟨part', hmem, h⟩
        · exact .inl h
        · exact .inr ⟨part', List.mem_cons_of_mem _ hmem, h⟩

theorem mem_ofSegments {parts : List String} {c : Char} (h : c ∈ (ofSegments parts).toList) :
    c = '/' ∨ ∃ part ∈ parts, c ∈ part.toList :=
  (mem_intercalate h).imp_left List.mem_singleton.1

theorem intercalate_splitChars (cs : List Char) :
    ['/'].intercalate (splitChars (· == '/') cs) = cs := by
  induction cs with
  | nil => rfl
  | cons c cs ih =>
    rw [splitChars]
    cases hcs : splitChars (· == '/') cs with
    | nil => exact absurd hcs (splitChars_ne_nil _ cs)
    | cons run runs =>
      rw [hcs] at ih
      by_cases hc : c = '/'
      · simp [hc, List.intercalate_cons_cons, ih]
      · cases runs with
        | nil => simpa [hc] using ih
        | cons next runs =>
          rw [List.intercalate_cons_cons] at ih
          simp [hc, List.intercalate_cons_cons, ← ih]

theorem ofSegments_segments (x : String) : ofSegments (segments x) = x := by
  rw [← String.toList_inj, ofSegments, String.toList_intercalate, segments, List.map_map]
  simpa [Function.comp_def] using intercalate_splitChars x.toList

theorem segments_ne_nil (x : String) : segments x ≠ [] := by
  simpa [segments] using splitChars_ne_nil _ x.toList

/-! ## Steps -/

/-- The normalised segments, the last one first, after a relative path has been followed from them. -/
def steps (path : String) (before : List String) : List String :=
  (segments path).foldl (normalStep false) before

theorem steps_append (x y : String) (before : List String) :
    steps (x ++ "/" ++ y) before = steps y (steps x before) := by
  unfold steps
  rw [segments_append, List.foldl_append]

@[simp] theorem steps_empty (before : List String) : steps "" before = before := by
  simp [steps, segments, splitChars, normalStep]

@[simp] theorem steps_dot (before : List String) : steps "." before = before := by
  simp [steps, segments_of_notMem, normalStep]

theorem steps_ofSegments {parts : List String} (h : ∀ part ∈ parts, '/' ∉ part.toList)
    (before : List String) : steps (ofSegments parts) before = parts.foldl (normalStep false) before := by
  by_cases hnil : parts = []
  · subst hnil
    exact steps_empty before
  · rw [steps, segments_ofSegments hnil h]

/-- Following the segments again leads to the same place. -/
structure IsNormal (before : List String) : Prop where
  fixed : before.reverse.foldl (normalStep false) [] = before
  named : ∀ part ∈ before, part ≠ "" ∧ part ≠ "."

theorem isNormal_nil : IsNormal [] :=
  ⟨rfl, fun _ h => by cases h⟩

theorem IsNormal.cons {before : List String} (h : IsNormal before) {part : String}
    (hnamed : part ≠ "" ∧ part ≠ ".") (hstep : normalStep false before part = part :: before) :
    IsNormal (part :: before) := by
  constructor
  · rw [List.reverse_cons, List.foldl_append, h.fixed]
    exact hstep
  · intro q hq
    rcases List.mem_cons.1 hq with rfl | hq
    · exact hnamed
    · exact h.named q hq

theorem normalStep_of_name {part : String} (hnamed : part ≠ "" ∧ part ≠ ".") (hup : part ≠ "..")
    (before : List String) : normalStep false before part = part :: before := by
  unfold normalStep
  rw [if_neg (by simp [hnamed]), if_pos (by simp [hup])]

theorem IsNormal.tail {last : String} {rest : List String} (h : IsNormal (last :: rest))
    (hlast : last ≠ "..") : IsNormal rest := by
  have hfixed := h.fixed
  rw [List.reverse_cons, List.foldl_append, List.foldl_cons, List.foldl_nil,
    normalStep_of_name (h.named last List.mem_cons_self) hlast] at hfixed
  exact ⟨(List.cons.inj hfixed).2, fun part hpart => h.named part (List.mem_cons_of_mem _ hpart)⟩

theorem IsNormal.step {before : List String} (h : IsNormal before) (part : String) :
    IsNormal (normalStep false before part) := by
  -- two dots take the last segment off, unless it is two dots itself or there is none
  by_cases hnamed : part ≠ "" ∧ part ≠ "."
  · by_cases hup : part = ".."
    · subst hup
      cases before with
      | nil => exact isNormal_nil.cons hnamed rfl
      | cons last rest =>
        by_cases hlast : last = ".."
        · subst hlast
          exact h.cons hnamed rfl
        · have hpop : normalStep false (last :: rest) ".." = rest := by
            simp [normalStep, hlast]
          rw [hpop]
          exact h.tail hlast
    · rw [normalStep_of_name hnamed hup]
      exact h.cons hnamed (normalStep_of_name hnamed hup before)
  · have hskip : normalStep false before part = before := by
      unfold normalStep
      rw [if_pos]
      rw [Bool.or_eq_true, beq_iff_eq, beq_iff_eq]
      tauto
    rw [hskip]
    exact h

theorem steps_isNormal (path : String) {before : List String} (h : IsNormal before) :
    IsNormal (steps path before) := by
  unfold steps
  generalize segments path = parts
  induction parts generalizing before with
  | nil => exact h
  | cons part parts ih => exact ih (h.step part)

theorem mem_normalStep {before : List String} {part name : String}
    (h : name ∈ normalStep false before part) : name ∈ before ∨ name = part := by
  unfold normalStep at h
  split at h
  · exact .inl h
  · split at h
    · exact (List.mem_cons.1 h).symm
    · next hup =>
      cases before with
      | nil =>
        obtain rfl : name = ".." := by simpa using h
        have hpart : part = ".." := by simpa using hup
        exact .inr hpart.symm
      | cons last rest =>
        simp only at h
        split at h
        · exact (List.mem_cons.1 h).symm
        · exact .inl (List.mem_cons_of_mem _ h)

theorem mem_steps {path name : String} {before : List String} (h : name ∈ steps path before) :
    name ∈ before ∨ name ∈ segments path := by
  unfold steps at h
  generalize segments path = parts at h ⊢
  induction parts generalizing before with
  | nil => exact .inl h
  | cons part parts ih =>
    rcases ih h with h | h
    · rcases mem_normalStep h with h | rfl
      · exact .inl h
      · exact .inr List.mem_cons_self
    · exact .inr (List.mem_cons_of_mem _ h)

theorem notMem_steps {path name : String} (h : name ∈ steps path []) : '/' ∉ name.toList := by
  rcases mem_steps h with h | h
  · cases h
  · exact fun hc => (mem_segments h hc).2 rfl

/-! ## Relative paths -/

def IsRelative (path : String) : Prop :=
  path.toList.head? ≠ some '/'

theorem isRelative_append {x : String} (h : IsRelative x) (hne : x ≠ "") (y : String) :
    IsRelative (x ++ y) := by
  unfold IsRelative at h ⊢
  rw [String.toList_append, List.head?_append]
  cases hx : x.toList with
  | nil => exact absurd (String.toList_eq_nil_iff.1 hx) hne
  | cons c cs => rwa [hx] at h

section
variable {x : String} (h : "" ∉ segments x)
include h

theorem ne_empty_of_segments : x ≠ "" := by
  intro hempty
  rw [hempty] at h
  exact h (by decide)

theorem isRelative_of_segments : IsRelative x := by
  intro hslash
  obtain ⟨cs, hcs⟩ := List.head?_eq_some_iff.1 hslash
  have htext : x = "" ++ "/" ++ String.ofList cs := by
    rw [← String.toList_inj]
    simp [hcs]
  rw [htext, segments_append] at h
  exact h (List.mem_append_left _ (by decide))

theorem not_endsWith_slash_of_segments : x.endsWith "/" = false := by
  rw [Bool.eq_false_iff, Ne, endsWith_slash]
  rintro ⟨cs, hcs⟩
  have htext : x = String.ofList cs ++ "/" ++ "" := by
    rw [← String.toList_inj]
    simp [hcs]
  rw [htext, segments_append] at h
  exact h (List.mem_append_right _ (by decide))

end

theorem leadingSlashes_of_isRelative {path : String} (h : IsRelative path) :
    leadingSlashes path = 0 := by
  unfold leadingSlashes
  unfold IsRelative at h
  split
  · next heq => exact absurd (by rw [heq]; rfl) h
  · next heq => exact absurd (by rw [heq]; rfl) h
  · next heq => exact absurd (by rw [heq]; rfl) h
  · rfl

def relativeText (before : List String) : String :=
  if before = [] then "." else ofSegments before.reverse

section
variable {path : String} (h : IsRelative path)
include h

theorem normal_of_isRelative : normal path = relativeText (steps path []) := by
  have hnormal := steps_isNormal path isNormal_nil
  simp only [normal, leadingSlashes_of_isRelative h, relativeText]
  change (if (String.ofList (List.replicate 0 '/') ++ ofSegments (steps path []).reverse).isEmpty then "."
    else String.ofList (List.replicate 0 '/') ++ ofSegments (steps path []).reverse) = _
  rw [List.replicate_zero, String.ofList_nil, String.empty_append]
  by_cases hnil : steps path [] = []
  · rw [if_pos hnil, hnil]
    rfl
  · have hne : (steps path []).reverse ≠ [] := by simpa using hnil
    have hsegments := segments_ofSegments hne fun part hpart => notMem_steps (List.mem_reverse.1 hpart)
    rw [if_neg hnil, if_neg]
    -- an empty text has the empty segment, which no step leaves
    rw [String.isEmpty_iff]
    intro hempty
    rw [hempty] at hsegments
    have hmem : "" ∈ (steps path []).reverse := by
      rw [← hsegments]
      decide
    exact (hnormal.named "" (List.mem_reverse.1 hmem)).1 rfl

theorem segments_normal : segments (normal path) =
    if steps path [] = [] then ["."] else (steps path []).reverse := by
  rw [normal_of_isRelative h, relativeText]
  split
  · exact segments_of_notMem (by decide)
  · next hnil =>
    exact segments_ofSegments (by simpa using hnil)
      fun part hpart => notMem_steps (List.mem_reverse.1 hpart)

theorem steps_normal : steps (normal path) [] = steps path [] := by
  rw [steps, segments_normal h]
  split
  · next hnil =>
    rw [hnil]
    rfl
  · exact (steps_isNormal path isNormal_nil).fixed

theorem empty_notMem_segments_normal : "" ∉ segments (normal path) := by
  rw [segments_normal h]
  split
  · decide
  · rw [List.mem_reverse]
    exact fun hmem => ((steps_isNormal path isNormal_nil).named "" hmem).1 rfl

theorem normal_ne_empty : normal path ≠ "" :=
  ne_empty_of_segments (empty_notMem_segments_normal h)

theorem normal_isRelative : IsRelative (normal path) :=
  isRelative_of_segments (empty_notMem_segments_normal h)

theorem join_normal {w : String} (hw : w.startsWith "/" = false) :
    join (normal path) w = normal path ++ "/" ++ w := by
  have hend := not_endsWith_slash_of_segments (empty_notMem_segments_normal h)
  have hempty : (normal path).isEmpty = false := by
    rw [Bool.eq_false_iff, Ne, String.isEmpty_iff]
    exact normal_ne_empty h
  simp only [join, hw, hempty, hend, Bool.or_self, Bool.false_eq_true, if_false]

/-- What stands in front may be normalised before. -/
theorem normal_normal_append (hne : path ≠ "") (y : String) :
    normal (normal path ++ "/" ++ y) = normal (path ++ "/" ++ y) := by
  have hleft := isRelative_append (normal_isRelative h) (normal_ne_empty h) ("/" ++ y)
  have hright := isRelative_append h hne ("/" ++ y)
  rw [← String.append_assoc] at hleft hright
  rw [normal_of_isRelative hleft, normal_of_isRelative hright, steps_append, steps_append,
    steps_normal h]

end

/-! ## Joining -/

theorem startsWith_slash_eq_false {w : String} (h : IsRelative w) : w.startsWith "/" = false := by
  rw [Bool.eq_false_iff, Ne, startsWith_slash]
  rintro ⟨cs, hcs⟩
  simp [IsRelative, hcs] at h

/-- A path behind another one is followed from where that one leads. -/
theorem steps_join (x : String) {w : String} (hw : IsRelative w) (before : List String) :
    steps (join x w) before = steps w (steps x before) := by
  rw [join, if_neg (by simp [startsWith_slash_eq_false hw])]
  by_cases hempty : x = ""
  · simp [hempty]
  · by_cases hend : x.endsWith "/" = true
    · obtain ⟨cs, hcs⟩ := (endsWith_slash x).1 hend
      have hx : x = String.ofList cs ++ "/" ++ "" := by
        rw [← String.toList_inj]
        simp [hcs]
      rw [if_pos (by simp [hend]), hx, steps_append, steps_empty, String.append_empty, steps_append]
    · rw [if_neg (by simp [hempty, hend]), steps_append]

theorem isRelative_join {x w : String} (hx : IsRelative x) (hw : IsRelative w) :
    IsRelative (join x w) := by
  rw [join, if_neg (by simp [startsWith_slash_eq_false hw])]
  by_cases hempty : x = ""
  · simpa [hempty] using hw
  · split
    · exact isRelative_append hx hempty w
    · rw [String.append_assoc]
      exact isRelative_append hx hempty _

theorem mem_join {x w : String} {c : Char} (h : c ∈ (join x w).toList) :
    c ∈ x.toList ∨ c = '/' ∨ c ∈ w.toList := by
  unfold join at h
  split at h
  · exact .inr (.inr h)
  · split at h
    · rw [String.toList_append, List.mem_append] at h
      exact h.imp_right .inr
    · simpa [or_assoc] using h

/-! ## Directories -/

theorem dirname_of_notMem {path : String} (h : '/' ∉ path.toList) : dirname path = "" := by
  have hhead : headChars path = [] := by
    rw [headChars, List.reverse_eq_nil_iff, List.dropWhile_eq_nil_iff]
    intro c hc
    rw [bne_iff_ne]
    intro hslash
    rw [hslash, List.mem_reverse] at hc
    exact h hc
  simp [dirname, hhead]

theorem headChars_append (dir : String) {name : String} (h : '/' ∉ name.toList) :
    headChars (dir ++ "/" ++ name) = dir.toList ++ ['/'] := by
  have hname : ∀ c ∈ name.toList.reverse, (c != '/') = true := by
    intro c hc
    rw [bne_iff_ne]
    intro hslash
    rw [hslash, List.mem_reverse] at hc
    exact h hc
  rw [headChars, String.toList_append, String.toList_append, List.reverse_append,
    List.dropWhile_append_of_pos hname]
  simp

theorem dirname_append {dir : String} (hdir : "" ∉ segments dir) {name : String}
    (hname : '/' ∉ name.toList) : dirname (dir ++ "/" ++ name) = dir := by
  have hall : (dir.toList ++ ['/']).all (· == '/') = false := by
    cases hcs : dir.toList with
    | nil => exact absurd (String.toList_eq_nil_iff.1 hcs) (ne_empty_of_segments hdir)
    | cons c cs =>
      have hc := isRelative_of_segments hdir
      simp [IsRelative, hcs] at hc
      simp [hc]
  have hback : dir.toList.reverse.dropWhile (· == '/') = dir.toList.reverse := by
    cases hcs : dir.toList.reverse with
    | nil => rfl
    | cons c cs =>
      -- the last character of the directory is no slash
      rw [List.dropWhile_cons_of_neg]
      intro hc
      have hend := not_endsWith_slash_of_segments hdir
      rw [Bool.eq_false_iff, Ne, endsWith_slash] at hend
      apply hend
      refine ⟨cs.reverse, ?_⟩
      rw [← List.reverse_inj, hcs, beq_iff_eq.1 hc]
      simp
  rw [dirname, headChars_append dir hname, if_neg (by simp [hall])]
  simp [hback]

/-! ## Backslashes -/

def forward (path : String) : String :=
  String.ofList (path.toList.map fun c => if c == '\\' then '/' else c)

theorem canonical_eq (path : String) : canonical path = normal (forward path) :=
  rfl

@[simp] theorem forward_append (x y : String) : forward (x ++ y) = forward x ++ forward y := by
  simp [forward]

theorem notMem_forward (path : String) : '\\' ∉ (forward path).toList := by
  intro hmem
  rw [forward, String.toList_ofList] at hmem
  obtain ⟨c, -, hc⟩ := List.mem_map.1 hmem
  split at hc
  · cases hc
  · next hne => exact hne (by simp [hc])

theorem forward_of_notMem {path : String} (h : '\\' ∉ path.toList) : forward path = path := by
  unfold forward
  rw [List.map_congr_left (g := id), List.map_id, String.ofList_toList]
  intro c hc
  rw [if_neg]
  · rfl
  · rw [beq_iff_eq]
    rintro rfl
    exact h hc

theorem forward_normal {path : String} (h : IsRelative path) (hforward : '\\' ∉ path.toList) :
    forward (normal path) = normal path := by
  refine forward_of_notMem fun hmem => ?_
  rw [normal_of_isRelative h, relativeText] at hmem
  split at hmem
  · exact absurd hmem (by decide)
  · rcases mem_ofSegments hmem with hslash | ⟨part, hpart, hc⟩
    · cases hslash
    · rcases mem_steps (List.mem_reverse.1 hpart) with hnil | hsegment
      · cases hnil
      · exact hforward (mem_segments hsegment hc).1

theorem canonical_join {t w : String} (ht : IsRelative (forward t)) (hne : t ≠ "")
    (hw : w.startsWith "/" = false) : canonical (join (canonical t) w) = canonical (t ++ "/" ++ w) := by
  have hforward : forward t ≠ "" := by
    intro hempty
    refine hne (String.toList_eq_nil_iff.1 ?_)
    simpa [forward] using congrArg String.toList hempty
  rw [canonical_eq t, join_normal ht hw, canonical_eq, forward_append, forward_append,
    forward_normal ht (notMem_forward t)]
  rw [show forward "/" = "/" from by decide, normal_normal_append ht hforward, canonical_eq,
    forward_append, forward_append]
  rfl

theorem canonical_join_of_isRelative {x w : String} (hx : IsRelative x) (hw : IsRelative w)
    (hx' : '\\' ∉ x.toList) (hw' : '\\' ∉ w.toList) :
    canonical (join x w) = relativeText (steps w (steps x [])) := by
  have hforward : '\\' ∉ (join x w).toList := by
    intro hc
    rcases mem_join hc with hc | hc | hc
    · exact hx' hc
    · cases hc
    · exact hw' hc
  rw [canonical_eq, forward_of_notMem hforward, normal_of_isRelative (isRelative_join hx hw),
    steps_join x hw]

theorem canonical_congr {x y : String} (hx : IsRelative (forward x)) (hy : IsRelative (forward y))
    (h : steps (forward x) [] = steps (forward y) []) : canonical x = canonical y := by
  rw [canonical_eq, canonical_eq, normal_of_isRelative hx, normal_of_isRelative hy, h]

end CodeAtlas.Path
