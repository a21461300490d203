import CodeAtlas.Pattern.Languages
import Mathlib.Data.List.Basic

/-!
# What patterns keep

A match leads from one point of a text to another (`Matches`); the matcher, which tries the choices of a
pattern in order, finds nothing else (`matches_of_matchThen`). A match takes only characters of the
classes in its pattern, so a pattern whose kept parts have no class with a character keeps no text with
it (`not_mem_of_mem_keptTexts`).
-/

namespace CodeAtlas.Pattern

/-! ## Matches -/

/-- The pattern leads from one point to the other, whatever its other choices. -/
inductive Matches : Pattern → Point → Point → Prop
  | empty {s} : Matches .empty s s
  | one {accepts s c t} (hnext : s.next? = some (c, t)) (haccepts : accepts c = true) :
      Matches (.one accepts) s t
  | run {accepts least reluctant s t} (ht : t ∈ s.run accepts) (hleast : s.index + least ≤ t.index) :
      Matches (.run accepts least reluctant) s t
  | seq {p q s t u} (first : Matches p s t) (second : Matches q t u) : Matches (.seq p q) s u
  | left {p q s t} (left : Matches p s t) : Matches (.alt p q) s t
  | right {p q s t} (right : Matches q s t) : Matches (.alt p q) s t
  | stop {p s} : Matches (.star p) s s
  | again {p s t u} (first : Matches p s t) (htakes : s.index < t.index) (rest : Matches (.star p) t u) :
      Matches (.star p) s u
  | keep {p s t} (inner : Matches p s t) : Matches (.keep p) s (t.keepFrom s)
  | lineStart {s} (hstart : s.atLineStart = true) : Matches .lineStart s s
  | lineEnd {s} (hend : s.atLineEnd = true) : Matches .lineEnd s s
  | wordEdge {s} (hedge : s.atWordEdge = true) : Matches .wordEdge s s

/-- The continuation is called at the end of a match, and its answer is the answer. -/
def Follows (p : Pattern) : Prop :=
  ∀ {s : Point} {go : Point → Option Point} {u : Point},
    matchThen p s go = some u → ∃ t, Matches p s t ∧ go t = some u

theorem matches_of_repeatStep {p : Pattern} (hp : p.Follows) {go : Point → Option Point} {u : Point} :
    ∀ {fuel : Nat} {s : Point}, repeatStep (matchThen p) go fuel s = some u →
      ∃ t, Matches (.star p) s t ∧ go t = some u
  | 0, s, h => ⟨s, .stop, h⟩
  | fuel + 1, s, h => by
    rw [repeatStep] at h
    split at h
    next v hstep =>
      cases h
      obtain ⟨t, hfirst, hrest⟩ := hp hstep
      split_ifs at hrest with htakes
      obtain ⟨last, hagain, hgo⟩ := matches_of_repeatStep hp hrest
      exact ⟨last, .again hfirst htakes hagain, hgo⟩
    next => exact ⟨s, .stop, h⟩

theorem matches_of_matchThen (p : Pattern) : p.Follows := by
  intro s go u h
  induction p generalizing s go u with
  | empty => exact ⟨s, .empty, h⟩
  | one accepts =>
    rw [matchThen] at h
    split at h
    next c t hnext =>
      split_ifs at h with haccepts
      exact ⟨t, .one hnext haccepts, h⟩
    next => cases h
  | run accepts least reluctant =>
    rw [matchThen] at h
    obtain ⟨t, ht, hgo⟩ := List.exists_of_findSome?_eq_some h
    have hpoint : t ∈ (s.run accepts).filter fun t => s.index + least ≤ t.index := by
      split_ifs at ht
      · exact List.mem_reverse.1 ht
      · exact ht
    obtain ⟨hrun, hleast⟩ := List.mem_filter.1 hpoint
    exact ⟨t, .run hrun (of_decide_eq_true hleast), hgo⟩
  | seq p q ihp ihq =>
    obtain ⟨t, hfirst, hrest⟩ := ihp h
    obtain ⟨v, hsecond, hgo⟩ := ihq hrest
    exact ⟨v, .seq hfirst hsecond, hgo⟩
  | alt p q ihp ihq =>
    rw [matchThen] at h
    split at h
    next v hleft =>
      cases h
      obtain ⟨t, hmatch, hgo⟩ := ihp hleft
      exact ⟨t, .left hmatch, hgo⟩
    next =>
      obtain ⟨t, hmatch, hgo⟩ := ihq h
      exact ⟨t, .right hmatch, hgo⟩
  | star p ih => exact matches_of_repeatStep ih h
  | keep p ih =>
    obtain ⟨t, hmatch, hgo⟩ := ih h
    exact ⟨t.keepFrom s, .keep hmatch, hgo⟩
  | lineStart =>
    rw [matchThen] at h
    split_ifs at h with hstart
    exact ⟨s, .lineStart hstart, h⟩
  | lineEnd =>
    rw [matchThen] at h
    split_ifs at h with hend
    exact ⟨s, .lineEnd hend, h⟩
  | wordEdge =>
    rw [matchThen] at h
    split_ifs at h with hedge
    exact ⟨s, .wordEdge hedge, h⟩

/-- A kept text is what some match, from a point where nothing is kept, has kept at its end. -/
theorem exists_matches_of_mem_keptFrom {p : Pattern} {text : String} {cs : List Char}
    {before : Option Char} {index resume : Nat} (h : text ∈ keptFrom p cs before index resume) :
    ∃ s t, Matches p s t ∧ s.kept = none ∧ text = t.kept.getD "" := by
  fun_induction keptFrom p cs before index resume with
  | case1 => cases h
  | case2 c rest before index resume hskip ih => exact ih h
  | case3 c rest before index resume hskip t hmatch ih =>
    rcases List.mem_cons.1 h with rfl | hrest
    · obtain ⟨_, hmatches, ⟨⟩⟩ := matches_of_matchThen p hmatch
      exact ⟨_, t, hmatches, rfl, rfl⟩
    · exact ih hrest
  | case4 c rest before index resume hskip hmatch ih => exact ih h

/-! ## Characters of a match -/

structure Point.Spans (s : Point) (taken : List Char) (t : Point) : Prop where
  rest : s.rest = taken ++ t.rest
  index : t.index = s.index + taken.length

namespace Point

theorem Spans.refl (s : Point) : s.Spans [] s :=
  ⟨rfl, rfl⟩

theorem Spans.trans {s t u : Point} {xs ys : List Char} (h : s.Spans xs t) (h' : t.Spans ys u) :
    s.Spans (xs ++ ys) u where
  rest := by rw [h.rest, h'.rest, List.append_assoc]
  index := by rw [h'.index, h.index, List.length_append, Nat.add_assoc]

theorem Spans.keepFrom_kept {s t : Point} {taken : List Char} (h : s.Spans taken t) :
    (t.keepFrom s).kept = some (String.ofList taken) := by
  simp [keepFrom, h.rest, h.index]

theorem spans_of_next? {s t : Point} {c : Char} (h : s.next? = some (c, t)) :
    s.Spans [c] t ∧ t.kept = s.kept := by
  unfold next? at h
  split at h
  · cases h
  next rest hrest =>
    cases h
    exact ⟨⟨hrest, rfl⟩, rfl⟩

theorem spans_of_mem_runFrom {accepts : Char → Bool} {kept : Option String} {t : Point} :
    ∀ {cs : List Char} {before : Option Char} {index : Nat} {acc : List Point},
      t ∈ runFrom accepts kept cs before index acc → t ∈ acc ∨
        ∃ taken, (⟨before, cs, index, kept⟩ : Point).Spans taken t ∧ t.kept = kept ∧
          ∀ c ∈ taken, accepts c = true
  | [], before, index, acc, h => by
    rcases List.mem_cons.1 h with rfl | hacc
    · exact .inr ⟨[], .refl _, rfl, by simp⟩
    · exact .inl hacc
  | c :: rest, before, index, acc, h => by
    have hstop : t ∈ (⟨before, c :: rest, index, kept⟩ : Point) :: acc → t ∈ acc ∨
        ∃ taken, (⟨before, c :: rest, index, kept⟩ : Point).Spans taken t ∧ t.kept = kept ∧
          ∀ c ∈ taken, accepts c = true := by
      intro hmem
      rcases List.mem_cons.1 hmem with rfl | hacc
      · exact .inr ⟨[], .refl _, rfl, by simp⟩
      · exact .inl hacc
    rw [runFrom] at h
    split_ifs at h with hc
    · rcases spans_of_mem_runFrom h with hacc | ⟨taken, hspans, hkept, htaken⟩
      · exact hstop hacc
      · refine .inr ⟨c :: taken, ?_, hkept, List.forall_mem_cons.2 ⟨hc, htaken⟩⟩
        have hfirst : (⟨before, c :: rest, index, kept⟩ : Point).Spans [c]
            ⟨some c, rest, index + 1, kept⟩ := ⟨rfl, rfl⟩
        exact hfirst.trans hspans
    · exact hstop h

theorem spans_of_mem_run {s t : Point} {accepts : Char → Bool} (h : t ∈ s.run accepts) :
    ∃ taken, s.Spans taken t ∧ t.kept = s.kept ∧ ∀ c ∈ taken, accepts c = true :=
  (spans_of_mem_runFrom h).resolve_left (by simp)

end Point

def avoids (c : Char) : Pattern → Bool
  | one accepts | run accepts _ _ => !accepts c
  | seq p q | alt p q => avoids c p && avoids c q
  | star p | keep p => avoids c p
  | empty | lineStart | lineEnd | wordEdge => true

def keepsNo (c : Char) : Pattern → Bool
  | keep p => avoids c p
  | seq p q | alt p q => keepsNo c p && keepsNo c q
  | star p => keepsNo c p
  | empty | one _ | run _ _ _ | lineStart | lineEnd | wordEdge => true

namespace Matches

variable {p : Pattern} {s t : Point} {c : Char}

theorem exists_spans (h : Matches p s t) :
    ∃ taken, s.Spans taken t ∧ (p.avoids c = true → c ∉ taken) := by
  induction h with
  | empty | stop | lineStart | lineEnd | wordEdge => exact ⟨[], .refl _, by simp⟩
  | one hnext haccepts =>
    refine ⟨_, (Point.spans_of_next? hnext).1, ?_⟩
    intro havoids hc
    rw [List.mem_singleton] at hc
    simp [avoids, hc, haccepts] at havoids
  | run ht =>
    obtain ⟨taken, hspans, -, htaken⟩ := Point.spans_of_mem_run ht
    refine ⟨taken, hspans, ?_⟩
    intro havoids hc
    simp [avoids, htaken c hc] at havoids
  | seq _ _ ihp ihq =>
    obtain ⟨xs, hxs, hcx⟩ := ihp
    obtain ⟨ys, hys, hcy⟩ := ihq
    refine ⟨xs ++ ys, hxs.trans hys, ?_⟩
    intro havoids
    rw [avoids, Bool.and_eq_true] at havoids
    simp [hcx havoids.1, hcy havoids.2]
  | left _ ih =>
    obtain ⟨taken, hspans, hc⟩ := ih
    exact ⟨taken, hspans, fun havoids => hc (Bool.and_eq_true_iff.1 havoids).1⟩
  | right _ ih =>
    obtain ⟨taken, hspans, hc⟩ := ih
    exact ⟨taken, hspans, fun havoids => hc (Bool.and_eq_true_iff.1 havoids).2⟩
  | again _ _ _ ihp ihrest =>
    obtain ⟨xs, hxs, hcx⟩ := ihp
    obtain ⟨ys, hys, hcy⟩ := ihrest
    refine ⟨xs ++ ys, hxs.trans hys, ?_⟩
    intro havoids
    simp [hcx havoids, hcy havoids]
  | keep _ ih =>
    obtain ⟨taken, hspans, hc⟩ := ih
    exact ⟨taken, ⟨hspans.rest, hspans.index⟩, hc⟩

/-- A match keeps no text with the character, unless it was kept before. -/
theorem not_mem_kept (h : Matches p s t) (hp : p.keepsNo c = true)
    (hs : ∀ text ∈ s.kept, c ∉ text.toList) : ∀ text ∈ t.kept, c ∉ text.toList := by
  induction h with
  | empty | stop | lineStart | lineEnd | wordEdge => exact hs
  | one hnext => rwa [(Point.spans_of_next? hnext).2]
  | run ht =>
    obtain ⟨_, -, hkept, -⟩ := Point.spans_of_mem_run ht
    rwa [hkept]
  | seq _ _ ihp ihq =>
    rw [keepsNo, Bool.and_eq_true] at hp
    exact ihq hp.2 (ihp hp.1 hs)
  | left _ ih => exact ih (Bool.and_eq_true_iff.1 hp).1 hs
  | right _ ih => exact ih (Bool.and_eq_true_iff.1 hp).2 hs
  | again _ _ _ ihp ihrest => exact ihrest hp (ihp hp hs)
  | keep inner =>
    obtain ⟨taken, hspans, hc⟩ := inner.exists_spans (c := c)
    rw [hspans.keepFrom_kept]
    rintro _ ⟨⟩
    rw [String.toList_ofList]
    exact hc hp

end Matches

theorem not_mem_of_mem_keptTexts {p : Pattern} {c : Char} (hp : p.keepsNo c = true)
    {content text : String} (h : text ∈ p.keptTexts content) : c ∉ text.toList := by
  obtain ⟨s, t, hmatch, hnone, rfl⟩ := exists_matches_of_mem_keptFrom h
  have hkept := hmatch.not_mem_kept hp (by simp [hnone])
  cases ht : t.kept with
  | none => simp
  | some text => exact hkept text ht

end CodeAtlas.Pattern
