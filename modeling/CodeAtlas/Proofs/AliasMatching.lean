import CodeAtlas.Proofs.MappingFiles

/-!
# What an alias matches

The wildcard of an alias stands for `w` in exactly one specifier, the lead, `w` and the trail behind
each other. So a specifier in which the lead and the trail would share characters has no match, and
an alias that was made from a key matches what the key is with `w` in place of its first star
(`remainder?_exact`).
-/

namespace CodeAtlas.Alias

/-- The text in place of the first star makes the key the specifier. A key without a star stands for
itself. -/
inductive Fills : (w key specifier : String) → Prop
  | star {lead : String} (h : '*' ∉ lead.toList) (w trail : String) :
      Fills w (lead ++ "*" ++ trail) (lead ++ w ++ trail)
  | plain {key : String} (h : '*' ∉ key.toList) : Fills "" key key

/-- Where there is room for both ends of a text, something stands between them. -/
theorem exists_middle {s lead trail : String} (hlead : lead.toList <+: s.toList)
    (htrail : trail.toList <:+ s.toList) (hroom : lead.toList.length + trail.toList.length ≤ s.toList.length) :
    ∃ middle, s = lead ++ middle ++ trail := by
  obtain ⟨rest, hrest⟩ := hlead
  rw [← hrest] at htrail
  have hlength : trail.toList.length ≤ rest.length := by
    rw [← hrest, List.length_append] at hroom
    omega
  obtain ⟨middle, hmiddle⟩ :=
    List.suffix_of_suffix_length_le htrail (List.suffix_append lead.toList rest) hlength
  refine ⟨String.ofList middle, ?_⟩
  rw [← String.toList_inj, ← hrest, ← hmiddle]
  simp

theorem remainder?_of_wildcard {a : Alias} (h : a.wildcard = true) (specifier w : String) :
    a.remainder? specifier = some w ↔ specifier = a.lead ++ w ++ a.trail := by
  obtain ⟨lead, trail, targets, wildcard⟩ := a
  subst h
  constructor
  · intro hsome
    have hends : lead.toList <+: specifier.toList ∧ trail.toList <:+ specifier.toList ∧
        lead.toList.length + trail.toList.length ≤ specifier.toList.length := by
      by_contra hno
      rw [remainder?, if_pos rfl, if_neg] at hsome
      · cases hsome
      · simpa [and_assoc] using hno
    obtain ⟨middle, rfl⟩ := exists_middle hends.1 hends.2.1 hends.2.2
    rw [remainder?_append, Option.some_inj] at hsome
    rw [hsome]
  · rintro rfl
    exact remainder?_append lead w trail targets

theorem remainder?_of_plain {a : Alias} (h : a.wildcard = false) (specifier w : String) :
    a.remainder? specifier = some w ↔ specifier = a.lead ∧ w = "" := by
  rw [remainder?, h, if_neg Bool.false_ne_true]
  by_cases hlead : specifier = a.lead
  · simp [hlead, eq_comm]
  · simp [hlead]

theorem Declared.fills_iff {base : String} {member : String × Json} {a : Alias}
    (h : Declared base member a) (specifier w : String) :
    Fills w member.1 specifier ↔ a.remainder? specifier = some w := by
  have hlead := h.lead
  rcases h.key with ⟨hwild, hkey⟩ | ⟨hplain, hkey, -⟩
  · rw [remainder?_of_wildcard hwild, hkey]
    constructor
    · intro hfills
      generalize hfull : a.lead ++ "*" ++ a.trail = key at hfills
      cases hfills with
      | star hbefore =>
        have hparts := splitStar_append hlead a.trail
        rw [hfull, splitStar_append hbefore] at hparts
        obtain ⟨rfl, rfl⟩ := Prod.mk.inj (Option.some.inj hparts)
        rfl
      | plain hnone =>
        rw [← hfull] at hnone
        simp at hnone
    · rintro rfl
      exact .star hlead w a.trail
  · rw [remainder?_of_plain hplain, hkey]
    constructor
    · intro hfills
      generalize a.lead = key at hfills hlead
      cases hfills with
      | star => simp at hlead
      | plain => exact ⟨rfl, rfl⟩
    · rintro ⟨rfl, rfl⟩
      exact .plain hlead

theorem remainder?_exact (a : Alias) (specifier w : String) :
    (a.wildcard = true →
      (a.remainder? specifier = some w ↔ specifier = a.lead ++ w ++ a.trail) ∧
      (specifier.length < a.lead.length + a.trail.length → a.remainder? specifier = none)) ∧
    (a.wildcard = false → (a.remainder? specifier = some w ↔ specifier = a.lead ∧ w = "")) ∧
    ∀ base key value, ofMember? base key value = some a →
      (a.remainder? specifier = some w ↔ Fills w key specifier) := by
  refine ⟨fun hwild => ⟨remainder?_of_wildcard hwild specifier w, fun hshort => ?_⟩,
    fun hplain => remainder?_of_plain hplain specifier w, fun base key value hmember => ?_⟩
  · cases hrest : a.remainder? specifier with
    | none => rfl
    | some middle =>
      have hlength := congrArg String.length ((remainder?_of_wildcard hwild specifier middle).mp hrest)
      rw [String.length_append, String.length_append] at hlength
      omega
  · exact (((declared_iff base (key, value) a).mpr hmember).fills_iff specifier w).symm

/-- An alias whose ends share characters in a specifier that is too short for both. -/
theorem remainder?_of_sharing_ends :
    let key : Alias := { lead := "lib/", trail := "/index", targets := ["src"] }
    let plain : Alias := { lead := "lib", trail := "", targets := ["src"], wildcard := false }
    ofMember? "." "lib/*/index" (.arr [.str "src"]) = some key ∧
    Fills "" "lib/*/index" "lib//index" ∧
    key.remainder? "lib//index" = some "" ∧ key.remainder? "lib/index" = none ∧
    key.remainder? "lib/a/index" = some "a" ∧
    plain.remainder? "lib" = some "" ∧ plain.remainder? "libs" ≠ some "" := by
  intro key plain
  have hmember : ofMember? "." "lib/*/index" (.arr [.str "src"]) = some key := by decide +kernel
  have hnothing : key.remainder? "lib//index" = some "" :=
    ((remainder?_exact key "lib//index" "").1 rfl).1.mpr (by decide)
  refine ⟨hmember, ?_, hnothing, ?_, ?_, ?_, ?_⟩
  · exact ((remainder?_exact key "lib//index" "").2.2 _ _ _ hmember).mp hnothing
  · exact ((remainder?_exact key "lib/index" "").1 rfl).2 (by decide)
  · exact ((remainder?_exact key "lib/a/index" "a").1 rfl).1.mpr (by decide)
  · exact ((remainder?_exact plain "lib" "").2.1 rfl).mpr (by decide)
  · exact fun h => absurd (((remainder?_exact plain "libs" "").2.1 rfl).mp h).1 (by decide)

end CodeAtlas.Alias
