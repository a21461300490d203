import CodeAtlas.Script.Site

/-!
# Pre-order

The sites of a tree are numbered in the order of the list (`sites_index`), and the nodes around a
site come before it (`above_visited`).
-/

namespace CodeAtlas.Script

/-! ## Numbers -/

mutual

theorem sitesFrom_index (above : List (Nat × Tree)) (index : Nat) : ∀ t : Tree,
    (sitesFrom above index t).map (·.index) = List.range' index (sitesFrom above index t).length
  | ⟨kind, role, span, own, children⟩ => by
    simp only [sitesFrom, List.map_cons, List.length_cons, List.range'_succ]
    rw [sitesOfAll_index]

theorem sitesOfAll_index (above : List (Nat × Tree)) (index : Nat) : ∀ ts : List Tree,
    (sitesOfAll above index ts).map (·.index) = List.range' index (sitesOfAll above index ts).length
  | [] => rfl
  | t :: ts => by
    simp only [sitesOfAll, List.map_append, List.length_append]
    rw [sitesFrom_index above index t, sitesOfAll_index above _ ts, List.range'_append_1]

end

theorem sites_index (t : Tree) : t.sites.map (·.index) = List.range t.sites.length := by
  rw [Tree.sites, sitesFrom_index, List.range_eq_range']

theorem sites_index_nodup (t : Tree) : (t.sites.map (·.index)).Nodup := by
  rw [sites_index]
  exact List.nodup_range

/-! ## Surroundings -/

/-- The nodes around a site of the list were around all of it, or come before the site. -/
def AboveVisited (above : List (Nat × Tree)) (sites : List Site) : Prop :=
  ∀ pre s post, sites = pre ++ s :: post →
    ∀ p ∈ s.above, p ∈ above ∨ ∃ s' ∈ pre, (s'.index, s'.tree) = p

theorem AboveVisited.cons {above : List (Nat × Tree)} {index : Nat} {t : Tree} {sites : List Site}
    (h : AboveVisited ((index, t) :: above) sites) : AboveVisited above (⟨index, t, above⟩ :: sites) := by
  intro pre s post hsplit p hp
  cases pre with
  | nil =>
    rw [List.nil_append, List.cons.injEq] at hsplit
    rw [← hsplit.1] at hp
    exact .inl hp
  | cons first pre =>
    rw [List.cons_append, List.cons.injEq] at hsplit
    obtain ⟨rfl, hrest⟩ := hsplit
    rcases h pre s post hrest p hp with hp | ⟨s', hs', heq⟩
    · rcases List.mem_cons.mp hp with rfl | hp
      · exact .inr ⟨_, List.mem_cons_self, rfl⟩
      · exact .inl hp
    · exact .inr ⟨s', List.mem_cons_of_mem _ hs', heq⟩

theorem AboveVisited.append {above : List (Nat × Tree)} {xs ys : List Site}
    (hx : AboveVisited above xs) (hy : AboveVisited above ys) : AboveVisited above (xs ++ ys) := by
  intro pre s post hsplit p hp
  rcases List.append_eq_append_iff.mp hsplit with ⟨mid, rfl, hys⟩ | ⟨mid, rfl, hmid⟩
  · rcases hy mid s post hys p hp with hp | ⟨s', hs', heq⟩
    · exact .inl hp
    · exact .inr ⟨s', List.mem_append_right _ hs', heq⟩
  · cases mid with
    | nil =>
      rw [List.nil_append] at hmid
      exact (hy [] s post hmid.symm p hp).imp id fun ⟨_, h, _⟩ => absurd h List.not_mem_nil
    | cons first mid =>
      rw [List.cons_append, List.cons.injEq] at hmid
      obtain ⟨rfl, -⟩ := hmid
      exact hx pre s mid rfl p hp

mutual

theorem sitesFrom_aboveVisited (above : List (Nat × Tree)) (index : Nat) : ∀ t : Tree,
    AboveVisited above (sitesFrom above index t)
  | ⟨kind, role, span, own, children⟩ => by
    rw [sitesFrom]
    exact (sitesOfAll_aboveVisited _ (index + 1) children).cons

theorem sitesOfAll_aboveVisited (above : List (Nat × Tree)) (index : Nat) : ∀ ts : List Tree,
    AboveVisited above (sitesOfAll above index ts)
  | [] => by
    intro pre s post h
    cases pre <;> cases h
  | t :: ts => by
    rw [sitesOfAll]
    exact (sitesFrom_aboveVisited above index t).append (sitesOfAll_aboveVisited above _ ts)

end

theorem above_visited {t : Tree} {pre post : List Site} {s : Site} (h : t.sites = pre ++ s :: post)
    {p : Nat × Tree} (hp : p ∈ s.above) : ∃ s' ∈ pre, (s'.index, s'.tree) = p :=
  (sitesFrom_aboveVisited [] 0 t pre s post h p hp).resolve_left List.not_mem_nil

/-- The function around a site is visited before it. -/
theorem enclosingFunction?_visited {t : Tree} {pre post : List Site} {s : Site}
    (h : t.sites = pre ++ s :: post) {i : Nat} (hi : s.enclosingFunction? = some i) :
    ∃ s' ∈ pre, s'.index = i ∧ s'.kind.isFunction = true := by
  obtain ⟨p, hp, rfl⟩ := Option.map_eq_some_iff.mp hi
  obtain ⟨s', hs', heq⟩ := above_visited h (List.mem_of_find?_eq_some hp)
  subst heq
  have hkind := List.find?_some hp
  exact ⟨s', hs', rfl, hkind⟩

end CodeAtlas.Script
