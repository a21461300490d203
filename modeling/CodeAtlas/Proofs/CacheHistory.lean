import CodeAtlas.Cache.Basic
import CodeAtlas.Proofs.Clock
import Mathlib.Data.Finset.Card

/-!
# What a cache holds after a history

A cache is looked up, swept and cleared at the readings of a clock. What it gives for a key is settled
by the puts of the past alone: the latest one of the key, unless it is too old or too many other keys
were put since.
-/

namespace CodeAtlas.Cache

variable {α : Type}

/-! ## Sessions -/

inductive Action (α : Type) where
  | put (key : String) (value : α)
  | get (key : String)
  | contains (key : String)
  | sweep
  | clear
deriving DecidableEq

/-- A cache and how often its clock was read. -/
structure Session (α : Type) where
  cache : Cache α
  readings : Nat := 0

namespace Session

/-- The clock is read for a key that is there only. -/
def lookUp (clock : Nat → Seconds) (s : Session α) (key : String) : Session α where
  cache := (s.cache.get (clock s.readings) key).2
  readings := if (s.cache.find? key).isSome then s.readings + 1 else s.readings

/-- Whether a key is there is found out by looking it up. -/
def act (clock : Nat → Seconds) (s : Session α) : Action α → Session α
  | .put key value => ⟨(s.cache.put (clock s.readings) key value).2, s.readings + 1⟩
  | .get key => s.lookUp clock key
  | .contains key => s.lookUp clock key
  | .sweep => ⟨(s.cache.sweep fun i => clock (s.readings + i)).2, s.readings + s.cache.size⟩
  | .clear => ⟨s.cache.clear, s.readings⟩

def run (clock : Nat → Seconds) (s : Session α) (actions : List (Action α)) : Session α :=
  actions.foldl (act clock) s

/-- Each action with the first reading that it can make. -/
def history (clock : Nat → Seconds) (s : Session α) : List (Action α) → List (Seconds × Action α)
  | [] => []
  | a :: rest => (clock s.readings, a) :: (s.act clock a).history clock rest

variable {clock : Nat → Seconds}

theorem run_concat (s : Session α) (actions : List (Action α)) (a : Action α) :
    s.run clock (actions ++ [a]) = (s.run clock actions).act clock a := by
  simp [run]

theorem history_concat (s : Session α) (actions : List (Action α)) (a : Action α) :
    s.history clock (actions ++ [a]) =
      s.history clock actions ++ [(clock (s.run clock actions).readings, a)] := by
  induction actions generalizing s with
  | nil => rfl
  | cons x rest ih =>
    rw [List.cons_append, history, history, ih, List.cons_append]
    rfl

end Session

theorem get_frame (c : Cache α) (now : Seconds) (key : String) :
    (c.get now key).2.lifetime = c.lifetime ∧ (c.get now key).2.capacity = c.capacity := by
  unfold get
  split
  · exact ⟨rfl, rfl⟩
  · split <;> exact ⟨rfl, rfl⟩

theorem foldl_erase (c : Cache α) (keys : List String) :
    keys.foldl erase c = { c with entries := c.entries.filter fun e => !keys.contains e.key } := by
  induction keys generalizing c with
  | nil => simp
  | cons key rest ih =>
    rw [List.foldl_cons, ih]
    simp only [erase, without, List.filter_filter, List.contains_cons, Bool.not_or, bne, Bool.and_comm]

theorem sweep_frame (c : Cache α) (clock : Nat → Seconds) :
    (c.sweep clock).2.lifetime = c.lifetime ∧ (c.sweep clock).2.capacity = c.capacity := by
  simp only [sweep, foldl_erase, and_self]

theorem act_frame (clock : Nat → Seconds) (s : Session α) (a : Action α) :
    (s.act clock a).cache.lifetime = s.cache.lifetime ∧
      (s.act clock a).cache.capacity = s.cache.capacity := by
  cases a with
  | put key value => exact ⟨rfl, rfl⟩
  | get key => exact get_frame s.cache _ key
  | contains key => exact get_frame s.cache _ key
  | sweep => exact sweep_frame s.cache fun i => clock (s.readings + i)
  | clear => exact ⟨rfl, rfl⟩

theorem run_frame (clock : Nat → Seconds) (s : Session α) (actions : List (Action α)) :
    (s.run clock actions).cache.lifetime = s.cache.lifetime ∧
      (s.run clock actions).cache.capacity = s.cache.capacity := by
  induction actions using List.reverseRecOn with
  | nil => exact ⟨rfl, rfl⟩
  | append_singleton actions a ih =>
    rw [Session.run_concat]
    have h := act_frame clock (s.run clock actions) a
    exact ⟨h.1.trans ih.1, h.2.trans ih.2⟩

/-! ## Puts -/

namespace Action

def putKey? : Action α → Option String
  | put key _ => some key
  | _ => none

/-- Whether an entry of the key lives on in the memory of what was put. -/
def spares (key : String) : Action α → Bool
  | put other _ => other != key
  | clear => false
  | _ => true

end Action

def keysPut (events : List (Seconds × Action α)) : List String :=
  events.filterMap fun e => e.2.putKey?

theorem keysPut_concat (events : List (Seconds × Action α)) (t : Seconds) (a : Action α) :
    keysPut (events ++ [(t, a)]) = keysPut events ++ a.putKey?.toList := by
  unfold keysPut
  rw [List.filterMap_append]
  cases hkey : a.putKey? with
  | none => simp only [List.filterMap_cons, hkey, List.filterMap_nil, Option.toList_none]
  | some key => simp only [List.filterMap_cons, hkey, List.filterMap_nil, Option.toList_some]

def putTimes (events : List (Seconds × Action α)) : List Seconds :=
  events.filterMap fun e => e.2.putKey?.map fun _ => e.1

/-- The latest put of each key since the last clear, in the order of these puts. -/
def heldAfter (held : List (CacheEntry α)) : Seconds × Action α → List (CacheEntry α)
  | (t, .put key value) => held.filter (·.key != key) ++ [⟨key, value, t⟩]
  | (_, .clear) => []
  | _ => held

def held (events : List (Seconds × Action α)) : List (CacheEntry α) :=
  events.foldl heldAfter []

theorem held_concat (events : List (Seconds × Action α)) (e : Seconds × Action α) :
    held (events ++ [e]) = heldAfter (held events) e := by
  simp [held]

theorem held_keys_nodup (events : List (Seconds × Action α)) :
    ((held events).map (·.key)).Nodup := by
  induction events using List.reverseRecOn with
  | nil => exact List.nodup_nil
  | append_singleton events e ih =>
    rw [held_concat]
    obtain ⟨t, a⟩ := e
    cases a with
    | put key value =>
      rw [heldAfter, List.map_append, List.nodup_append]
      refine ⟨ih.sublist (List.filter_sublist.map _), by simp, ?_⟩
      intro a ha b hb
      obtain ⟨e, he, rfl⟩ := List.mem_map.mp ha
      obtain rfl : b = key := by simpa using hb
      simpa using (List.mem_filter.mp he).2
    | get key => exact ih
    | contains key => exact ih
    | sweep => exact ih
    | clear => exact List.nodup_nil

theorem held_insertedAt {events : List (Seconds × Action α)} {e : CacheEntry α} (h : e ∈ held events) :
    e.insertedAt ∈ putTimes events := by
  induction events using List.reverseRecOn with
  | nil => simp [held] at h
  | append_singleton events x ih =>
    rw [held_concat] at h
    rw [putTimes, List.filterMap_append, List.mem_append]
    obtain ⟨t, a⟩ := x
    cases a with
    | put key value =>
      rcases List.mem_append.mp h with hold | hnew
      · exact .inl (ih (List.mem_filter.mp hold).1)
      · right
        rw [List.mem_singleton.mp hnew]
        simp [Action.putKey?]
    | get key => exact .inl (ih h)
    | contains key => exact .inl (ih h)
    | sweep => exact .inl (ih h)
    | clear => simp [heldAfter] at h

/-- The clock goes on between two puts. -/
def Apart (events : List (Seconds × Action α)) : Prop :=
  (putTimes events).Pairwise fun a b => a.isBefore b = true

theorem Apart.of_concat {events : List (Seconds × Action α)} {e : Seconds × Action α}
    (h : Apart (events ++ [e])) : Apart events :=
  List.Pairwise.sublist (by simp [putTimes]) h

theorem held_pairwise {events : List (Seconds × Action α)} (h : Apart events) :
    (held events).Pairwise fun a b => a.insertedAt.isBefore b.insertedAt = true := by
  induction events using List.reverseRecOn with
  | nil => exact List.Pairwise.nil
  | append_singleton events x ih =>
    rw [held_concat]
    have hbefore := ih h.of_concat
    rw [Apart, putTimes, List.filterMap_append, List.pairwise_append] at h
    obtain ⟨t, a⟩ := x
    cases a with
    | put key value =>
      rw [heldAfter, List.pairwise_append]
      refine ⟨hbefore.filter _, List.pairwise_singleton _ _, ?_⟩
      intro a ha b hb
      rw [List.mem_singleton.mp hb]
      exact h.2.2 _ (held_insertedAt (List.mem_filter.mp ha).1) t (by simp [Action.putKey?])
    | get key => exact hbefore
    | contains key => exact hbefore
    | sweep => exact hbefore
    | clear => exact List.Pairwise.nil

/-- What stands behind an entry after a put: nothing, if it is the new one, else what stood there
before but for the key, and the new entry. -/
theorem held_put_split {events : List (Seconds × Action α)} {t : Seconds} {key : String} {value : α}
    {older newer : List (CacheEntry α)} {e : CacheEntry α}
    (h : held (events ++ [(t, Action.put key value)]) = older ++ e :: newer) :
    e = ⟨key, value, t⟩ ∧ newer = [] ∨ e.key ≠ key ∧ ∃ older' newer', held events = older' ++ e :: newer' ∧
      newer = newer'.filter (·.key != key) ++ [⟨key, value, t⟩] := by
  have hnodup := (held_keys_nodup (events ++ [(t, Action.put key value)])).of_map
  have hmem : e ∈ held (events ++ [(t, Action.put key value)]) := by simp [h]
  have hunique (front back : List (CacheEntry α))
      (h' : held (events ++ [(t, Action.put key value)]) = front ++ e :: back) : newer = back := by
    rw [h] at hnodup h'
    have hfront : e ∉ older := fun hx => (List.nodup_append.mp hnodup).2.2 e hx e (by simp) rfl
    have hback : e ∉ newer := (List.nodup_cons.mp (List.nodup_append.mp hnodup).2.1).1
    exact ((List.append_cons_inj_of_notMem hfront hback).mp h').2.2
  rw [held_concat, heldAfter] at hmem hunique
  rcases List.mem_append.mp hmem with hold | hnew
  · right
    obtain ⟨hold, hkey⟩ := List.mem_filter.mp hold
    obtain ⟨older', newer', heq⟩ := List.append_of_mem hold
    have hcons : (e :: newer').filter (·.key != key) = e :: newer'.filter (·.key != key) :=
      List.filter_cons_of_pos hkey
    refine ⟨by simpa using hkey, older', newer', heq, hunique (older'.filter (·.key != key)) _ ?_⟩
    rw [heq, List.filter_append, hcons, List.append_assoc, List.cons_append]
  · obtain rfl := List.mem_singleton.mp hnew
    exact .inl ⟨rfl, hunique _ [] rfl⟩

/-- The puts behind the latest one of a key are as many as the other keys put since. -/
theorem held_of_latest (before : List (Seconds × Action α)) (t : Seconds) (key : String) (value : α)
    {after : List (Seconds × Action α)} (h : ∀ e ∈ after, e.2.spares key = true) :
    ∃ older newer,
      held (before ++ (t, Action.put key value) :: after) = older ++ ⟨key, value, t⟩ :: newer ∧
      newer.length = (keysPut after).toFinset.card := by
  have hstep : ∃ older newer : List (CacheEntry α),
      held (before ++ (t, Action.put key value) :: after) = older ++ ⟨key, value, t⟩ :: newer ∧
      (newer.map (·.key)).toFinset = (keysPut after).toFinset := by
    induction after using List.reverseRecOn with
    | nil => exact ⟨(held before).filter (·.key != key), [], held_concat _ _, rfl⟩
    | append_singleton after x ih =>
      obtain ⟨older, newer, heq, hkeys⟩ := ih fun e he => h e (by simp [he])
      have hspares := h x (by simp)
      rw [← List.cons_append, ← List.append_assoc, held_concat, heq]
      obtain ⟨s, a⟩ := x
      rw [keysPut_concat]
      have hquiet (hnone : a.putKey? = none) :
          (newer.map (·.key)).toFinset = (keysPut after ++ a.putKey?.toList).toFinset := by
        rw [hnone, Option.toList_none, List.append_nil]
        exact hkeys
      cases a with
      | put other value' =>
        have hne : key ≠ other := fun heq => by simp [Action.spares, heq] at hspares
        refine ⟨older.filter (·.key != other), newer.filter (·.key != other) ++ [⟨other, value', s⟩], ?_, ?_⟩
        · simp [heldAfter, hne]
        · ext k
          have hk : k ∈ newer.map (·.key) ↔ k ∈ keysPut after := by
            rw [← List.mem_toFinset, hkeys, List.mem_toFinset]
          rw [List.mem_toFinset, List.mem_toFinset, List.map_append, List.mem_append, List.mem_append, ← hk]
          by_cases hkother : k = other
          · simp [hkother, Action.putKey?]
          · have hmem : k ∈ (newer.filter (·.key != other)).map (·.key) ↔ k ∈ newer.map (·.key) := by
              simp only [List.mem_map, List.mem_filter, bne_iff_ne]
              constructor
              · rintro ⟨e, ⟨he, -⟩, rfl⟩
                exact ⟨e, he, rfl⟩
              · rintro ⟨e, he, rfl⟩
                exact ⟨e, ⟨he, hkother⟩, rfl⟩
            rw [hmem]
            simp [Action.putKey?, hkother]
      | get other => exact ⟨older, newer, rfl, hquiet rfl⟩
      | contains other => exact ⟨older, newer, rfl, hquiet rfl⟩
      | sweep => exact ⟨older, newer, rfl, hquiet rfl⟩
      | clear => simp [Action.spares] at hspares
  obtain ⟨older, newer, heq, hkeys⟩ := hstep
  refine ⟨older, newer, heq, ?_⟩
  have hnodup := held_keys_nodup (before ++ (t, Action.put key value) :: after)
  rw [heq, List.map_append, List.map_cons] at hnodup
  rw [← hkeys, List.toFinset_card_of_nodup (List.nodup_append.mp hnodup).2.1.of_cons, List.length_map]

theorem latest_of_held {events : List (Seconds × Action α)} {e : CacheEntry α} (h : e ∈ held events) :
    ∃ before after : List (Seconds × Action α),
      events = before ++ (e.insertedAt, Action.put e.key e.value) :: after ∧
      ∀ x ∈ after, x.2.spares e.key = true := by
  induction events using List.reverseRecOn with
  | nil => simp [held] at h
  | append_singleton events x ih =>
    rw [held_concat] at h
    obtain ⟨t, a⟩ := x
    have hlater (hold : e ∈ held events) (hspares : a.spares e.key = true) :
        ∃ before after : List (Seconds × Action α),
        events ++ [(t, a)] = before ++ (e.insertedAt, Action.put e.key e.value) :: after ∧
        ∀ x ∈ after, x.2.spares e.key = true := by
      obtain ⟨before, after, rfl, hafter⟩ := ih hold
      refine ⟨before, after ++ [(t, a)], by simp, fun x hx => ?_⟩
      rcases List.mem_append.mp hx with hx | hx
      · exact hafter x hx
      · rw [List.mem_singleton.mp hx]
        exact hspares
    cases a with
    | put key value =>
      rcases List.mem_append.mp h with hold | hnew
      · obtain ⟨hold, hne⟩ := List.mem_filter.mp hold
        refine hlater hold ?_
        have : e.key ≠ key := by simpa using hne
        simpa [Action.spares] using this.symm
      · rw [List.mem_singleton.mp hnew]
        exact ⟨events, [], rfl, by simp⟩
    | get key => exact hlater h rfl
    | contains key => exact hlater h rfl
    | sweep => exact hlater h rfl
    | clear => simp [heldAfter] at h

/-! ## Evictions -/

theorem oldest?_eq_none {entries : List (CacheEntry α)} (h : oldest? entries = none) : entries = [] := by
  cases entries with
  | nil => rfl
  | cons e rest =>
    rw [oldest?] at h
    cases hrest : oldest? rest with
    | none => simp [hrest] at h
    | some other =>
      by_cases hbefore : other.insertedAt.isBefore e.insertedAt = true <;> simp [hrest, hbefore] at h

theorem oldest?_eq {entries : List (CacheEntry α)} {first : CacheEntry α} (hmem : first ∈ entries)
    (h : ∀ e ∈ entries, e = first ∨ first.insertedAt.isBefore e.insertedAt = true) :
    oldest? entries = some first := by
  induction entries with
  | nil => simp at hmem
  | cons e rest ih =>
    rw [oldest?]
    by_cases hrest : first ∈ rest
    · rw [ih hrest fun x hx => h x (List.mem_cons_of_mem e hx)]
      rcases h e List.mem_cons_self with rfl | hbefore
      · simp
      · simp [hbefore]
    · obtain rfl : first = e := by simpa [hrest] using hmem
      cases hother : oldest? rest with
      | none => rfl
      | some other =>
        have hin := oldest?_mem hother
        rcases h other (List.mem_cons_of_mem first hin) with rfl | hbefore
        · exact absurd hin hrest
        · simp [Seconds.isBefore_asymm hbefore]

theorem evict_sublist (capacity : Int) (entries : List (CacheEntry α)) :
    (evict capacity entries).2.Sublist entries := by
  fun_induction evict capacity entries with
  | case1 entries hroom => exact List.Sublist.refl _
  | case2 entries hfull hnone => exact List.Sublist.refl _
  | case3 entries hfull e hsome ih => exact ih.trans List.filter_sublist

theorem evict_eq_ok_iff (capacity : Int) (entries : List (CacheEntry α)) :
    (evict capacity entries).1 = .ok () ↔ 0 ≤ capacity := by
  fun_induction evict capacity entries with
  | case1 entries hroom => exact ⟨fun _ => by omega, fun _ => rfl⟩
  | case2 entries hfull hnone =>
    rw [oldest?_eq_none hnone, List.length_nil] at hfull
    exact ⟨nofun, fun h => absurd h hfull⟩
  | case3 entries hfull e hsome ih => exact ih

theorem put_eq_ok_iff (c : Cache α) (now : Seconds) (key : String) (value : α) :
    (c.put now key value).1 = .ok () ↔ 0 ≤ c.capacity :=
  evict_eq_ok_iff _ _

theorem length_evict_le {capacity : Int} (hcap : 0 ≤ capacity) (entries : List (CacheEntry α)) :
    ((evict capacity entries).2.length : Int) ≤ capacity := by
  fun_induction evict capacity entries with
  | case1 entries hroom => exact hroom
  | case2 entries hfull hnone =>
    rw [oldest?_eq_none hnone, List.length_nil]
    exact hcap
  | case3 entries hfull e hsome ih => exact ih

/-- Evictions take from the front of the entries by age. -/
theorem evict_perm {capacity : Int} (hcap : 0 ≤ capacity) {entries sorted : List (CacheEntry α)}
    (hperm : entries.Perm sorted) (hkeys : (sorted.map (·.key)).Nodup)
    (hsorted : sorted.Pairwise fun a b => a.insertedAt.isBefore b.insertedAt = true) :
    (evict capacity entries).2.Perm (sorted.drop (sorted.length - capacity.toNat)) := by
  have hlength := hperm.length_eq
  fun_induction evict capacity entries generalizing sorted with
  | case1 entries hroom =>
    rw [show sorted.length - capacity.toNat = 0 by omega]
    exact hperm
  | case2 entries hfull hnone =>
    rw [oldest?_eq_none hnone, List.length_nil] at hfull
    exact absurd hcap hfull
  | case3 entries hfull e hsome ih =>
    cases sorted with
    | nil => simp [hperm.eq_nil, oldest?] at hsome
    | cons first rest =>
      have hfirst : oldest? entries = some first := by
        apply oldest?_eq (hperm.mem_iff.mpr List.mem_cons_self)
        intro e he
        rcases List.mem_cons.mp (hperm.mem_iff.mp he) with rfl | hrest
        · exact .inl rfl
        · exact .inr (List.rel_of_pairwise_cons hsorted hrest)
      obtain rfl : e = first := Option.some.inj (hsome.symm.trans hfirst)
      have hothers : (e :: rest).filter (·.key != e.key) = rest := by
        rw [List.filter_cons_of_neg (by simp), List.filter_eq_self]
        intro x hx
        have hne : x.key ≠ e.key := fun heq => (List.nodup_cons.mp hkeys).1 (List.mem_map.mpr ⟨x, hx, heq⟩)
        simpa using hne
      have hfilter : (without entries e.key).Perm rest := by
        rw [← hothers]
        exact hperm.filter _
      have hrest : (e :: rest).length - capacity.toNat = rest.length - capacity.toNat + 1 := by
        rw [List.length_cons] at hlength ⊢
        omega
      rw [hrest, List.drop_succ_cons]
      exact ih hfilter (List.nodup_cons.mp hkeys).2 hsorted.of_cons hfilter.length_eq

theorem mem_write (entries : List (CacheEntry α)) (new e : CacheEntry α) :
    e ∈ write entries new ↔ e = new ∨ e ∈ entries ∧ e.key ≠ new.key := by
  unfold write
  by_cases h : entries.any (·.key == new.key) = true
  · rw [if_pos h, List.mem_map]
    constructor
    · rintro ⟨old, hold, rfl⟩
      by_cases hkey : old.key = new.key
      · simp [hkey]
      · simp [hkey, hold]
    · rintro (rfl | ⟨hold, hkey⟩)
      · obtain ⟨old, hold, hkey⟩ := List.any_eq_true.mp h
        exact ⟨old, hold, by rw [if_pos hkey]⟩
      · exact ⟨e, hold, by simp [hkey]⟩
  · rw [if_neg h, List.mem_append, List.mem_singleton, or_comm]
    have hother (hold : e ∈ entries) : e.key ≠ new.key := by
      intro hkey
      exact h (List.any_eq_true.mpr ⟨e, hold, by simp [hkey]⟩)
    constructor
    · rintro (rfl | hold)
      · exact .inl rfl
      · exact .inr ⟨hold, hother hold⟩
    · rintro (rfl | ⟨hold, -⟩)
      · exact .inl rfl
      · exact .inr hold

theorem write_keys_nodup {entries : List (CacheEntry α)} (h : (entries.map (·.key)).Nodup)
    (new : CacheEntry α) : ((write entries new).map (·.key)).Nodup := by
  unfold write
  by_cases hany : entries.any (·.key == new.key) = true
  · rw [if_pos hany, List.map_map]
    have hsame : ((·.key) ∘ fun old : CacheEntry α => if old.key == new.key then new else old) = (·.key) := by
      funext old
      by_cases hkey : old.key = new.key <;> simp [hkey]
    rwa [hsame]
  · rw [if_neg hany, List.map_append, List.nodup_append]
    refine ⟨h, by simp, fun a ha b hb => ?_⟩
    obtain ⟨old, hold, rfl⟩ := List.mem_map.mp ha
    obtain rfl : b = new.key := by simpa using hb
    intro hkey
    exact hany (List.any_eq_true.mpr ⟨old, hold, by simp [hkey]⟩)

theorem mem_drop_iff {β : Type} {front back : List β} {x : β} (hback : x ∉ back) (n : Nat) :
    x ∈ (front ++ x :: back).drop ((front ++ x :: back).length - n) ↔ back.length < n := by
  have hlength : (front ++ x :: back).length = front.length + (back.length + 1) := by simp
  by_cases h : back.length < n
  · have hk : (front ++ x :: back).length - n ≤ front.length := by omega
    rw [List.drop_append_of_le_length hk]
    simp [h]
  · obtain ⟨k, hk⟩ : ∃ k, (front ++ x :: back).length - n = front.length + (k + 1) :=
      ⟨back.length - n, by omega⟩
    rw [hk, List.drop_length_add_append, List.drop_succ_cons]
    simp only [h, iff_false]
    exact fun hmem => hback (List.mem_of_mem_drop hmem)

theorem length_le_filter_key {entries : List (CacheEntry α)} (h : (entries.map (·.key)).Nodup) (key : String) :
    entries.length ≤ (entries.filter (·.key != key)).length + 1 := by
  induction entries with
  | nil => simp
  | cons e rest ih =>
    obtain ⟨hnot, hrest⟩ := List.nodup_cons.mp h
    by_cases hkey : e.key = key
    · have hself : rest.filter (·.key != key) = rest := by
        rw [List.filter_eq_self]
        intro x hx
        have hne : x.key ≠ key := fun heq => hnot (List.mem_map.mpr ⟨x, hx, heq.trans hkey.symm⟩)
        simpa using hne
      simp [hkey, hself]
    · have := ih hrest
      simp only [List.filter_cons, bne_iff_ne, ne_eq, hkey, not_false_eq_true, if_true, List.length_cons]
      omega

/-! ## Sweeps -/

/-- With each key once, a sweep judges each entry at its own reading. -/
theorem sweep_entries {c : Cache α} (hkeys : (c.entries.map (·.key)).Nodup) (clock : Nat → Seconds) :
    (c.sweep clock).2.entries =
      (c.entries.zipIdx.filter fun e => !c.isExpired (clock e.2) e.1).map (·.1) := by
  have hpairs : (c.entries.zipIdx.map (·.1.key)).Nodup := by
    rw [show (fun e : CacheEntry α × Nat => e.1.key) = (·.key) ∘ Prod.fst from rfl, ← List.map_map,
      List.zipIdx_map_fst]
    exact hkeys
  simp only [sweep, foldl_erase]
  nth_rewrite 2 [← List.zipIdx_map_fst 0 c.entries]
  rw [List.filter_map]
  congr 1
  refine List.filter_congr fun e he => ?_
  rw [Function.comp_apply, Bool.not_inj_iff, Bool.eq_iff_iff, List.contains_iff_mem, List.mem_map]
  constructor
  · rintro ⟨x, hx, hkey⟩
    obtain ⟨hx, hexp⟩ := List.mem_filter.mp hx
    rwa [← List.inj_on_of_nodup_map hpairs hx he hkey]
  · exact fun hexp => ⟨e, List.mem_filter.mpr ⟨he, hexp⟩, rfl⟩

theorem sweep_sublist (c : Cache α) (clock : Nat → Seconds) :
    (c.sweep clock).2.entries.Sublist c.entries := by
  simp only [sweep, foldl_erase]
  exact List.filter_sublist

theorem sweep_size {c : Cache α} (hkeys : (c.entries.map (·.key)).Nodup) (clock : Nat → Seconds) :
    (c.sweep clock).1 + (c.sweep clock).2.size = c.size := by
  rw [size, sweep_entries hkeys, List.length_map, sweep, List.length_map]
  have hsplit := c.entries.zipIdx.length_eq_length_filter_add fun e => c.isExpired (clock e.2) e.1
  rw [List.length_zipIdx] at hsplit
  exact hsplit.symm

theorem mem_sweep_iff {c : Cache α} (hkeys : (c.entries.map (·.key)).Nodup) (clock : Nat → Seconds)
    {i : Nat} {e : CacheEntry α} (he : c.entries[i]? = some e) :
    e ∈ (c.sweep clock).2.entries ↔ c.isExpired (clock i) e = false := by
  have hpair := List.mk_mem_zipIdx_iff_getElem?.mpr he
  rw [sweep_entries hkeys, List.mem_map]
  constructor
  · rintro ⟨⟨x, j⟩, hx, rfl⟩
    obtain ⟨hx, hlive⟩ := List.mem_filter.mp hx
    have hj := List.mk_mem_zipIdx_iff_getElem?.mp hx
    have hlt : i < c.entries.length := (List.getElem?_eq_some_iff.mp he).1
    rw [(List.getElem?_inj hlt hkeys.of_map).mp (he.trans hj.symm)]
    simpa using hlive
  · intro hlive
    exact ⟨(e, i), List.mem_filter.mpr ⟨hpair, by simpa using hlive⟩, rfl⟩

/-! ## Clocks -/

/-- A clock of one kind that does not go back. -/
structure Steady (clock : Nat → Seconds) : Prop where
  oneKind : (∀ i, ∃ n, clock i = .whole n) ∨ ∀ i, (clock i).IsExact
  forward : ∀ i j, i ≤ j → (clock j).reaches (clock i) = true

namespace Steady

variable {clock : Nat → Seconds} (h : Steady clock)
include h

theorem oneKind_map (is : List Nat) : Seconds.OneKind (is.map clock) := by
  rcases h.oneKind with hwhole | hexact
  · exact .inl (by simpa using fun i _ => hwhole i)
  · exact .inr (by simpa using fun i _ => hexact i)

/-- What is too old stays so. -/
theorem isExpired_later (c : Cache α) {e : CacheEntry α} {k i j : Nat} (he : e.insertedAt = clock k)
    (hki : k ≤ i) (hij : i ≤ j) (hexp : c.isExpired (clock i) e = true) : c.isExpired (clock j) e = true := by
  rw [isExpired, he] at hexp ⊢
  exact Seconds.reaches_since_mono (h.oneKind_map [k, k, i, j]) (h.forward k k le_rfl) (h.forward k i hki)
    (h.forward i j hij) hexp

theorem isExpired_older (c : Cache α) {old e : CacheEntry α} {k l i : Nat} (hold : old.insertedAt = clock k)
    (he : e.insertedAt = clock l) (hbefore : old.insertedAt.isBefore e.insertedAt = true) (hli : l ≤ i)
    (hexp : c.isExpired (clock i) e = true) : c.isExpired (clock i) old = true := by
  rw [hold, he] at hbefore
  rw [isExpired, he] at hexp
  rw [isExpired, hold]
  exact Seconds.reaches_since_mono (h.oneKind_map [k, l, i, i]) (Seconds.reaches_of_isBefore hbefore)
    (h.forward l i hli) (h.forward i i le_rfl) hexp

end Steady

/-! ## What is kept -/

/-- The cache holds puts of the past; of those that are not too old at any reading to come, the ones with
room left. -/
structure Session.Keeps (clock : Nat → Seconds) (s : Session α) (events : List (Seconds × Action α)) :
    Prop where
  keys : (s.cache.entries.map (·.key)).Nodup
  held : ∀ e ∈ s.cache.entries, e ∈ held events
  made : ∀ e ∈ Cache.held events, ∃ i < s.readings, e.insertedAt = clock i
  kept : ∀ i, s.readings ≤ i → ∀ older e newer, Cache.held events = older ++ e :: newer →
    s.cache.isExpired (clock i) e = false → (e ∈ s.cache.entries ↔ (newer.length : Int) < s.cache.capacity)

namespace Session.Keeps

variable {clock : Nat → Seconds} {s : Session α} {events : List (Seconds × Action α)}
variable (h : s.Keeps clock events)
include h

/-- Entries may go that were too old at a reading made meanwhile. -/
theorem drop (hclock : Steady clock) {s' : Session α} {x : Seconds × Action α}
    (hheld : Cache.held (events ++ [x]) = Cache.held events)
    (hframe : s'.cache.lifetime = s.cache.lifetime ∧ s'.cache.capacity = s.cache.capacity)
    (hreadings : s.readings ≤ s'.readings) (hsub : s'.cache.entries.Sublist s.cache.entries)
    (hlost : ∀ e ∈ s.cache.entries, e ∉ s'.cache.entries →
      ∃ i, s.readings ≤ i ∧ i < s'.readings ∧ s.cache.isExpired (clock i) e = true) :
    s'.Keeps clock (events ++ [x]) where
  keys := h.keys.sublist (hsub.map _)
  held e he := by
    rw [hheld]
    exact h.held e (hsub.mem he)
  made e he := by
    rw [hheld] at he
    obtain ⟨i, hi, hat⟩ := h.made e he
    exact ⟨i, by omega, hat⟩
  kept j hj older e newer hsplit hlive := by
    rw [hheld] at hsplit
    have hlive' : s.cache.isExpired (clock j) e = false := by
      rwa [isExpired, hframe.1] at hlive
    rw [hframe.2, ← h.kept j (by omega) older e newer hsplit hlive']
    constructor
    · exact fun he => hsub.mem he
    · intro he
      by_contra hnot
      obtain ⟨i, hi, hij, hexp⟩ := hlost e he hnot
      obtain ⟨k, hk, hat⟩ := h.made e (h.held e he)
      have hstill := hclock.isExpired_later s.cache hat (by omega : k ≤ i) (by omega : i ≤ j) hexp
      rw [hlive'] at hstill
      exact Bool.false_ne_true hstill

theorem eq_of_key {a b : CacheEntry α} (ha : a ∈ s.cache.entries) (hb : b ∈ s.cache.entries)
    (hkey : a.key = b.key) : a = b :=
  List.inj_on_of_nodup_map h.keys ha hb hkey

theorem lookUp (hclock : Steady clock) {x : Seconds × Action α}
    (hheld : Cache.held (events ++ [x]) = Cache.held events) (key : String) :
    (s.lookUp clock key).Keeps clock (events ++ [x]) := by
  have hreadings : s.readings ≤ (s.lookUp clock key).readings := by
    unfold Session.lookUp
    dsimp only
    split <;> omega
  have hsame (hget : (s.lookUp clock key).cache = s.cache) :
      (s.lookUp clock key).Keeps clock (events ++ [x]) := by
    refine h.drop hclock hheld (get_frame _ _ _) hreadings (by rw [hget]) ?_
    intro e he hnot
    rw [hget] at hnot
    exact absurd he hnot
  cases hfind : s.cache.find? key with
  | none => exact hsame (by rw [Session.lookUp, get, hfind])
  | some found =>
    have hkey : found.key = key := by simpa using List.find?_some hfind
    by_cases hexp : s.cache.isExpired (clock s.readings) found = true
    · have hget : (s.lookUp clock key).cache = s.cache.erase key := by
        simp only [Session.lookUp, get, hfind, hexp, if_true]
      refine h.drop hclock hheld (get_frame _ _ _) hreadings ?_ ?_
      · rw [hget]
        exact List.filter_sublist
      · intro e he hnot
        simp only [hget, erase, without, List.mem_filter, not_and, bne_iff_ne, not_not] at hnot
        rw [h.eq_of_key he (List.mem_of_find?_eq_some hfind) ((hnot he).trans hkey.symm)]
        exact ⟨s.readings, le_rfl, by simp [Session.lookUp, hfind], hexp⟩
    · exact hsame (by simp only [Session.lookUp, get, hfind, hexp, Bool.false_eq_true, if_false])

theorem sweep (hclock : Steady clock) (t : Seconds) :
    (s.act clock .sweep).Keeps clock (events ++ [(t, Action.sweep)]) := by
  refine h.drop hclock (held_concat _ _) (act_frame _ _ _) (Nat.le_add_right _ _)
    (sweep_sublist s.cache fun i => clock (s.readings + i)) ?_
  intro e he hnot
  obtain ⟨i, hi, rfl⟩ := List.getElem_of_mem he
  have hexp := mt (mem_sweep_iff h.keys (fun i => clock (s.readings + i)) (List.getElem?_eq_getElem hi)).mpr hnot
  exact ⟨s.readings + i, by omega, Nat.add_lt_add_left hi _, by simpa using hexp⟩

omit h in
theorem clear (t : Seconds) : (s.act clock .clear).Keeps clock (events ++ [(t, Action.clear)]) where
  keys := List.nodup_nil
  held e he := by simp [act, Cache.clear] at he
  made e he := by simp [held_concat, heldAfter] at he
  kept i _ older e newer hsplit := by simp [held_concat, heldAfter] at hsplit

section
variable {t : Seconds} {key : String} {value : α}

theorem mem_held_of_written {e : CacheEntry α} (he : e ∈ write s.cache.entries ⟨key, value, t⟩) :
    e ∈ Cache.held (events ++ [(t, Action.put key value)]) := by
  rw [held_concat, heldAfter, List.mem_append, List.mem_singleton]
  rcases (mem_write _ _ _).mp he with rfl | ⟨hold, hkey⟩
  · exact .inr rfl
  · exact .inl (List.mem_filter.mpr ⟨h.held e hold, by simpa using hkey⟩)

theorem put_perm (hcap : 0 ≤ s.cache.capacity) (hapart : Apart (events ++ [(t, Action.put key value)])) :
    let written := (Cache.held (events ++ [(t, Action.put key value)])).filter fun e =>
      (write s.cache.entries ⟨key, value, t⟩).any (·.key == e.key)
    (s.cache.put t key value).2.entries.Perm (written.drop (written.length - s.cache.capacity.toNat)) := by
  intro written
  have hkeys : (written.map (·.key)).Nodup := (held_keys_nodup _).sublist (List.filter_sublist.map _)
  have hperm : (write s.cache.entries ⟨key, value, t⟩).Perm written := by
    rw [List.perm_ext_iff_of_nodup (write_keys_nodup h.keys _).of_map hkeys.of_map]
    intro e
    rw [List.mem_filter]
    constructor
    · intro he
      exact ⟨h.mem_held_of_written he, List.any_eq_true.mpr ⟨e, he, by simp⟩⟩
    · rintro ⟨he, hany⟩
      obtain ⟨e', he', hkey⟩ := List.any_eq_true.mp hany
      rwa [← List.inj_on_of_nodup_map (held_keys_nodup _) (h.mem_held_of_written he') he (by simpa using hkey)]
  exact evict_perm hcap hperm hkeys ((held_pairwise hapart).filter _)

/-- Behind an entry that is not too old, everything is there. -/
theorem newer_mem (hclock : Steady clock) (hapart : Apart events) {i : Nat} (hi : s.readings ≤ i)
    {older newer : List (CacheEntry α)} {e x : CacheEntry α} (hsplit : Cache.held events = older ++ e :: newer)
    (hlive : s.cache.isExpired (clock i) e = false) (he : e ∈ s.cache.entries) (hx : x ∈ newer) :
    x ∈ s.cache.entries := by
  obtain ⟨between, rest, rfl⟩ := List.append_of_mem hx
  have hbefore : e.insertedAt.isBefore x.insertedAt = true := by
    have hpair := held_pairwise hapart
    rw [hsplit, List.pairwise_append] at hpair
    exact List.rel_of_pairwise_cons hpair.2.1 (by simp)
  obtain ⟨k, -, hk⟩ := h.made e (by simp [hsplit])
  obtain ⟨l, hl, hxl⟩ := h.made x (by simp [hsplit])
  have hxlive : s.cache.isExpired (clock i) x = false := by
    by_contra hexp
    have hold := hclock.isExpired_older s.cache hk hxl hbefore (hl.le.trans hi) (by simpa using hexp)
    rw [hlive] at hold
    exact Bool.false_ne_true hold
  have hroom := (h.kept i hi older e _ hsplit hlive).mp he
  refine (h.kept i hi (older ++ e :: between) x rest (by simp [hsplit]) hxlive).mpr ?_
  simp only [List.length_append, List.length_cons] at hroom
  omega

theorem put (hclock : Steady clock) (hcap : 0 ≤ s.cache.capacity)
    (hapart : Apart (events ++ [(clock s.readings, Action.put key value)])) :
    (s.act clock (.put key value)).Keeps clock (events ++ [(clock s.readings, Action.put key value)]) where
  keys := (write_keys_nodup h.keys _).sublist ((evict_sublist _ _).map _)
  held e he := h.mem_held_of_written ((evict_sublist _ _).mem he)
  made e he := by
    rw [held_concat, heldAfter, List.mem_append, List.mem_singleton] at he
    rcases he with hold | rfl
    · obtain ⟨i, hi, hat⟩ := h.made e (List.mem_filter.mp hold).1
      exact ⟨i, Nat.lt_succ_of_lt hi, hat⟩
    · exact ⟨s.readings, Nat.lt_succ_self _, rfl⟩
  kept i hi older e newer hsplit hlive := by
    have hi' : s.readings ≤ i := Nat.le_of_succ_le hi
    have hlive' : s.cache.isExpired (clock i) e = false := hlive
    have hput : (s.act clock (.put key value)).cache.capacity = s.cache.capacity := rfl
    by_cases hwritten : e ∈ write s.cache.entries ⟨key, value, clock s.readings⟩
    · -- all that is newer was written as well, so the room alone counts
      have hnewer : ∀ x ∈ newer, x ∈ write s.cache.entries ⟨key, value, clock s.readings⟩ := by
        intro x hx
        rcases held_put_split hsplit with ⟨-, rfl⟩ | ⟨hkey, older', newer', hsplit', rfl⟩
        · simp at hx
        · have he : e ∈ s.cache.entries := by
            rcases (mem_write _ _ _).mp hwritten with rfl | ⟨he, -⟩
            · exact absurd rfl hkey
            · exact he
          rw [mem_write]
          rcases List.mem_append.mp hx with hx | hx
          · obtain ⟨hx, hxkey⟩ := List.mem_filter.mp hx
            exact .inr ⟨h.newer_mem hclock hapart.of_concat hi' hsplit' hlive' he hx, by simpa using hxkey⟩
          · exact .inl (List.mem_singleton.mp hx)
      have hback : e ∉ newer := by
        have hnodup := (held_keys_nodup (events ++ [(clock s.readings, Action.put key value)])).of_map
        rw [hsplit] at hnodup
        exact (List.nodup_cons.mp (List.nodup_append.mp hnodup).2.1).1
      have hall : (e :: newer).filter (fun x =>
          (write s.cache.entries ⟨key, value, clock s.readings⟩).any (·.key == x.key)) = e :: newer := by
        rw [List.filter_eq_self]
        intro x hx
        refine List.any_eq_true.mpr ⟨x, ?_, by simp⟩
        rcases List.mem_cons.mp hx with rfl | hx
        · exact hwritten
        · exact hnewer x hx
      have hmem := (h.put_perm hcap hapart).mem_iff (a := e)
      rw [hsplit, List.filter_append, hall, mem_drop_iff hback] at hmem
      rw [hput, act, hmem]
      omega
    · -- it was lost before, and no less is behind it now
      have hnot : e ∉ (s.act clock (.put key value)).cache.entries := fun he =>
        hwritten ((evict_sublist _ _).mem he)
      rcases held_put_split hsplit with ⟨rfl, -⟩ | ⟨hkey, older', newer', hsplit', rfl⟩
      · exact absurd ((mem_write _ _ _).mpr (.inl rfl)) hwritten
      · have hlost : e ∉ s.cache.entries := fun he => hwritten ((mem_write _ _ _).mpr (.inr ⟨he, hkey⟩))
        have hfull := mt (h.kept i hi' older' e newer' hsplit' hlive').mpr hlost
        have hkeys := held_keys_nodup events
        rw [hsplit', List.map_append, List.map_cons] at hkeys
        have hlength := length_le_filter_key (List.nodup_append.mp hkeys).2.1.of_cons key
        simp only [hnot, false_iff, hput, List.length_append, List.length_singleton]
        omega

/-- An entry that a put drives out is older than all that stay. -/
theorem isExpired_of_evicted (hclock : Steady clock) (hcap : 0 ≤ s.cache.capacity)
    (hapart : Apart (events ++ [(clock s.readings, Action.put key value)])) {e e' : CacheEntry α}
    (he : e ∈ s.cache.entries) (hkey : e.key ≠ key)
    (hgone : e ∉ (s.cache.put (clock s.readings) key value).2.entries)
    (he' : e' ∈ (s.cache.put (clock s.readings) key value).2.entries)
    (hexp : s.cache.isExpired (clock s.readings) e' = true) :
    s.cache.isExpired (clock s.readings) e = true := by
  have hmade := (h.put hclock hcap hapart).made
  have hwritten : e ∈ write s.cache.entries ⟨key, value, clock s.readings⟩ :=
    (mem_write _ _ _).mpr (.inr ⟨he, hkey⟩)
  have hheld := h.mem_held_of_written hwritten
  have hheld' := h.mem_held_of_written ((evict_sublist _ _).mem he')
  obtain ⟨k, -, hk⟩ := hmade e hheld
  obtain ⟨l, hl, hl'⟩ := hmade e' hheld'
  refine hclock.isExpired_older s.cache hk hl' ?_ (Nat.le_of_lt_succ hl) hexp
  have hperm := h.put_perm hcap hapart
  have hsorted := (held_pairwise hapart).filter fun e =>
    (write s.cache.entries ⟨key, value, clock s.readings⟩).any (·.key == e.key)
  have hmem : e ∈ (Cache.held (events ++ [(clock s.readings, Action.put key value)])).filter fun e =>
      (write s.cache.entries ⟨key, value, clock s.readings⟩).any (·.key == e.key) :=
    List.mem_filter.mpr ⟨hheld, List.any_eq_true.mpr ⟨e, hwritten, by simp⟩⟩
  rw [hperm.mem_iff] at hgone he'
  generalize (Cache.held (events ++ [(clock s.readings, Action.put key value)])).filter _ = sorted at *
  rw [← List.take_append_drop (sorted.length - s.cache.capacity.toNat) sorted] at hsorted hmem
  exact (List.pairwise_append.mp hsorted).2.2 e ((List.mem_append.mp hmem).resolve_right hgone) e' he'

end

end Session.Keeps

theorem run_keeps {clock : Nat → Seconds} (hclock : Steady clock) {s : Session α} (hempty : s.cache.entries = [])
    (hcap : 0 ≤ s.cache.capacity) (actions : List (Action α)) (hapart : Apart (s.history clock actions)) :
    (s.run clock actions).Keeps clock (s.history clock actions) := by
  induction actions using List.reverseRecOn with
  | nil => exact ⟨by simp [Session.run, hempty], by simp [Session.run, hempty], by simp [Session.history, held],
      by simp [Session.history, held]⟩
  | append_singleton actions a ih =>
    rw [Session.history_concat] at hapart
    have hkeeps := ih hapart.of_concat
    rw [Session.run_concat, Session.history_concat]
    cases a with
    | put key value => exact hkeeps.put hclock (by rwa [(run_frame clock s actions).2]) hapart
    | get key => exact hkeeps.lookUp hclock (held_concat _ _) key
    | contains key => exact hkeeps.lookUp hclock (held_concat _ _) key
    | sweep => exact hkeeps.sweep hclock _
    | clear => exact Session.Keeps.clear _

theorem get_eq_some_iff {c : Cache α} (h : (c.entries.map (·.key)).Nodup) (now : Seconds) (key : String)
    (value : α) : (c.get now key).1 = some value ↔
      ∃ t, ⟨key, value, t⟩ ∈ c.entries ∧ (now.since t).reaches c.lifetime = false := by
  unfold get
  cases hfind : c.find? key with
  | none =>
    simp only [find?, List.find?_eq_none] at hfind
    simp only [reduceCtorEq, false_iff, not_exists, not_and]
    intro t hmem
    have := hfind _ hmem
    simp at this
  | some e =>
    have hmem := List.mem_of_find?_eq_some hfind
    have hkey : e.key = key := by simpa using List.find?_some hfind
    have hunique (t : Seconds) (ht : ⟨key, value, t⟩ ∈ c.entries) : e = ⟨key, value, t⟩ :=
      List.inj_on_of_nodup_map h hmem ht hkey
    by_cases hexp : c.isExpired now e = true
    · simp only [hexp, if_true, reduceCtorEq, false_iff, not_exists, not_and]
      intro t ht
      rw [hunique t ht] at hexp
      simpa [isExpired] using hexp
    · simp only [hexp, Bool.false_eq_true, if_false, Option.some.injEq]
      constructor
      · rintro rfl
        refine ⟨e.insertedAt, by rw [← hkey]; exact hmem, by simpa [isExpired] using hexp⟩
      · rintro ⟨t, ht, -⟩
        rw [hunique t ht]

theorem Apart.concat_put {events : List (Seconds × Action α)} {now : Seconds} (h : Apart events)
    (hputs : ∀ t ∈ putTimes events, t.isBefore now = true) (key : String) (value : α) :
    Apart (events ++ [(now, Action.put key value)]) := by
  rw [Apart, putTimes, List.filterMap_append, List.pairwise_append]
  refine ⟨h, List.pairwise_singleton _ _, fun a ha b hb => ?_⟩
  obtain rfl : b = now := by simpa [Action.putKey?, eq_comm] using hb
  exact hputs a ha

/-- After any actions on an empty cache: a key gives the value of its latest put since the last clear, if
that is not too old and fewer other keys were put since than there is room for. A put leaves no more
entries than there is room for, and drives none out that is not too old while one that is remains. A
sweep drops and counts the entries that are too old, each at its own reading. -/
theorem get_of_history (lifetime : Seconds) {capacity : Int} (hcap : 0 ≤ capacity) {clock : Nat → Seconds}
    (hclock : Steady clock) (actions : List (Action α))
    (hapart : Apart (Session.history clock ⟨{ lifetime, capacity }, 0⟩ actions)) :
    let events := Session.history clock ⟨{ lifetime, capacity }, 0⟩ actions
    let s := Session.run clock ⟨{ lifetime, capacity }, 0⟩ actions
    let c := s.cache
    let now := clock s.readings
    (∀ key value, (c.get now key).1 = some value ↔ ∃ before t after,
      events = before ++ (t, .put key value) :: after ∧ (∀ e ∈ after, e.2.spares key = true) ∧
      (now.since t).reaches lifetime = false ∧ ((keysPut after).toFinset.card : Int) < capacity) ∧
    (∀ key value, (c.put now key value).1 = .ok () ∧ ((c.put now key value).2.size : Int) ≤ capacity ∧
      ((∀ t ∈ putTimes events, t.isBefore now = true) →
        ∀ e ∈ c.entries, e ∉ (c.put now key value).2.entries → e.key ≠ key →
          (now.since e.insertedAt).reaches lifetime = false →
          ∀ e' ∈ (c.put now key value).2.entries, (now.since e'.insertedAt).reaches lifetime = false)) ∧
    let readings := fun i => clock (s.readings + i)
    (c.sweep readings).1 + (c.sweep readings).2.size = c.size ∧
    (c.sweep readings).2.entries.Sublist c.entries ∧
    ∀ i e, c.entries[i]? = some e → (e ∈ (c.sweep readings).2.entries ↔
      ((readings i).since e.insertedAt).reaches lifetime = false) := by
  intro events s c now
  have hframe : c.lifetime = lifetime ∧ c.capacity = capacity := run_frame clock _ actions
  have hcap' : 0 ≤ c.capacity := hframe.2 ▸ hcap
  have hkeeps : s.Keeps clock events := run_keeps hclock rfl hcap actions hapart
  refine ⟨fun key value => ?_, fun key value => ⟨?_, ?_, fun hputs => ?_⟩, ?_⟩
  · rw [get_eq_some_iff hkeeps.keys, hframe.1]
    constructor
    · rintro ⟨t, hmem, hlive⟩
      obtain ⟨before, after, heq, hafter⟩ := latest_of_held (hkeeps.held _ hmem)
      obtain ⟨older, newer, hheld, hlength⟩ := held_of_latest before t key value hafter
      rw [← heq] at hheld
      have hroom := (hkeeps.kept _ le_rfl older _ newer hheld (by rwa [isExpired, hframe.1])).mp hmem
      rw [hframe.2, hlength] at hroom
      exact ⟨before, t, after, heq, hafter, hlive, hroom⟩
    · rintro ⟨before, t, after, heq, hafter, hlive, hroom⟩
      obtain ⟨older, newer, hheld, hlength⟩ := held_of_latest before t key value hafter
      rw [← heq] at hheld
      refine ⟨t, (hkeeps.kept _ le_rfl older _ newer hheld ?_).mpr ?_, hlive⟩
      · rwa [isExpired, hframe.1]
      · rwa [hframe.2, hlength]
  · exact (put_eq_ok_iff c now key value).mpr hcap'
  · rw [← hframe.2]
    exact length_evict_le hcap' _
  · intro e he hgone hkey hlive e' he'
    by_contra hexp
    have hexp' : c.isExpired now e' = true := by
      rw [isExpired, hframe.1]
      simpa using hexp
    have hold : c.isExpired now e = true :=
      hkeeps.isExpired_of_evicted hclock hcap' (hapart.concat_put hputs key value) he hkey hgone he' hexp'
    rw [isExpired, hframe.1, hlive] at hold
    exact Bool.false_ne_true hold
  · refine ⟨sweep_size hkeeps.keys _, sweep_sublist c _, fun i e he => ?_⟩
    rw [mem_sweep_iff hkeeps.keys _ he, isExpired, hframe.1]

def crowding : List (Action Nat) :=
  [.put "a" 1, .put "b" 2, .get "a", .put "c" 3, .contains "b", .sweep]

def crowdedReadings : List Seconds :=
  [0, 1, 2, .real (.finite false 5 (-1)), 3, 4, 5, 8, 12]

def crowdedClock (i : Nat) : Seconds :=
  crowdedReadings.getD (min i 8) 12

theorem crowdedClock_steady : Steady crowdedClock where
  oneKind := by
    have hexact : ∀ i < 9, (crowdedReadings.getD i 12).IsExact := by decide +kernel
    exact .inr fun i => hexact (min i 8) (by omega)
  forward i j hij := by
    have hforward : ∀ j < 9, ∀ i ≤ j, (crowdedReadings.getD j 12).reaches (crowdedReadings.getD i 12) = true := by
      decide +kernel
    exact hforward (min j 8) (by omega) (min i 8) (by omega)

def crowdedEvents : List (Seconds × Action Nat) :=
  [(0, .put "a" 1), (1, .put "b" 2), (2, .get "a"), (.real (.finite false 5 (-1)), .put "c" 3),
    (3, .contains "b"), (4, .sweep)]

theorem history_crowding :
    Session.history crowdedClock ⟨{ lifetime := 8, capacity := 2 }, 0⟩ crowding = crowdedEvents := by
  decide +kernel

/-- The first key has been driven out. At the last sweep the second key is read while it is not too old,
and the third, which is younger, when it is. -/
theorem get_of_crowdedHistory :
    let s := Session.run crowdedClock ⟨{ lifetime := 8, capacity := 2 }, 0⟩ crowding
    let now := crowdedClock s.readings
    let swept := (s.cache.sweep fun i => crowdedClock (s.readings + i)).2
    (s.cache.get now "b").1 = some 2 ∧ (∀ value, (s.cache.get now "a").1 ≠ some value) ∧
    ⟨"b", 2, 1⟩ ∈ swept.entries ∧ ⟨"c", 3, .real (.finite false 5 (-1))⟩ ∉ swept.entries := by
  intro s now swept
  have hapart : Apart (Session.history crowdedClock ⟨{ lifetime := 8, capacity := 2 }, 0⟩ crowding) := by
    rw [history_crowding]
    show (putTimes crowdedEvents).Pairwise _
    decide +kernel
  obtain ⟨hget, -, -, -, hswept⟩ :=
    get_of_history 8 (show (0 : Int) ≤ 2 by decide) crowdedClock_steady crowding hapart
  rw [history_crowding] at hget
  refine ⟨(hget "b" 2).mpr ?_, fun value hvalue => ?_, ?_, ?_⟩
  · exact ⟨[(0, .put "a" 1)], 1, crowdedEvents.drop 2, rfl, by decide +kernel, by decide +kernel, by decide +kernel⟩
  · obtain ⟨before, t, after, heq, hafter, -, hroom⟩ := (hget "a" value).mp hvalue
    cases before with
    | nil =>
      obtain ⟨-, rfl⟩ := List.cons.inj heq
      exact absurd hroom (by decide +kernel)
    | cons x before =>
      have hmem : (t, Action.put "a" value) ∈ crowdedEvents.tail := by
        rw [heq]
        simp
      simp [crowdedEvents] at hmem
  · exact (hswept 0 _ (by decide +kernel)).mpr (by decide +kernel)
  · rw [hswept 1 _ (by decide +kernel)]
    decide +kernel

end CodeAtlas.Cache
