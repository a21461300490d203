import CodeAtlas.Script.Fault
import Mathlib.Data.List.Basic

/-!
# The first fault of an outline

The outlines that are left to search form a stack. A step takes the top one: it is the fault, or its
children take its place if it is marked as having a fault below it (`firstFaultIn?_cons`). Where the
marks tell of every fault, what the steps leave out holds none, so the search finds the first fault
of the pre-order (`firstFaultIn?_of_marked`), and the report tells of that one.
-/

namespace CodeAtlas.Script.Outline

/-! ## Nodes and faults -/

def children : Outline → List Outline
  | node _ _ _ _ _ ts => ts

/-- Whether the node says that there is a fault below it. -/
def isMarked : Outline → Bool
  | node _ _ faulty _ _ _ => faulty

def IsFault : Outline → Prop
  | node label missing _ _ _ _ => missing = true ∨ label = "ERROR"

instance : DecidablePred IsFault
  | node label missing _ _ _ _ => inferInstanceAs (Decidable (missing = true ∨ label = "ERROR"))

def description : Outline → String
  | node label missing _ row column _ =>
    let what := if missing then "missing " ++ label else "unexpected token"
    s!"syntax error ({what}) at line {row + 1}, column {column + 1}"

theorem fault?_of_isFault {t : Outline} (h : t.IsFault) : t.fault? = some t.description := by
  obtain ⟨label, missing, faulty, row, column, ts⟩ := t
  have hcond : (missing || label == damaged) = true := by
    rw [Bool.or_eq_true, beq_iff_eq]
    exact h
  exact if_pos hcond

theorem fault?_eq_none_iff (t : Outline) : t.fault? = none ↔ ¬ t.IsFault := by
  refine ⟨fun hnone hfault => ?_, fun h => ?_⟩
  · rw [fault?_of_isFault hfault] at hnone
    cases hnone
  · obtain ⟨label, missing, faulty, row, column, ts⟩ := t
    have hcond : ¬ (missing || label == damaged) = true := by
      rw [Bool.or_eq_true, beq_iff_eq]
      exact h
    exact if_neg hcond

theorem fault?_eq_some {t : Outline} {text : String} (h : t.fault? = some text) :
    text = t.description := by
  by_cases hfault : t.IsFault
  · rw [fault?_of_isFault hfault] at h
    exact (Option.some.inj h).symm
  · rw [(fault?_eq_none_iff t).mpr hfault] at h
    cases h

theorem findSome?_fault?_eq_none_iff {ts : List Outline} :
    ts.findSome? fault? = none ↔ ∀ u ∈ ts, ¬ u.IsFault := by
  simp only [List.findSome?_eq_none_iff, fault?_eq_none_iff]

theorem description_ne (t : Outline) : t.description ≠ "syntax error" := by
  obtain ⟨label, missing, faulty, row, column, ts⟩ := t
  have htext : ∀ what line place : String,
      s!"syntax error ({what}) at line {line}, column {place}" ≠ "syntax error" := by
    intro what line place heq
    have hlength := congrArg String.length heq
    have hshort : "syntax error".length < (toString "syntax error (").length := by decide
    rw [String.length_append, String.length_append, String.length_append, String.length_append,
      String.length_append] at hlength
    omega
  exact htext _ _ _

mutual

/-- All nodes, each one before those below it, and these from left to right. -/
def nodes : Outline → List Outline
  | node label missing faulty row column ts =>
    node label missing faulty row column ts :: nodesIn ts

def nodesIn : List Outline → List Outline
  | [] => []
  | t :: ts => nodes t ++ nodesIn ts

end

theorem nodes_eq (t : Outline) : t.nodes = t :: nodesIn t.children := by
  obtain ⟨label, missing, faulty, row, column, ts⟩ := t
  rw [nodes, children]

theorem nodesIn_append (ts us : List Outline) : nodesIn (ts ++ us) = nodesIn ts ++ nodesIn us := by
  induction ts with
  | nil => rfl
  | cons t ts ih => rw [List.cons_append, nodesIn, nodesIn, ih, List.append_assoc]

theorem nodes_subset_nodesIn {t : Outline} {ts : List Outline} (h : t ∈ ts) : t.nodes ⊆ nodesIn ts := by
  obtain ⟨before, after, rfl⟩ := List.append_of_mem h
  intro u hu
  simp [nodesIn_append, nodesIn, hu]

/-- Every node with a fault strictly below it is marked. -/
def Marked (t : Outline) : Prop :=
  ∀ u ∈ t.nodes, (∃ f ∈ nodesIn u.children, f.IsFault) → u.isMarked = true

instance (t : Outline) : Decidable t.Marked :=
  inferInstanceAs (Decidable (∀ u ∈ t.nodes, (∃ f ∈ nodesIn u.children, f.IsFault) → u.isMarked = true))

theorem Marked.child {t u : Outline} (h : t.Marked) (hu : u ∈ t.children) : u.Marked := by
  intro v hv
  refine h v ?_
  rw [nodes_eq]
  exact List.mem_cons_of_mem t (nodes_subset_nodesIn hu hv)

/-! ## The search -/

def opened (t : Outline) : List Outline :=
  if t.isMarked then t.children else []

theorem firstFault?_eq (t : Outline) : t.firstFault? = t.fault?.or (firstFaultIn? t.opened) := by
  obtain ⟨label, missing, faulty, row, column, ts⟩ := t
  have hfault : fault? (node label missing faulty row column []) =
    fault? (node label missing faulty row column ts) := rfl
  rw [firstFault?, hfault]
  cases fault? (node label missing faulty row column ts) with
  | some report => rfl
  | none => cases faulty <;> rfl

theorem firstFaultIn?_append (ts us : List Outline) :
    firstFaultIn? (ts ++ us) = (firstFaultIn? ts).or (firstFaultIn? us) := by
  induction ts with
  | nil => rfl
  | cons t ts ih =>
    rw [List.cons_append, firstFaultIn?, firstFaultIn?, ih]
    cases t.firstFault? <;> rfl

/-- One step of the search, with the rest of the stack behind the outline on its top. -/
theorem firstFaultIn?_cons (t : Outline) (stack : List Outline) :
    firstFaultIn? (t :: stack) = t.fault?.or (firstFaultIn? (t.opened ++ stack)) := by
  rw [firstFaultIn?_append, ← Option.or_assoc, ← firstFault?_eq, firstFaultIn?]
  cases t.firstFault? <;> rfl

/-- Opening a node leaves out no fault but, perhaps, the node itself. -/
theorem findSome?_nodesIn_opened {t : Outline} (h : t.Marked) :
    (nodesIn t.opened).findSome? fault? = (nodesIn t.children).findSome? fault? := by
  rw [opened]
  cases hmark : t.isMarked with
  | true => rfl
  | false =>
    refine (findSome?_fault?_eq_none_iff.mpr fun f hf hfault => ?_).symm
    have := h t (by rw [nodes_eq]; exact List.mem_cons_self) ⟨f, hf, hfault⟩
    rw [hmark] at this
    cases this

theorem length_nodesIn_opened (t : Outline) :
    (nodesIn t.opened).length ≤ (nodesIn t.children).length := by
  rw [opened]
  split
  · exact Nat.le_refl _
  · exact Nat.zero_le _

theorem firstFaultIn?_of_marked (stack : List Outline) (h : ∀ t ∈ stack, t.Marked) :
    firstFaultIn? stack = (nodesIn stack).findSome? fault? := by
  -- every step takes at least one node from the stack
  induction hn : (nodesIn stack).length using Nat.strongRecOn generalizing stack with
  | _ n ih =>
    cases stack with
    | nil => rfl
    | cons t rest =>
      obtain ⟨ht, hrest⟩ := List.forall_mem_cons.mp h
      have hnodes : nodesIn (t :: rest) = t :: (nodesIn t.children ++ nodesIn rest) := by
        rw [nodesIn, nodes_eq, List.cons_append]
      have hmarked : ∀ u ∈ t.opened ++ rest, u.Marked := by
        intro u hu
        rcases List.mem_append.mp hu with hu | hu
        · rw [opened] at hu
          split at hu
          · exact ht.child hu
          · cases hu
        · exact hrest u hu
      have hless : (nodesIn (t.opened ++ rest)).length < n := by
        have := length_nodesIn_opened t
        rw [← hn, hnodes, nodesIn_append, List.length_cons, List.length_append, List.length_append]
        omega
      rw [firstFaultIn?_cons, ih _ hless _ hmarked rfl, hnodes, nodesIn_append, List.findSome?_append,
        findSome?_nodesIn_opened ht, ← List.findSome?_append, List.findSome?_cons]
      cases t.fault? <;> rfl

theorem firstFault?_of_marked {t : Outline} (h : t.Marked) :
    t.firstFault? = t.nodes.findSome? fault? := by
  have hall : ∀ u ∈ [t], u.Marked := by simpa using h
  have hsearch := firstFaultIn?_of_marked [t] hall
  rw [firstFaultIn?_cons, List.append_nil, ← firstFault?_eq] at hsearch
  rw [hsearch, nodesIn, nodesIn, List.append_nil]

/-! ## The report -/

theorem report_of_marked {t : Outline} (h : t.Marked) :
    (∀ before f after, t.nodes = before ++ f :: after → f.IsFault → (∀ u ∈ before, ¬ u.IsFault) →
      t.report = f.description) ∧
    (t.report = "syntax error" ↔ ∀ u ∈ t.nodes, ¬ u.IsFault) := by
  rw [report, firstFault?_of_marked h]
  refine ⟨?_, ?_, ?_⟩
  · intro before f after hnodes hf hbefore
    have hnone : before.findSome? fault? = none := findSome?_fault?_eq_none_iff.mpr hbefore
    rw [hnodes, List.findSome?_append, hnone, List.findSome?_cons, fault?_of_isFault hf]
    rfl
  · intro hbare
    rw [← findSome?_fault?_eq_none_iff]
    cases hsearch : t.nodes.findSome? fault? with
    | none => rfl
    | some text =>
      obtain ⟨u, -, hu⟩ := List.exists_of_findSome?_eq_some hsearch
      rw [hsearch, Option.getD_some, fault?_eq_some hu] at hbare
      exact absurd hbare (description_ne u)
  · intro hnone
    rw [findSome?_fault?_eq_none_iff.mpr hnone]
    rfl

def openStatement : Outline :=
  node "program" false true 0 0
    [node "statement" false false 0 0 [node "identifier" false false 0 0 []],
     node "statement" false true 2 0 [node "identifier" false false 2 0 [], node ";" true false 2 5 []],
     node "ERROR" false true 3 0 []]

theorem report_of_openStatement :
    openStatement.Marked ∧ (node ";" true false 2 5 []).IsFault ∧
    openStatement.report = "syntax error (missing ;) at line 3, column 6" ∧
    openStatement.report ≠ "syntax error" := by
  have hmarked : openStatement.Marked := by decide
  have hfault : (node ";" true false 2 5 []).IsFault := by decide
  have hnodes : openStatement.nodes =
      openStatement.nodes.take 5 ++ node ";" true false 2 5 [] :: openStatement.nodes.drop 6 := rfl
  have hbefore : ∀ u ∈ openStatement.nodes.take 5, ¬ u.IsFault := by decide
  obtain ⟨hfirst, hbare⟩ := report_of_marked hmarked
  refine ⟨hmarked, hfault, ?_, ?_⟩
  · rw [hfirst _ _ _ hnodes hfault hbefore]
    decide
  · rw [ne_eq, hbare]
    exact fun hnone => hnone _ (by rw [hnodes]; simp) hfault

end CodeAtlas.Script.Outline
