import CodeAtlas.Graph.Dot
import CodeAtlas.Proofs.Delimited
import Mathlib.Data.List.Forall2

/-!
# Reading Graphviz text

A reader for drawings: a text is cut into tokens character by character, and the tokens between two
semicolons are a statement. Inside quotes a backslash stands for the backslash or quote behind it, and
a quote ends the text. The drawing of a report is read back statement by statement (`read_dotText`),
whatever its texts hold.
-/

namespace CodeAtlas

namespace Dot

/-! ## Tokens -/

inductive Token where
  | word (s : String)
  | quotation (s : String)
  | arrow
  | mark (c : Char)
deriving DecidableEq

/-- Where the reader stands; what has been read of a word or a quoted text is in reverse. -/
inductive Mode where
  | code (word : List Char)
  | dash
  | quoted (soFar : List Char)
  /-- After a backslash in a quoted text. -/
  | escaped (soFar : List Char)
deriving DecidableEq

def isWordChar (c : Char) : Bool :=
  c.isAlphanum || c == '_'

def wordTokens (word : List Char) : List Token :=
  if word.isEmpty then [] else [.word (String.ofList word.reverse)]

def step : Mode → Char → Option (List Token × Mode)
  | .code word, c =>
    if isWordChar c then some ([], .code (c :: word))
    else if c == '"' then some (wordTokens word, .quoted [])
    else if c == '-' then some (wordTokens word, .dash)
    else if c == ' ' || c == '\t' || c == '\n' || c == '\r' then some (wordTokens word, .code [])
    else some (wordTokens word ++ [.mark c], .code [])
  | .dash, c => if c == '>' then some ([.arrow], .code []) else none
  | .quoted soFar, c =>
    if c == '"' then some ([.quotation (String.ofList soFar.reverse)], .code [])
    else if c == '\\' then some ([], .escaped soFar)
    else some ([], .quoted (c :: soFar))
  | .escaped soFar, c =>
    if c == '\\' || c == '"' then some ([], .quoted (c :: soFar))
    else some ([], .quoted (c :: '\\' :: soFar))

def run : Mode → List Char → Option (List Token × Mode)
  | m, [] => some ([], m)
  | m, c :: cs =>
    match step m c with
    | none => none
    | some (ts, m) => (run m cs).map fun (us, m) => (ts ++ us, m)

def tokens (text : String) : Option (List Token) :=
  match run (.code []) text.toList with
  | some (ts, .code word) => some (ts ++ wordTokens word)
  | _ => none

/-! ## Statements -/

inductive Statement where
  | setting (key value : String)
  | node (id : String) (attributes : List (String × String))
  | edge (source target : String) (attributes : List (String × String))
deriving DecidableEq

structure Drawing where
  name : String
  statements : List Statement
deriving DecidableEq

def Token.name? : Token → Option String
  | .word s => some s
  | .quotation s => some s
  | _ => none

def attributes? : List Token → Option (List (String × String))
  | [key, .mark '=', value, .mark ']'] => do
    let k ← key.name?
    let v ← value.name?
    pure [(k, v)]
  | key :: .mark '=' :: value :: .mark ',' :: rest => do
    let k ← key.name?
    let v ← value.name?
    let more ← attributes? rest
    pure ((k, v) :: more)
  | _ => none

def statement? : List Token → Option Statement
  | [key, .mark '=', value] => do
    let k ← key.name?
    let v ← value.name?
    pure (.setting k v)
  | id :: .mark '[' :: rest => do
    let n ← id.name?
    let attributes ← attributes? rest
    pure (.node n attributes)
  | source :: .arrow :: target :: .mark '[' :: rest => do
    let s ← source.name?
    let t ← target.name?
    let attributes ← attributes? rest
    pure (.edge s t attributes)
  | _ => none

/-- The statements up to the closing brace at the end, each up to its semicolon; what has been read of
the first one is in reverse. -/
def statementsFrom (current : List Token) : List Token → Option (List Statement)
  | [] => none
  | t :: rest =>
    if t = .mark ';' then do
      let first ← statement? current.reverse
      let more ← statementsFrom [] rest
      pure (first :: more)
    else if t = .mark '}' ∧ rest = [] then if current.isEmpty then some [] else none
    else statementsFrom (t :: current) rest

def read (text : String) : Option Drawing :=
  match tokens text with
  | some (.word kind :: .word name :: .mark '{' :: rest) =>
    if kind = "digraph" then (statementsFrom [] rest).map fun statements => ⟨name, statements⟩
    else none
  | _ => none

/-! ## Tokens of written texts -/

theorem run_append {m m' m'' : Mode} {cs cs' : List Char} {ts ts' : List Token}
    (h : run m cs = some (ts, m')) (h' : run m' cs' = some (ts', m'')) :
    run m (cs ++ cs') = some (ts ++ ts', m'') := by
  induction cs generalizing m ts with
  | nil =>
    obtain ⟨rfl, rfl⟩ : [] = ts ∧ m = m' := by simpa [run] using h
    exact h'
  | cons c cs ih =>
    rw [run] at h
    rw [List.cons_append, run]
    cases hstep : step m c with
    | none => simp [hstep] at h
    | some made =>
      obtain ⟨us, next⟩ := made
      simp only [hstep, Option.map_eq_some_iff, Prod.mk.injEq, Prod.exists] at h ⊢
      obtain ⟨vs, last, hrun, rfl, rfl⟩ := h
      exact ⟨vs ++ ts', m'', ih hrun, by simp, rfl⟩

/-- What is escaped comes back as it was. -/
theorem run_escape (cs soFar : List Char) :
    run (.quoted soFar) (escape cs) = some ([], .quoted (cs.reverse ++ soFar)) := by
  induction cs generalizing soFar with
  | nil => rfl
  | cons c cs ih =>
    have hcons : escape (c :: cs) = (if c == '\\' || c == '"' then ['\\', c] else [c]) ++ escape cs :=
      List.flatMap_cons
    have hrest := ih (c :: soFar)
    have hchar : run (.quoted soFar) (if c == '\\' || c == '"' then ['\\', c] else [c]) =
        some ([], .quoted (c :: soFar)) := by
      by_cases hc : (c == '\\' || c == '"') = true
      · simp [run, step, hc]
      · have hc' : c ≠ '\\' ∧ c ≠ '"' := by simpa using hc
        simp [run, step, hc']
    rw [hcons]
    simpa using run_append hchar hrest

theorem run_quoted (s : String) :
    run (.code []) (quoted s).toList = some ([.quotation s], .code []) := by
  have hopen : run (.code []) ['"'] = some ([], .quoted []) := by decide
  have hclose : run (.quoted (s.toList.reverse ++ [])) ['"'] = some ([.quotation s], .code []) := by
    simp [run, step]
  have hchars : (quoted s).toList = ['"'] ++ (escape s.toList ++ ['"']) := by simp [quoted]
  rw [hchars]
  simpa using run_append hopen (run_append (run_escape s.toList []) hclose)

/-! ## Attributes -/

theorem Token.ne_mark {t : Token} {s : String} (h : t.name? = some s) (c : Char) : t ≠ .mark c := by
  intro heq
  rw [heq] at h
  cases h

def Spells (text : String) (a : String × String) : Prop :=
  ∃ ts word key value, run (.code []) text.toList = some (ts, .code word) ∧
    ts ++ wordTokens word = [key, .mark '=', value] ∧ key.name? = some a.1 ∧ value.name? = some a.2

theorem spells_quoted {lead key : String}
    (h : run (.code []) lead.toList = some ([.word key, .mark '='], .code [])) (s : String) :
    Spells (lead ++ quoted s) (key, s) := by
  refine ⟨[.word key, .mark '=', .quotation s], [], .word key, .quotation s, ?_, rfl, rfl, rfl⟩
  simpa using run_append h (run_quoted s)

theorem spells_label (s : String) : Spells (label s) ("label", s) :=
  spells_quoted (by decide) s

theorem spells_tooltip (s : String) : Spells ("tooltip=" ++ quoted s) ("tooltip", s) :=
  spells_quoted (by decide) s

theorem spells_box : Spells "shape=box" ("shape", "box") :=
  ⟨[.word "shape", .mark '='], "box".toList.reverse, .word "shape", .word "box", by decide, by decide,
    rfl, rfl⟩

theorem spells_dashed : Spells "style=dashed" ("style", "dashed") :=
  ⟨[.word "style", .mark '='], "dashed".toList.reverse, .word "style", .word "dashed", by decide,
    by decide, rfl, rfl⟩

/-- A mark behind an attribute ends the word that may stand last in it. -/
theorem Spells.run_mark {text : String} {a : String × String} (h : Spells text a) {c : Char}
    (hc : c = ',' ∨ c = ']') : ∃ key value, key.name? = some a.1 ∧ value.name? = some a.2 ∧
      run (.code []) (text.toList ++ [c]) = some ([key, .mark '=', value, .mark c], .code []) := by
  obtain ⟨ts, word, key, value, hrun, htokens, hkey, hvalue⟩ := h
  refine ⟨key, value, hkey, hvalue, ?_⟩
  have hmark : run (.code word) [c] = some (wordTokens word ++ [.mark c], .code []) := by
    rcases hc with rfl | rfl
    · simp [run, step, isWordChar]
    · simp [run, step, isWordChar]
  have hall := run_append hrun hmark
  rw [← List.append_assoc, htokens] at hall
  simpa using hall

/-- The end of a statement, from the first attribute on. -/
theorem run_attributes {first : String} {a : String × String} (h : Spells first a)
    {texts : List String} {as : List (String × String)} (hs : List.Forall₂ Spells texts as) :
    ∃ ts, run (.code []) ((", ".intercalate (first :: texts)).toList ++ [']', ';']) =
        some (ts ++ [.mark ';'], .code []) ∧ .mark ';' ∉ ts ∧ attributes? ts = some (a :: as) := by
  rw [toList_intercalate_cons]
  induction hs generalizing first a with
  | nil =>
    obtain ⟨key, value, hkey, hvalue, hrun⟩ := h.run_mark (.inr rfl)
    refine ⟨[key, .mark '=', value, .mark ']'], ?_, ?_, ?_⟩
    · have hend : run (.code []) [';'] = some ([.mark ';'], .code []) := by decide
      simpa using run_append hrun hend
    · simp [(Token.ne_mark hkey ';').symm, (Token.ne_mark hvalue ';').symm]
    · simp [attributes?, hkey, hvalue]
  | @cons second b texts as hsecond _ ih =>
    obtain ⟨key, value, hkey, hvalue, hrun⟩ := h.run_mark (.inl rfl)
    obtain ⟨ts, hts, hmark, hattributes⟩ := ih hsecond
    refine ⟨key :: .mark '=' :: value :: .mark ',' :: ts, ?_, ?_, ?_⟩
    · have hspace : run (.code []) [' '] = some ([], .code []) := by decide
      simpa using run_append hrun (run_append hspace hts)
    · simp [(Token.ne_mark hkey ';').symm, (Token.ne_mark hvalue ';').symm, hmark]
    · simp [attributes?, hkey, hvalue, hattributes]

/-! ## Lines -/

def Writes (line : String) (s : Statement) : Prop :=
  ∃ ts, run (.code []) line.toList = some (ts ++ [.mark ';'], .code []) ∧ .mark ';' ∉ ts ∧
    statement? ts = some s

theorem writes_header : Writes "  rankdir=LR;" (.setting "rankdir" "LR") :=
  ⟨[.word "rankdir", .mark '=', .word "LR"], by decide, by decide, rfl⟩

theorem run_indent : run (.code []) [' ', ' '] = some ([], .code []) := by
  decide

theorem run_bracket : run (.code []) [' ', '['] = some ([.mark '['], .code []) := by
  decide

section
variable {first : String} {a : String × String} (h : Spells first a) {texts : List String}
  {as : List (String × String)} (hs : List.Forall₂ Spells texts as)
include h hs

theorem writes_node (id : String) :
    Writes (statement (quoted id) (first :: texts)) (.node id (a :: as)) := by
  obtain ⟨ts, hts, hmark, hattributes⟩ := run_attributes h hs
  refine ⟨.quotation id :: .mark '[' :: ts, ?_, by simp [hmark], ?_⟩
  · simpa [statement] using
      run_append run_indent (run_append (run_quoted id) (run_append run_bracket hts))
  · simp [statement?, Token.name?, hattributes]

theorem writes_edge (source target : String) :
    Writes (statement (quoted source ++ " -> " ++ quoted target) (first :: texts))
      (.edge source target (a :: as)) := by
  obtain ⟨ts, hts, hmark, hattributes⟩ := run_attributes h hs
  refine ⟨.quotation source :: .arrow :: .quotation target :: .mark '[' :: ts, ?_,
    by simp [hmark], ?_⟩
  · have harrow : run (.code []) [' ', '-', '>', ' '] = some ([.arrow], .code []) := by decide
    simpa [statement] using run_append run_indent (run_append (run_quoted source)
      (run_append harrow (run_append (run_quoted target) (run_append run_bracket hts))))
  · simp [statement?, Token.name?, hattributes]

end

/-! ## Drawings -/

theorem statementsFrom_statement {ts : List Token} (h : .mark ';' ∉ ts) (current rest : List Token)
    (s : Statement) (hs : statement? (current.reverse ++ ts) = some s) :
    statementsFrom current (ts ++ .mark ';' :: rest) = (statementsFrom [] rest).map (s :: ·) := by
  induction ts generalizing current with
  | nil =>
    have hs : statement? current.reverse = some s := by simpa using hs
    cases hrest : statementsFrom [] rest with
    | none => simp [statementsFrom, hs, hrest]
    | some more => simp [statementsFrom, hs, hrest]
  | cons t ts ih =>
    have ht : t ≠ .mark ';' := by
      intro heq
      simp [heq] at h
    rw [List.cons_append, statementsFrom, if_neg ht, if_neg (by simp)]
    apply ih
    · intro hmem
      exact h (List.mem_cons_of_mem _ hmem)
    · simpa using hs

/-- Lines behind newlines, up to the closing brace. -/
theorem run_lines {lines : List String} {statements : List Statement}
    (h : List.Forall₂ Writes lines statements) :
    ∃ ts, run (.code []) ((lines ++ ["\x7d"]).flatMap fun s => "\n".toList ++ s.toList) =
        some (ts, .code []) ∧
      statementsFrom [] ts = some statements := by
  induction h with
  | nil => exact ⟨[.mark '}'], by decide, by decide⟩
  | @cons line s lines statements hline _ ih =>
    obtain ⟨ts, hts, hmark, hs⟩ := hline
    obtain ⟨more, hmore, hstatements⟩ := ih
    refine ⟨ts ++ .mark ';' :: more, ?_, ?_⟩
    · have hnewline : run (.code []) "\n".toList = some ([], .code []) := by decide
      simpa using run_append hnewline (run_append hts hmore)
    · rw [statementsFrom_statement hmark [] more s hs, hstatements]
      rfl

theorem read_lines {name : String} {lines : List String} {statements : List Statement}
    (hname : run (.code []) ("digraph " ++ name ++ " \x7b").toList =
      some ([.word "digraph", .word name, .mark '{'], .code []))
    (h : List.Forall₂ Writes lines statements) :
    read ("\n".intercalate (("digraph " ++ name ++ " \x7b") :: (lines ++ ["\x7d"]))) =
      some ⟨name, statements⟩ := by
  obtain ⟨ts, hts, hstatements⟩ := run_lines h
  have hrun := run_append hname hts
  simp only [read, tokens, toList_intercalate_cons, hrun]
  simp [wordTokens, hstatements]

/-! ### What the statements of a drawing say -/

def nodeOfFile (n : FileNode) : Statement :=
  .node n.id (("label", n.label) :: if n.kind = "directory" then [("shape", "box")] else [])

def nodeOfFunction (withFiles : Bool) (n : FunctionNode) : Statement :=
  .node n.id (("label", n.label) :: if withFiles then [("tooltip", n.filePath)] else [])

def edgeBetween (e : Edge) : Statement :=
  .edge e.source e.target
    (("label", e.kind) :: if e.provenance = .llm then [("style", "dashed")] else [])

/-- A node for each node, then an edge for each edge between ids of nodes. -/
def statementsOf {ν : Type} (id : ν → String) (node : ν → Statement) (g : Graph ν) : List Statement :=
  g.nodes.map node ++
    (g.edges.filter fun e =>
      decide ((∃ n ∈ g.nodes, id n = e.source) ∧ ∃ n ∈ g.nodes, id n = e.target)).map edgeBetween

def drawingOf (r : Report) : View → Drawing
  | .files => ⟨"RepoFiles", .setting "rankdir" "LR" :: statementsOf FileNode.id nodeOfFile r.files⟩
  | .functions withFiles =>
    ⟨"RepoFunctions", .setting "rankdir" "LR" ::
      statementsOf FunctionNode.id (nodeOfFunction withFiles) r.functions⟩

theorem writes_file (n : FileNode) : Writes (fileStatement n) (nodeOfFile n) := by
  apply writes_node (spells_label n.label)
  by_cases hkind : n.kind = "directory"
  · simp [hkind, spells_box]
  · simp [hkind]

theorem writes_function (withFiles : Bool) (n : FunctionNode) :
    Writes (functionStatement withFiles n) (nodeOfFunction withFiles n) := by
  apply writes_node (spells_label n.label)
  cases withFiles with
  | true => simp [spells_tooltip]
  | false => simp

theorem writes_edgeStatement (e : Edge) : Writes (edgeStatement e) (edgeBetween e) := by
  apply writes_edge (spells_label e.kind)
  by_cases hllm : e.provenance = .llm
  · simp [hllm, spells_dashed]
  · simp [hllm]

theorem forall₂_writes {α : Type} {line : α → String} {s : α → Statement}
    (h : ∀ a, Writes (line a) (s a)) (xs : List α) : List.Forall₂ Writes (xs.map line) (xs.map s) := by
  rw [List.forall₂_map_left_iff, List.forall₂_map_right_iff, List.forall₂_same]
  intro x _
  exact h x

theorem drawn_eq {ν : Type} (id : ν → String) (g : Graph ν) : drawn (g.nodes.map id) g.edges =
    g.edges.filter fun e =>
      decide ((∃ n ∈ g.nodes, id n = e.source) ∧ ∃ n ∈ g.nodes, id n = e.target) := by
  apply List.filter_congr
  intro e _
  simp

theorem read_graph {ν : Type} {name : String} {id : ν → String} {line : ν → String}
    {node : ν → Statement}
    (hname : run (.code []) ("digraph " ++ name ++ " \x7b").toList =
      some ([.word "digraph", .word name, .mark '{'], .code []))
    (hnode : ∀ n, Writes (line n) (node n)) (g : Graph ν) :
    read (lines name (g.nodes.map line) (drawn (g.nodes.map id) g.edges)) =
      some ⟨name, .setting "rankdir" "LR" :: statementsOf id node g⟩ := by
  have hall : List.Forall₂ Writes
      ("  rankdir=LR;" :: (g.nodes.map line ++ (drawn (g.nodes.map id) g.edges).map edgeStatement))
      (.setting "rankdir" "LR" :: statementsOf id node g) := by
    apply List.Forall₂.cons writes_header
    rw [drawn_eq]
    exact List.rel_append (forall₂_writes hnode _) (forall₂_writes writes_edgeStatement _)
  simpa [lines] using read_lines hname hall

/-- The text of a drawing is read back as the statements of its graph and nothing else: the nodes in
order, each with its id and label, then the edges between them in order, each with its ends and kind,
and dashed exactly if a model has proposed it. -/
theorem read_dotText (r : Report) (view : View) : read (r.dotText view) = some (drawingOf r view) := by
  cases view with
  | files => exact read_graph (by decide) writes_file r.files
  | functions withFiles => exact read_graph (by decide) (writes_function withFiles) r.functions

end Dot

end CodeAtlas
