/-!
# Slash-separated paths

Joining, normalising and taking apart paths, by their characters alone: no file is looked at.
-/

namespace CodeAtlas.Path

def splitChars (isSeparator : Char → Bool) : List Char → List (List Char)
  | [] => [[]]
  | c :: cs =>
    if isSeparator c then [] :: splitChars isSeparator cs
    else match splitChars isSeparator cs with
      | [] => [[c]]
      | run :: runs => (c :: run) :: runs

def segments (path : String) : List String :=
  (splitChars (· == '/') path.toList).map String.ofList

def ofSegments (parts : List String) : String :=
  "/".intercalate parts

def join (base path : String) : String :=
  if path.startsWith "/" then path
  else if base.isEmpty || base.endsWith "/" then base ++ path
  else base ++ "/" ++ path

/-- How many slashes an absolute path keeps in front: two stay two, more become one. -/
def leadingSlashes (path : String) : Nat :=
  match path.toList with
  | '/' :: '/' :: '/' :: _ => 1
  | '/' :: '/' :: _ => 2
  | '/' :: _ => 1
  | _ => 0

def normalStep (absolute : Bool) (before : List String) (part : String) : List String :=
  if part == "" || part == "." then before
  else if part != ".." then part :: before
  else match before with
    | [] => if absolute then [] else [".."]
    | last :: rest => if last == ".." then part :: before else rest

/-- Without empty segments, single dots, and double dots that climb out of a named segment. -/
def normal (path : String) : String :=
  let slashes := leadingSlashes path
  let parts := ((segments path).foldl (normalStep (slashes != 0)) []).reverse
  let text := String.ofList (List.replicate slashes '/') ++ ofSegments parts
  if text.isEmpty then "." else text

def headChars (path : String) : List Char :=
  (path.toList.reverse.dropWhile (· != '/')).reverse

/-- The directory of a path, without slashes at its end unless it has nothing else. -/
def dirname (path : String) : String :=
  let head := headChars path
  if head.all (· == '/') then String.ofList head
  else String.ofList (head.reverse.dropWhile (· == '/')).reverse

/-- A directory is shorter than what lies in it, unless that is made of slashes alone. -/
theorem dirname_eq_or_length_lt (path : String) :
    dirname path = path ∨ (dirname path).length < path.length := by
  have hsplit : headChars path ++ (path.toList.reverse.takeWhile (· != '/')).reverse = path.toList := by
    rw [headChars, ← List.reverse_append, List.takeWhile_append_dropWhile, List.reverse_reverse]
  have hlength := congrArg List.length hsplit
  rw [List.length_append, String.length_toList] at hlength
  unfold dirname
  by_cases hall : (headChars path).all (· == '/') = true
  · simp only [if_pos hall, String.length_ofList]
    by_cases htail : (path.toList.reverse.takeWhile (· != '/')).reverse = []
    · left
      rw [htail, List.append_nil] at hsplit
      rw [hsplit, String.ofList_toList]
    · right
      have := List.length_pos_iff.2 htail
      omega
  · right
    simp only [if_neg hall, String.length_ofList, List.length_reverse]
    -- the last character of the head is a slash, which is dropped
    cases hhead : (headChars path).reverse with
    | nil =>
      rw [List.reverse_eq_nil_iff.1 hhead] at hall
      exact absurd rfl hall
    | cons c cs =>
      have hslash : c = '/' := by
        have := List.head?_dropWhile_not (· != '/') path.toList.reverse
        rw [headChars, List.reverse_reverse] at hhead
        rw [hhead] at this
        simpa using this
      have hcs := congrArg List.length hhead
      rw [List.length_reverse, List.length_cons] at hcs
      have hdrop := (List.dropWhile_suffix (l := cs) (· == '/')).length_le
      rw [List.dropWhile_cons_of_pos (by simp [hslash])]
      omega

def basename (path : String) : String :=
  String.ofList (path.toList.reverse.takeWhile (· != '/')).reverse

/-- From the last dot of the base name on, if anything but dots stands before it. -/
def extension (path : String) : String :=
  let name := (basename path).toList
  let tail := (name.reverse.takeWhile (· != '.')).reverse
  let stem := name.take (name.length - tail.length - 1)
  if name.contains '.' && stem.any (· != '.') then String.ofList ('.' :: tail) else ""

def canonical (path : String) : String :=
  normal (String.ofList (path.toList.map fun c => if c == '\\' then '/' else c))

def dropLeadingSlashes (path : String) : String :=
  String.ofList (path.toList.dropWhile (· == '/'))

end CodeAtlas.Path
