import CodeAtlas.Config.Moment
import CodeAtlas.Number.Binary64
import CodeAtlas.Number.Integer

/-!
# Dates and times in a document

Only the digits of a date count, at their places; what stands between them is not looked at. A time
behind a date may have a fraction and an offset, and one that makes no sense is left out.
-/

namespace CodeAtlas.Toml

def numberAt? (start stop : Nat) (text : List Char) : Option Int :=
  Integer.ofText? (String.ofList ((text.take stop).drop start))

def twoDigits? : List Char → Option (Nat × List Char)
  | a :: b :: rest =>
    if a.isDigit && b.isDigit then some (10 * (a.toNat - 48) + (b.toNat - 48), rest) else none
  | _ => none

/-- Hours, minutes, seconds and microseconds at the start of a text. A fraction has three to six
digits, which are the microseconds. -/
def clock? (text : List Char) : Option (Nat × Nat × Nat × Nat) := do
  let (hour, rest) ← twoDigits? text
  let ':' :: rest := rest | none
  let (minute, rest) ← twoDigits? rest
  let ':' :: rest := rest | none
  let (second, rest) ← twoDigits? rest
  let fraction := match rest with
    | '.' :: rest => (rest.take 6).takeWhile Char.isDigit
    | _ => []
  let micro := if fraction.length < 3 then 0 else (Integer.digitsIn? 10 fraction).getD 0
  pure (hour, minute, second, micro)

def offset? (text : List Char) : Option Int := do
  if text == ['Z'] then pure 0
  else
    let hours ← numberAt? 1 3 text
    let minutes ← numberAt? 4 6 text
    let size := 60 * hours + minutes
    pure (if text.head? == some '-' then -size else size)

/-- The microseconds of a fraction with so many places. Beyond six places the number is a double,
times a power of ten. -/
def microseconds? (n : Int) (places : Nat) : Option Int :=
  if places ≤ 6 then some (n * Nat.pow 10 (6 - places))
  else do
    let x ← (Binary64.ofRat n).toRat?
    let unit ← (Binary64.ofQuotient false 1 (Nat.pow 10 (places - 6))).toRat?
    (Binary64.ofRat (x * unit)).truncate?

def splitFraction (text : List Char) : List Char × Option (List Char) :=
  let cut (mark : Char) := (text.takeWhile (· != mark), some (text.dropWhile (· != mark)))
  match text.getLast? with
  | some 'Z' => (text.dropLast, some ['Z'])
  | some 'z' => (text.dropLast, some ['Z'])
  | _ =>
    if text.contains '+' then cut '+'
    else if text.contains '-' then cut '-'
    else (text, none)

def fractionAndOffset (text : List Char) : Int × Option Int :=
  match text with
  | [] => (0, none)
  | '.' :: rest =>
    let (fraction, zone) := splitFraction rest
    let read : Option (Int × Option Int) := do
      let offset ← match zone with
        | some zone => (offset? zone).map some
        | none => pure none
      let n ← Integer.ofText? (String.ofList fraction)
      pure (← microseconds? n fraction.length, offset)
    read.getD (0, none)
  | text => (0, offset? text)

/-- The date that a text spells, with a time unless the text is as long as a date. -/
def date? (text : List Char) : Option Moment := do
  if !(text.drop 1).contains '-' then none
  else
    let year ← numberAt? 0 4 text
    let month ← numberAt? 5 7 text
    let day ← numberAt? 8 10 text
    if text.length == 10 then
      pure (.date (← Date.of? year month day))
    else
      let hour ← numberAt? 11 13 text
      let minute ← numberAt? 14 16 text
      let second ← numberAt? 17 19 text
      let (micro, offset) := fractionAndOffset (text.drop 19)
      pure (.stamp (← Date.of? year month day) (← TimeOfDay.of? hour minute second micro) offset)

end CodeAtlas.Toml
