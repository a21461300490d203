/-!
# Dates and times

Days of the calendar in the years 1 to 9999, times of a day to the microsecond, and both together,
with or without their distance from universal time.
-/

namespace CodeAtlas

def paddedNumber (width n : Nat) : String :=
  let digits := toString n
  String.ofList (List.replicate (width - digits.length) '0') ++ digits

structure Date where
  year : Nat
  month : Nat
  day : Nat
deriving DecidableEq, Repr, Inhabited

namespace Date

def isLeap (year : Nat) : Bool :=
  year % 4 == 0 && (year % 100 != 0 || year % 400 == 0)

def monthLength (year month : Nat) : Nat :=
  if month == 2 then if isLeap year then 29 else 28
  else if [4, 6, 9, 11].contains month then 30
  else 31

def of? (year month day : Int) : Option Date :=
  if 1 ≤ year && year ≤ 9999 && 1 ≤ month && month ≤ 12 && 1 ≤ day
      && day ≤ monthLength year.toNat month.toNat then
    some ⟨year.toNat, month.toNat, day.toNat⟩
  else none

def text (d : Date) : String :=
  paddedNumber 4 d.year ++ "-" ++ paddedNumber 2 d.month ++ "-" ++ paddedNumber 2 d.day

end Date

structure TimeOfDay where
  hour : Nat
  minute : Nat
  second : Nat
  microsecond : Nat := 0
deriving DecidableEq, Repr, Inhabited

namespace TimeOfDay

def of? (hour minute second microsecond : Int) : Option TimeOfDay :=
  let below (limit n : Int) : Bool := 0 ≤ n && n < limit
  if below 24 hour && below 60 minute && below 60 second && below 1000000 microsecond then
    some ⟨hour.toNat, minute.toNat, second.toNat, microsecond.toNat⟩
  else none

def text (t : TimeOfDay) : String :=
  paddedNumber 2 t.hour ++ ":" ++ paddedNumber 2 t.minute ++ ":" ++ paddedNumber 2 t.second
    ++ if t.microsecond == 0 then "" else "." ++ paddedNumber 6 t.microsecond

/-- The parts up to the last one that counts; the minute always does. -/
def parts (t : TimeOfDay) : List Nat :=
  [t.hour, t.minute]
    ++ if t.microsecond != 0 then [t.second, t.microsecond]
       else if t.second != 0 then [t.second]
       else []

end TimeOfDay

inductive Moment where
  | date (d : Date)
  | time (t : TimeOfDay)
  /-- A time on a day; the offset is in minutes east of universal time. -/
  | stamp (d : Date) (t : TimeOfDay) (offset : Option Int)
deriving DecidableEq, Repr, Inhabited

namespace Moment

def offsetText (minutes : Int) : String :=
  let size := minutes.natAbs
  (if minutes < 0 then "-" else "+")
    ++ paddedNumber 2 (size / 60) ++ ":" ++ paddedNumber 2 (size % 60)

def textWith (between : String) : Moment → String
  | date d => d.text
  | time t => t.text
  | stamp d t offset => d.text ++ between ++ t.text ++ (offset.map offsetText).getD ""

def display : Moment → String :=
  textWith " "

/-- The text that is kept in a file; universal time has a mark of its own. -/
def written : Moment → String
  | stamp d t (some 0) => textWith "T" (stamp d t none) ++ "Z"
  | m => textWith "T" m

/-- An offset of a day or more has no text. -/
def isWritable : Moment → Bool
  | stamp _ _ (some offset) => offset.natAbs < 1440
  | _ => true

def literal (m : Moment) : String :=
  let call (name : String) (parts : List Nat) : String :=
    name ++ "(" ++ ", ".intercalate (parts.map toString) ++ ")"
  match m with
  | date d => call "datetime.date" [d.year, d.month, d.day]
  | time t => call "datetime.time" t.parts
  | stamp d t _ => call "datetime.datetime" ([d.year, d.month, d.day] ++ t.parts)

end Moment

end CodeAtlas
