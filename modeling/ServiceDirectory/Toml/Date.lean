import ServiceDirectory.Config.Setting
import ServiceDirectory.Text.Digits

/-! # Dates and times

A date or a time counts as the text of its usual form. In the tree that is read a date is a table
with one entry, its form under the `dateMark`; a table that was written out with the mark as its
first key is a date as well, and its form may go further than that of a date without quotes.
`withDates` puts the texts in place of these tables.
-/

namespace ServiceDirectory.Toml

/-! ## Forms -/

/-- How far an hour goes, and how far the distance from universal time. -/
structure DateLimits where
  hour : Nat
  offsetHours : Nat
  offsetMinutes : Nat
  /-- In minutes. -/
  offset : Nat

def DateLimits.plain : DateLimits := ⟨23, 23, 59, 24 * 60⟩

/-- For the form of a date that is given as a string. -/
def DateLimits.quoted : DateLimits := ⟨24, 99, 99, 24 * 60⟩

def readFixed (count least greatest : Nat) (s : List Char) : Option (Nat × List Char) := do
  let n ← Text.natOfDigits? (s.take count)
  if (s.take count).length = count ∧ least ≤ n ∧ n ≤ greatest then return (n, s.drop count)
  else none

def expect (c : Char) : List Char → Option (List Char)
  | [] => none
  | d :: r => if d = c then some r else none

def isLeap (year : Nat) : Bool := year % 4 == 0 && (year % 100 != 0 || year % 400 == 0)

def daysIn (year month : Nat) : Nat :=
  if month = 2 then (if isLeap year then 29 else 28)
  else if [4, 6, 9, 11].contains month then 30
  else 31

def padded (width n : Nat) : List Char :=
  let ds := Nat.toDigits 10 n
  List.replicate (width - ds.length) '0' ++ ds

def readDate (s : List Char) : Option (List Char × List Char) := do
  let (year, s) ← readFixed 4 0 9999 s
  let (month, s) ← readFixed 2 1 12 (← expect '-' s)
  let (day, s) ← readFixed 2 1 31 (← expect '-' s)
  if day ≤ daysIn year month then
    return (padded 4 year ++ '-' :: (padded 2 month ++ '-' :: padded 2 day), s)
  else none

/-- A fraction of a second: at most nine places count, and zeros at the end do not. -/
def readFraction : List Char → Option (List Char × List Char)
  | '.' :: r =>
    let places := r.takeWhile Char.isDigit
    if places.isEmpty then none
    else
      let kept := ((places.take 9).reverse.dropWhile (· == '0')).reverse
      some (if kept.isEmpty then [] else '.' :: kept, r.dropWhile Char.isDigit)
  | s => some ([], s)

def readTime (l : DateLimits) (s : List Char) : Option (List Char × List Char) := do
  let (hour, s) ← readFixed 2 0 l.hour s
  let (minute, s) ← readFixed 2 0 59 (← expect ':' s)
  let (second, s) ← readFixed 2 0 60 (← expect ':' s)
  let (fraction, s) ← readFraction s
  return (padded 2 hour ++ ':' :: (padded 2 minute ++ ':' :: (padded 2 second ++ fraction)), s)

/-- The form of a distance in minutes. No distance counts as a positive one. -/
def offsetForm (sign : Char) (minutes : Nat) : List Char :=
  (if minutes = 0 then '+' else sign) ::
    (padded 2 (minutes / 60) ++ ':' :: padded 2 (minutes % 60))

def readOffset (l : DateLimits) : List Char → Option (List Char × List Char)
  | [] => some ([], [])
  | c :: r =>
    if c = 'Z' ∨ c = 'z' then some (['Z'], r)
    else if c = '+' ∨ c = '-' then do
      let (hours, r) ← readFixed 2 0 l.offsetHours r
      let (minutes, r) ← readFixed 2 0 l.offsetMinutes (← expect ':' r)
      let offset := hours * 60 + minutes
      if offset ≤ l.offset then return (offsetForm c offset, r) else none
    else none

def moment? (l : DateLimits) (s : List Char) : Option String := do
  let (form, rest) ← match readDate s with
    | none => readTime l s
    | some (date, []) => some (date, [])
    | some (date, c :: r) =>
      if c = 'T' ∨ c = 't' ∨ c = ' ' then do
        let (time, r) ← readTime l r
        let (offset, r) ← readOffset l r
        some (date ++ 'T' :: (time ++ offset), r)
      else none
  if rest.isEmpty then return String.ofList form else none

/-! ## Marked tables -/

def dateMark : String := "$__toml_private_datetime"

def markedDate (form : String) : Setting := .table [(dateMark, .text form)]

def isMarked : List (String × Setting) → Bool
  | [] => false
  | (k, _) :: _ => k == dateMark

/-- The date of a marked table. What follows the mark does not matter. -/
def dateOf? : List (String × Setting) → Option Setting
  | (_, .text form) :: _ => (moment? .quoted form.toList).map .text
  | _ => none

mutual

/-- A setting with the texts of its dates, unless a marked table holds none. -/
def withDates : Setting → Option Setting
  | .table entries =>
    if isMarked entries then dateOf? entries else (entriesWithDates entries).map .table
  | .list items => (itemsWithDates items).map .list
  | leaf => some leaf

def entriesWithDates : List (String × Setting) → Option (List (String × Setting))
  | [] => some []
  | (k, v) :: r => do return (k, ← withDates v) :: (← entriesWithDates r)

def itemsWithDates : List Setting → Option (List Setting)
  | [] => some []
  | v :: r => do return (← withDates v) :: (← itemsWithDates r)

end

end ServiceDirectory.Toml
