/-! Moments as text, in the form `2024-02-29T12:34:56.789` that standards call RFC 3339, without the
mark of the time zone. -/

namespace CrowdPad.Timestamp

/-- Digits in front of which zeros stand up to the given width. -/
def padded (width n : Nat) : String :=
  let digits := toString n
  String.ofList (List.replicate (width - digits.length) '0') ++ digits

/-- Year, month and day of a day counted from 1 March of year 0, whose years end with February. -/
def civil (day : Nat) : Nat × Nat × Nat :=
  let era := day / 146097
  let dayOfEra := day % 146097
  let yearOfEra := (dayOfEra - dayOfEra / 1460 + dayOfEra / 36524 - dayOfEra / 146096) / 365
  let dayOfYear := dayOfEra - (365 * yearOfEra + yearOfEra / 4 - yearOfEra / 100)
  let month := (5 * dayOfYear + 2) / 153
  let day := dayOfYear - (153 * month + 2) / 5 + 1
  let year := yearOfEra + era * 400
  if month < 10 then (year, month + 3, day) else (year + 1, month - 9, day)

/-- The days from 1 March of year 0 to the start of 1970. -/
def epochDay : Nat := 719468

/-- A moment given in milliseconds from the start of 1970. -/
def text (ms : Int) : String :=
  let ms := (ms + epochDay * 86400000).toNat
  let (year, month, day) := civil (ms / 86400000)
  let rest := ms % 86400000
  padded 4 year ++ "-" ++ padded 2 month ++ "-" ++ padded 2 day ++ "T" ++
    padded 2 (rest / 3600000) ++ ":" ++ padded 2 (rest / 60000 % 60) ++ ":" ++
    padded 2 (rest / 1000 % 60) ++ "." ++ padded 3 (rest % 1000)

end CrowdPad.Timestamp
