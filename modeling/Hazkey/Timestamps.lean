import Hazkey.ProjectDictionary

/-! The timestamps of a snapshot: how they are read byte by byte, and which date-times they
write. A read past the end of the bytes ends the process, and is none here. -/

namespace Hazkey

namespace GrimodexProtocolLimits

def timestampBytes : Nat := 64

end GrimodexProtocolLimits

namespace GrimodexProtocolValidator

/-- The conditions of a guard, up to the first that fails. -/
def guards : List (Option Bool) → Option Bool
  | [] => some true
  | condition :: conditions => condition.bind fun holds =>
    if holds then guards conditions else some false

def byteIs (bytes : Data) (index : Nat) (value : UInt8) : Option Bool :=
  bytes[index]?.map (· == value)

/-- The loop over a range of so many indices. -/
def allDigits (bytes : Data) (index : Nat) : Nat → Option Bool
  | 0 => some true
  | count + 1 => bytes[index]?.bind fun byte =>
    if isASCIIDigit byte then allDigits bytes (index + 1) count else some false

def digits (bytes : Data) (lower upper : Nat) : Option Bool :=
  allDigits bytes lower (upper - lower)

/-- The difference of two bytes is not negative. -/
def digitValue (byte : UInt8) : Option Nat :=
  if 0x30 ≤ byte.toNat then some (byte.toNat - 0x30) else none

def accumulate (bytes : Data) (index result : Nat) : Nat → Option Nat
  | 0 => some result
  | count + 1 => (bytes[index]?.bind digitValue).bind fun digit =>
    accumulate bytes (index + 1) (result * 10 + digit) count

def number (bytes : Data) (lower upper : Nat) : Option (Option Nat) :=
  (digits bytes lower upper).bind fun valid =>
    if valid then (accumulate bytes lower 0 (upper - lower)).map some else some none

def daysInMonth (year month : Nat) : Nat :=
  if month = 2 then
    if year % 4 = 0 ∧ (year % 100 ≠ 0 ∨ year % 400 = 0) then 29 else 28
  else if month = 4 ∨ month = 6 ∨ month = 9 ∨ month = 11 then 30
  else 31

/-- The loop over the digits of a fraction, with the count of the bytes that are left. -/
def fractionEnd (bytes : Data) (zoneIndex : Nat) : Nat → Option Nat
  | 0 => some zoneIndex
  | count + 1 => bytes[zoneIndex]?.bind fun byte =>
    if isASCIIDigit byte then fractionEnd bytes (zoneIndex + 1) count else some zoneIndex

/-- Where the zone begins, if the fraction has one to nine digits. -/
def afterFraction (bytes : Data) (zoneIndex : Nat) : Option (Option Nat) :=
  bytes[zoneIndex]?.bind fun byte =>
    if byte = 0x2E then
      (fractionEnd bytes (zoneIndex + 1) (bytes.length - (zoneIndex + 1))).map fun index =>
        if 1 ≤ index - (zoneIndex + 1) ∧ index - (zoneIndex + 1) ≤ 9 then some index else none
    else some (some zoneIndex)

/-- The number is unwrapped by force. -/
def numberAtMost (bytes : Data) (lower upper bound : Nat) : Option Bool :=
  ((number bytes lower upper).bind id).map fun value => decide (value ≤ bound)

def zone (bytes : Data) (zoneIndex : Nat) : Option Bool :=
  (guards [some (zoneIndex < bytes.length), byteIs bytes zoneIndex 0x5A]).bind fun isUTC =>
    if isUTC then some (zoneIndex + 1 = bytes.length)
    else guards
      [some (zoneIndex + 6 = bytes.length),
        (byteIs bytes zoneIndex 0x2B).bind fun isPlus =>
          if isPlus then some true else byteIs bytes zoneIndex 0x2D,
        byteIs bytes (zoneIndex + 3) 0x3A,
        digits bytes (zoneIndex + 1) (zoneIndex + 3),
        digits bytes (zoneIndex + 4) (zoneIndex + 6),
        numberAtMost bytes (zoneIndex + 1) (zoneIndex + 3) 23,
        numberAtMost bytes (zoneIndex + 4) (zoneIndex + 6) 59]

/-- The guard on a number that is there, and on its value. -/
def withNumber (bytes : Data) (lower upper : Nat) (body : Nat → Option Bool) : Option Bool :=
  (number bytes lower upper).bind fun value => value.elim (some false) body

def date (bytes : Data) : Option Bool :=
  withNumber bytes 0 4 fun year => withNumber bytes 5 7 fun month =>
    withNumber bytes 8 10 fun day => withNumber bytes 11 13 fun hour =>
      withNumber bytes 14 16 fun minute => withNumber bytes 17 19 fun second =>
        guards [some (1 ≤ month && month ≤ 12), some (hour ≤ 23), some (minute ≤ 59),
          some (second ≤ 59), some (1 ≤ day && day ≤ daysInMonth year month)]

def fields (scalars : Nat) (bytes : Data) : Option Bool :=
  guards
    [some (scalars = bytes.length), some (20 ≤ bytes.length),
      some (bytes.length ≤ GrimodexProtocolLimits.timestampBytes),
      byteIs bytes 4 0x2D, byteIs bytes 7 0x2D, byteIs bytes 10 0x54, byteIs bytes 13 0x3A,
      byteIs bytes 16 0x3A, digits bytes 0 4, digits bytes 5 7, digits bytes 8 10,
      digits bytes 11 13, digits bytes 14 16, digits bytes 17 19]

/-- The scalars are counted to see that all of them are ASCII. -/
def validTimestampBytes (scalars : Nat) (bytes : Data) : Option Bool :=
  (fields scalars bytes).bind fun holds =>
    if holds then (afterFraction bytes 19).bind fun zoneIndex =>
      zoneIndex.elim (some false) fun zoneIndex =>
        (zone bytes zoneIndex).bind fun holds => if holds then date bytes else some false
    else some false

def validTimestamp (value : Text) : Option Bool := validTimestampBytes value.length (utf8 value)

end GrimodexProtocolValidator

end Hazkey
