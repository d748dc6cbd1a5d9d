import Muduo.Date
import Muduo.Lib.LowerBound
import Muduo.Lib.Outcome
import Muduo.Lib.Word

/-!
# Muduo.TimeZone

`muduo/base/TimeZone.{h,cc}`: UTC from and to broken-down time, time zones that are read
from a file, and local time from and to UTC.

* `toUtcTime`, `fromUtcTime` — with 32-bit and 64-bit integers, an overflow of which is
  undefined;
* `toLocalTime`, `fromLocalTime` — over `gmtime_r` and `timegm` of the C library, which
  are inverse to each other; there the times are mathematical integers.

An access outside of a vector or a string is a `Fault`, as is an array of negative
length.  Memory is unbounded.
-/

namespace Muduo

open Lib Lib.Calendar

/-- The fields of `struct tm` that `gmtime_r` computes. -/
structure BrokenTime where
  tm_sec : Int
  tm_min : Int
  tm_hour : Int
  tm_mday : Int
  tm_mon : Int
  tm_year : Int
  tm_wday : Int
  tm_yday : Int
deriving DecidableEq, Repr

/-- `struct tm`, with the text that `tm_zone` points to. -/
structure Tm extends BrokenTime where
  tm_isdst : Int
  tm_gmtoff : Int
  tm_zone : List UInt8
deriving DecidableEq, Repr

namespace TimeZone

/-! ## UTC -/

def kSecondsPerDay : Int := 24 * 60 * 60

/-- `Date::kJulianDayOf1970_01_01` -/
def kJulianDayOf1970 : Int := (Date.getJulianDayNumber 1970 1 1).getD 0

/-- `fillHMS`: second, minute and hour. -/
def fillHMS (seconds : Nat) : Nat × Nat × Nat :=
  let minutes := seconds / 60
  (seconds % 60, minutes % 60, minutes / 60)

def gmt : List UInt8 := [71, 77, 84]

def toUtcTime (secondsSinceEpoch : Int) (yday : Bool) : Option Tm := do
  let seconds := narrow 32 (secondsSinceEpoch.tmod kSecondsPerDay)
  let days := narrow 32 (secondsSinceEpoch.tdiv kSecondsPerDay)
  let seconds' ← (if seconds < 0 then int32 (seconds + kSecondsPerDay) else some seconds)
  let days' ← (if seconds < 0 then int32 (days - 1) else some days)
  let (sec, min, hour) := fillHMS (seconds' % 2 ^ 32).toNat
  let date ← int32 (days' + kJulianDayOf1970)
  let ymd ← Date.getYearMonthDay date
  let year ← int32 (ymd.year - 1900)
  let mon ← int32 (ymd.month - 1)
  let wday ← Date.weekDay date
  let dayOfYear ← (if yday then do int32 (date - (← Date.getJulianDayNumber ymd.year 1 1))
    else some 0)
  return ⟨⟨sec, min, hour, ymd.day, mon, year, wday, dayOfYear⟩, 0, 0, gmt⟩

/-- `fromUtcTime(int year, int month, ...)` -/
def fromUtcTimeFields (year month day hour minute seconds : Int) : Option Int := do
  let date ← Date.getJulianDayNumber year month day
  let secondsInDay ← int32 ((← int32 ((← int32 (hour * 3600)) + (← int32 (minute * 60)))) + seconds)
  let days ← int32 (date - kJulianDayOf1970)
  exact 64 ((← exact 64 (days * kSecondsPerDay)) + secondsInDay)

def fromUtcTime (utc : BrokenTime) : Option Int := do
  fromUtcTimeFields (← int32 (utc.tm_year + 1900)) (← int32 (utc.tm_mon + 1)) utc.tm_mday utc.tm_hour
    utc.tm_min utc.tm_sec

/-! ## the data of a zone -/

structure Transition where
  gmttime : Int
  localtime : Int
  localtimeIdx : Int
deriving DecidableEq, Repr

structure Localtime where
  gmtOffset : Int
  isDst : Bool
  arrbIdx : Int
deriving DecidableEq, Repr

structure Data where
  transitions : List Transition
  localtimes : List Localtime
  abbreviation : List UInt8
deriving DecidableEq, Repr

def Data.empty : Data := ⟨[], [], []⟩

inductive Fault
  /-- `assert(data_ != NULL)` -/
  | dataNull
  /-- `assert(transI != data.transitions.begin())` -/
  | transBegin
  /-- an access outside of a vector or a string -/
  | access
  /-- `char buf[n]` with a negative `n` -/
  | negativeLength
deriving DecidableEq, Repr

/-- `v[i]` of a vector. -/
def element {α : Type} (v : List α) (i : Int) : Except Fault α :=
  match v[i.toNat]? with
  | some x => if 0 ≤ i then .ok x else .error .access
  | none => .error .access

/-! ## `readTimeZoneFile` -/

/-- What is thrown, and printed by the handler. -/
inductive LogicError
  /-- `no enough data` -/
  | noEnoughData
  /-- `bad int32_t data` -/
  | badInt32
  /-- `bad uint8_t data` -/
  | badUInt8
  /-- `bad head` -/
  | badHead
  /-- `std::length_error` of `trans.reserve(timecnt)` -/
  | lengthError
deriving DecidableEq, Repr

/-- `File::readBytes`, for an `n` that is not negative. -/
def takeBytes (n : Nat) (file : List UInt8) : Except LogicError (List UInt8 × List UInt8) :=
  if n ≤ file.length then .ok (file.take n, file.drop n) else .error .noEnoughData

def readInt32 (file : List UInt8) : Except LogicError (Int × List UInt8) :=
  if 4 ≤ file.length then .ok (intOfSize (beValue (file.take 4)), file.drop 4)
  else .error .badInt32

def readUInt8 : List UInt8 → Except LogicError (UInt8 × List UInt8)
  | x :: file => .ok (x, file)
  | [] => .error .badUInt8

/-- A loop of `n` calls of `read`. -/
def readAll {α : Type} (read : List UInt8 → Except LogicError (α × List UInt8)) :
    Nat → List UInt8 → Except LogicError (List α × List UInt8)
  | 0, file => .ok ([], file)
  | n + 1, file => do
    let (x, file) ← read file
    let (xs, file) ← readAll read n file
    return (x :: xs, file)

/-- The counts of the header.  `isgmtcnt`, `isstdcnt` and `leapcnt` are not used. -/
structure Counts where
  timecnt : Int
  typecnt : Int
  charcnt : Int

def readCounts (file : List UInt8) : Except LogicError (Counts × List UInt8) := do
  let (_, file) ← takeBytes 1 file
  let (_, file) ← takeBytes 15 file
  let (_, file) ← readInt32 file
  let (_, file) ← readInt32 file
  let (_, file) ← readInt32 file
  let (timecnt, file) ← readInt32 file
  let (typecnt, file) ← readInt32 file
  let (charcnt, file) ← readInt32 file
  return (⟨timecnt, typecnt, charcnt⟩, file)

/-- What is read before anything is put into `data`. -/
structure Head extends Counts where
  trans : List Int
  localtimes : List UInt8

def tzif : List UInt8 := [84, 90, 105, 102]

def readHead (file : List UInt8) : Except LogicError (Head × List UInt8) := do
  let (head, file) ← takeBytes 4 file
  check .badHead (head = tzif)
  let (counts, file) ← readCounts file
  check .lengthError (0 ≤ counts.timecnt)
  let (times, file) ← readAll readInt32 counts.timecnt.toNat file
  let (localtimes, file) ← readAll readUInt8 counts.timecnt.toNat file
  return (⟨counts, times, localtimes⟩, file)

def readLocaltime (file : List UInt8) : Except LogicError (Localtime × List UInt8) := do
  let (gmtoff, file) ← readInt32 file
  let (isdst, file) ← readUInt8 file
  let (abbrind, file) ← readUInt8 file
  return (⟨gmtoff, isdst ≠ 0, abbrind.toNat⟩, file)

/-- The loop over the types keeps in `data` what it has read before it throws. -/
def readLocaltimes : Nat → List UInt8 → List Localtime × Except LogicError (List UInt8)
  | 0, file => ([], .ok file)
  | n + 1, file => match readLocaltime file with
    | .error e => ([], .error e)
    | .ok (l, file) => (l :: (readLocaltimes n file).1, (readLocaltimes n file).2)

def makeTransition (localtimes : List Localtime) (x : Int × UInt8) : Except Fault Transition := do
  let l ← element localtimes x.2.toNat
  return ⟨x.1, x.1 + l.gmtOffset, x.2.toNat⟩

/-- The last two parts: the transitions are made, and the names are read. -/
def readNames (head : Head) (localtimes : List Localtime) (file : List UInt8) :
    Except Fault (Data × Option LogicError) := do
  let transitions ← (head.trans.zip head.localtimes).mapM (makeTransition localtimes)
  check .negativeLength (0 ≤ head.charcnt)
  match takeBytes head.charcnt.toNat file with
  | .error e => return (⟨transitions, localtimes, []⟩, some e)
  | .ok (abbreviation, _) => return (⟨transitions, localtimes, abbreviation⟩, none)

/-- The data, and what was thrown.  The function returns `true` in any case. -/
def readTimeZoneFile (file : Option (List UInt8)) : Except Fault (Data × Option LogicError) :=
  match file with
  | none => .ok (.empty, none)
  | some file => match readHead file with
    | .error e => .ok (.empty, some e)
    | .ok (head, file) =>
      let localtimes := (readLocaltimes head.typecnt.toNat file).1
      match (readLocaltimes head.typecnt.toNat file).2 with
      | .error e => .ok (⟨[], localtimes, []⟩, some e)
      | .ok file => readNames head localtimes file

/-! ## `findLocaltime` -/

/-- `Comp(compareGmt)` -/
def Transition.key (compareGmt : Bool) (x : Transition) : Int :=
  if compareGmt then x.gmttime else x.localtime

def findLocaltime (data : Data) (sentry : Transition) (compareGmt : Bool) : Except Fault Localtime :=
  let key := Transition.key compareGmt
  match data.transitions with
  | [] => element data.localtimes 0
  | front :: _ =>
    if key sentry < key front then element data.localtimes 0
    else
      let transI := lowerBound (fun x => key x < key sentry) data.transitions
      match data.transitions[transI]? with
      | some x =>
        if key sentry = key x then element data.localtimes x.localtimeIdx
        else do
          check .transBegin (transI ≠ 0)
          let x ← element data.transitions (transI - 1 : Nat)
          element data.localtimes x.localtimeIdx
      | none => do
        let x ← element data.transitions (data.transitions.length - 1 : Nat)
        element data.localtimes x.localtimeIdx

end TimeZone

/-- `gmtime_r` and `timegm` of the C library. -/
structure Libc where
  gmtime_r : Int → BrokenTime
  timegm : BrokenTime → Int
  timegm_gmtime_r : ∀ seconds, timegm (gmtime_r seconds) = seconds

/-- `data` is null in a zone that is not valid. -/
structure TimeZone where
  data : Option TimeZone.Data

namespace TimeZone

def valid (tz : TimeZone) : Bool := tz.data.isSome

/-- `TimeZone(const char* zonefile)` -/
def ofFile (file : Option (List UInt8)) : Except Fault TimeZone := do
  let (data, _) ← readTimeZoneFile file
  return ⟨some data⟩

/-- `TimeZone(int eastOfUtc, const char* name)` -/
def ofOffset (eastOfUtc : Int) (name : List UInt8) : TimeZone :=
  ⟨some ⟨[], [⟨eastOfUtc, false, 0⟩], name⟩⟩

/-- `&s[i]` of a string, whose `s[s.size()]` is the NUL behind it. -/
def cString (s : List UInt8) (i : Int) : Except Fault (List UInt8) := do
  check .access (0 ≤ i ∧ i ≤ s.length)
  return (s.drop i.toNat).takeWhile (· ≠ 0)

def toLocalTime (libc : Libc) (tz : TimeZone) (seconds : Int) : Except Fault Tm :=
  match tz.data with
  | none => .error .dataNull
  | some data => do
    let l ← findLocaltime data ⟨seconds, 0, 0⟩ true
    let localSeconds := seconds + l.gmtOffset
    let zone ← cString data.abbreviation l.arrbIdx
    return ⟨libc.gmtime_r localSeconds, if l.isDst then 1 else 0, l.gmtOffset, zone⟩

def fromLocalTime (libc : Libc) (tz : TimeZone) (localTm : Tm) : Except Fault Int :=
  match tz.data with
  | none => .error .dataNull
  | some data => do
    let seconds := libc.timegm localTm.toBrokenTime
    let l ← findLocaltime data ⟨0, seconds, 0⟩ false
    if localTm.tm_isdst ≠ 0 then
      let tryTm ← tz.toLocalTime libc (seconds - l.gmtOffset)
      if tryTm.tm_isdst = 0 ∧ tryTm.tm_hour = localTm.tm_hour ∧ tryTm.tm_min = localTm.tm_min then
        return seconds - 3600 - l.gmtOffset
      else return seconds - l.gmtOffset
    else return seconds - l.gmtOffset

end TimeZone

end Muduo
