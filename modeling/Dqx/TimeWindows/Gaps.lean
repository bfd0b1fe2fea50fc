import Dqx.Lib.Join
import Dqx.Lib.SqlValue
import Dqx.Lib.Successor

/-! The check for gaps in a time series: rows are put into windows, and the last row before a window
without rows is reported. -/

namespace Dqx.TimeWindows

open Lib Lib.Sql

/-- Microseconds. -/
def second : Int := 1000000

/-- The settings of the check. The sentinel is 1900-01-01 00:00:00 in the time zone of the session,
and `castString` writes a timestamp. -/
structure Settings where
  windowMinutes : Nat
  trailingGap : Bool
  currTimestamp : Int
  sentinel : Int
  castString : Int → String

namespace Settings

variable (s : Settings)

def windowLength : Int := s.windowMinutes * 60 * second

/-- The start of the window of a timestamp; windows are aligned with the epoch. -/
def windowStart (timestamp : Int) : Int := timestamp - timestamp % s.windowLength

end Settings

/-- `unix_timestamp` -/
def unixTimestamp (timestamp : Int) : Int := timestamp / second

/-- What is known of an occupied window of a group. -/
structure Gap (κ : Type) where
  group : κ
  windowStart : Int
  nextWindowStart : Option Int
  isTrailing : Bool
  condition : Bool
  deriving DecidableEq, Repr

section Apply

variable {ρ κ : Type} [DecidableEq κ] (s : Settings) (timestamp : ρ → Option Int) (group : ρ → κ)

/-- The window of a row: that of the sentinel, if the timestamp is null. -/
def windowOf (row : ρ) : Int := s.windowStart ((timestamp row).getD s.sentinel)

/-- The occupied windows of the groups. -/
def distinctWindows (rows : List ρ) : List (κ × Int) :=
  ((rows.filter fun row => (timestamp row).isSome).map fun row =>
    (group row, windowOf s timestamp row)).dedup

/-- One occupied window of a group, with what `lead` finds behind it. -/
def gapOf (key : κ) (window : Int × Option Int) : Gap κ :=
  let next :=
    if s.trailingGap then some (window.2.getD (s.windowStart s.currTimestamp)) else window.2
  { group := key
    windowStart := window.1
    nextWindowStart := next
    isTrailing := s.trailingGap && window.2.isNone
    condition := next.any fun next =>
      s.windowMinutes * 60 < unixTimestamp next - unixTimestamp window.1 }

def gaps (rows : List ρ) : List (Gap κ) :=
  let windows := distinctWindows s timestamp group rows
  (windows.map (·.1)).dedup.flatMap fun key =>
    (lead (ascending ((windows.filter (·.1 = key)).map (·.2)))).map (gapOf s key)

/-- The rows of `rows`, with the gaps that are found in `inputRows`. Keys hold nulls, which match each
other. -/
def apply (rows inputRows : List ρ) : List (ρ × Option (Gap κ)) :=
  leftOuter (fun row gap => gap.group = group row ∧ gap.windowStart = windowOf s timestamp row) rows
    (gaps s timestamp group inputRows)

/-- What is reported of a row. -/
def condition (row : ρ) (gap : Option (Gap κ)) : Option String :=
  if gap.any (·.condition) then
    some <| String.join ["Gap in time series: no data between the window starting at ",
      s.castString (windowOf s timestamp row),
      if gap.any (·.isTrailing) then " and the current time; the current window starts at "
      else " and the next present window starting at ",
      ((gap.bind (·.nextWindowStart)).map s.castString).getD ""]
  else none

end Apply

/-- The check, where `now` is the current timestamp and `keys` the columns of `group_by`. -/
def hasNoGapsPerTimeWindow {ρ κ : Type} [DecidableEq κ] (windowMinutes : Int) (trailingGap : Bool)
    (currTimestamp : Option Int) (now sentinel : Int) (castString : Int → String)
    (timestamp : ρ → Option Int) (group : ρ → κ) :
    Except String (List ρ → List (ρ × Option String)) :=
  if windowMinutes ≤ 0 then .error "window_minutes must be a positive integer"
  else if currTimestamp.isSome && !trailingGap then
    .error "curr_timestamp can only be provided when trailing_gap is enabled"
  else
    let s : Settings :=
      ⟨windowMinutes.toNat, trailingGap, currTimestamp.getD now, sentinel, castString⟩
    .ok fun rows => (apply s timestamp group rows rows).map fun p =>
      (p.1, condition s timestamp p.1 p.2)

end Dqx.TimeWindows
