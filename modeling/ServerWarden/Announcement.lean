/-
# Announcing a shutdown

While players are connected a shutdown is announced at round numbers of seconds, more often as it
comes nearer.  `interval` says how far apart the announcements are with a given time left, and
`untilNext` how long to wait for the next one.
-/
import ServerWarden.Time.Duration

namespace ServerWarden.Announcement

/-- How far apart announcements are with `remaining` left. -/
def interval (remaining : Duration) : Duration :=
  if Duration.ofSecs 300 < remaining then .ofSecs 300
  else if Duration.ofSecs 60 < remaining then .ofSecs 60
  else if Duration.ofSecs 10 < remaining then .ofSecs 10
  else .ofSecs 1

/-- The time until `remaining` comes down to a multiple of the interval, in whole milliseconds. -/
def untilNext (remaining : Duration) : Duration :=
  let step := (interval remaining).millis
  let rest := remaining.millis % step
  .ofMillis (min (if rest = 0 then step else rest) remaining.millis)

/-- The seconds of a duration, rounded up over its whole milliseconds. -/
def ceilSecs (d : Duration) : Nat := (d.millis + 999) / 1000

/-- The command that tells the players. -/
def command (remaining : Duration) (reason : String) : String :=
  s!"say *** Shutdown in {ceilSecs remaining} second(s) for reason: {reason}"

end ServerWarden.Announcement
