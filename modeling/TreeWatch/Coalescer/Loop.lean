import TreeWatch.Coalescer.Basic

/-!
# The event loop

A running watch is a loop that waits for four things: the order to stop, a message of the engine,
the end of the engine's channel, and the deadline. Each turn does one of them; if several are due,
the first in this order (`Loop.turn`). On its way out the loop flushes if a flush is due.

A turn is a function of the clock and the disk, so a run of the loop is a sequence of turns with
the rest of the world acting in between.
-/

namespace TreeWatch

/-- What the engine puts into its channel. -/
inductive Message where
  | event (event : Event)
  | failure (error : EngineError)
  deriving DecidableEq

/-- A running loop. -/
structure Loop where
  coalescer : Coalescer
  /-- Messages that were delivered and not received yet, oldest first. -/
  inbox : List Message := []
  /-- Nothing will be delivered any more. -/
  closed : Bool := false
  /-- The loop has been told to stop. -/
  cancelled : Bool := false

/-- What a turn did. -/
inductive Action where
  /-- Received a message. -/
  | received (message : Message)
  /-- Flushed because the deadline was over. -/
  | flushed (bumps : BumpedAll Disk)
  /-- Left the loop, with the flush that was due. -/
  | left (bumps : Option (BumpedAll Disk))

/-- A loop after a turn. -/
structure Turn where
  loop : Loop
  disk : Disk
  notices : List Notice
  action : Action

namespace Loop

/-- Leaves the loop; what is due is flushed first. -/
def leave (l : Loop) (h : Hazards) (d : Disk) (notices : List Notice) : Turn :=
  if l.coalescer.deadline.isSome then
    let flushed := l.coalescer.flush h d
    { loop := { l with coalescer := flushed.coalescer }
      disk := flushed.bumps.disk
      notices := notices ++ flushed.bumps.notices
      action := .left (some flushed.bumps) }
  else { loop := l, disk := d, notices, action := .left none }

/-- Receives a message. -/
def receive (l : Loop) (d : Disk) (now : Nat) (message : Message) (rest : List Message) : Turn :=
  match message with
  | .event event =>
    let (coalescer, notices) := l.coalescer.handleEvent d now event
    { loop := { l with coalescer, inbox := rest }, disk := d, notices, action := .received message }
  | .failure error =>
    { loop := { l with inbox := rest }, disk := d, notices := [.eventFailed error],
      action := .received message }

/-- Flushes because it is time to. -/
def expire (l : Loop) (h : Hazards) (d : Disk) : Turn :=
  let flushed := l.coalescer.flush h d
  { loop := { l with coalescer := flushed.coalescer }
    disk := flushed.bumps.disk
    notices := flushed.bumps.notices
    action := .flushed flushed.bumps }

/-- Whether the deadline is over. -/
def isDue (l : Loop) (now : Nat) : Bool :=
  l.coalescer.deadline.any (· ≤ now)

/-- One turn of the loop, or `none` if there is nothing to do but wait. -/
def turn (l : Loop) (h : Hazards) (d : Disk) (now : Nat) : Option Turn :=
  if l.cancelled then
    some (l.leave h d (if l.coalescer.deadline.isSome then [.flushingAtExit] else []))
  else
    match l.inbox with
    | message :: rest => some (l.receive d now message rest)
    | [] =>
      if l.closed then some (l.leave h d [.channelClosed])
      else if l.isDue now then some (l.expire h d)
      else none

end Loop

end TreeWatch
