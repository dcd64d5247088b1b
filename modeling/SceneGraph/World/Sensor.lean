import SceneGraph.Decimal.Narrow
import SceneGraph.Decimal.Remainder
import SceneGraph.World.Lifecycle

/-!
# Frames and input

Nodes that take part in frames are updated with the time of the frame, and nodes that receive input
are offered mouse and key events. A timer emits the fraction of its cycle (`TimerPhase`), a touch
sensor reports presses on what lies below one of its parents, and a recorder writes everything down.
-/

namespace SceneGraph

/-- Where a timer stands at one moment. -/
inductive TimerPhase where
  /-- It has not started, or its cycle is empty. -/
  | before
  /-- It runs, at some fraction of the cycle. -/
  | running (fraction : Float32)
  /-- Its time is over. -/
  | finished

/-- The settings of a timer. -/
structure TimerSettings where
  start : Float
  stop : Float
  interval : Float
  loop : Bool

/-- Where a timer stands. -/
def TimerSettings.phase (s : TimerSettings) (now : Float) : TimerPhase :=
  if now < s.start || s.interval ≤ 0 then .before
  else if s.stop > s.start && now ≥ s.stop then .finished
  else
    let elapsed := now - s.start
    if !s.loop && elapsed ≥ s.interval then .finished
    else .running (Decimal.narrow (Decimal.remainder elapsed s.interval / s.interval))

/-- A mouse event, with the node under the pointer if the host knows one. -/
structure MouseEvent where
  action : MouseAction
  button : Nat
  target : Option NodeId
  deriving DecidableEq, Repr

structure KeyEvent where
  key : Nat
  pressed : Bool
  deriving DecidableEq, Repr

/-- A truth value of a field; false if there is none. -/
def Node.flag (n : Node) (name : String) : Bool :=
  match n.value .boolean name with
  | .ok (b : Bool) => b
  | .error _ => false

namespace World

/-- Emits an output and reports a refusal. -/
def emitOutput (w : World) (n : Node) (name : String) (value : Field) : World :=
  match w.emitField n.id name value with
  | (.ok _, w) => w
  | (.error e, w) => w.log .warn s!"{n.typeName} #{n.id}: {e.message}"

/-! ### Timers -/

/-- The settings of a timer, read off its fields. -/
def timerSettings (n : Node) : Except NodeError TimerSettings := do
  let start ← n.value .time "startTime"
  let stop ← n.value .time "stopTime"
  let interval ← n.value .time "cycleInterval"
  let loop ← n.value .boolean "loop"
  return ⟨start, stop, interval, loop⟩

/-- What a timer emits at a frame: while it runs the fraction and the time, and at both ends whether it
is active. -/
def updateTimer (w : World) (n : Node) (time : Timestamp) : World :=
  if !n.flag "enabled" then w
  else
    match timerSettings n with
    | .error e => w.log .warn s!"{n.typeName} #{n.id}: {e.message}"
    | .ok settings =>
      let active := n.flag "isActive"
      match settings.phase time.seconds with
      | .before => w
      | .running fraction =>
        let w := if active then w else w.emitOutput n "isActive" (.single .boolean true time)
        let w := w.emitOutput n "fraction_changed" (.single .float fraction time)
        w.emitOutput n "time" (.single .time time.seconds time)
      | .finished =>
        if active then
          let w := w.emitOutput n "fraction_changed" (.single .float (1 : Float32) time)
          w.emitOutput n "isActive" (.single .boolean false time)
        else w

/-- Updates a node for a frame. -/
def update (w : World) (id : NodeId) (time : Timestamp) : World :=
  match w.node? id with
  | none => w
  | some n =>
    let w := w.step (.updating id)
    match n.behavior with
    | .timer => w.updateTimer n time
    | .recorder _ =>
      ((w.tell (.updated id time)).emitField id "time" (.single .time time.seconds time)).2
    | _ => w

/-- The time of the frame that a node asks for, if it does. -/
def preUpdate (w : World) (id : NodeId) (time : Timestamp) : Option Timestamp :=
  match w.node? id with
  | none => none
  | some n =>
    match n.behavior with
    | .recorder _ =>
      match n.value .time "ahead" with
      | .ok (ahead : Float) => some ⟨time.seconds + ahead⟩
      | .error _ => none
    | _ => none

/-! ### Input -/

/-- The node under the pointer is one of the sensor's parents or lies below one. -/
def senses (w : World) (id : NodeId) (target : Option NodeId) : Bool :=
  match target with
  | none => false
  | some t => w.isLive t && (w.parentsOf id).any (w.ancestors t).contains

/-- A touch sensor reports a press of the first button on what it senses, and the release that
follows. -/
def touch (w : World) (n : Node) (e : MouseEvent) (now : Timestamp) : Bool × World :=
  if !n.flag "enabled" then (false, w)
  else
    let active := n.flag "isActive"
    match e.action with
    | .press =>
      if e.button = 0 && w.senses n.id e.target then
        (true, w.emitOutput n "isActive" (.single .boolean true))
      else (false, w)
    | .release =>
      if active then
        let w := w.emitOutput n "isActive" (.single .boolean false now)
        (true, if w.senses n.id e.target then
          w.emitOutput n "touchTime" (.single .time now.seconds now) else w)
      else (false, w)
    | .move => (false, w)

/-- Offers a mouse event to a node; true if the node handles it. -/
def mouseEvent (w : World) (id : NodeId) (e : MouseEvent) (now : Timestamp) : Bool × World :=
  match w.node? id with
  | none => (false, w)
  | some n =>
    let w := w.step (.offeringInput id)
    match n.behavior with
    | .touch => w.touch n e now
    | .recorder _ => (e.button = 1, w.tell (.mouse id e.action e.button))
    | _ => (false, w)

/-- Offers a key event to a node; true if the node handles it. -/
def keyEvent (w : World) (id : NodeId) (e : KeyEvent) : Bool × World :=
  match w.node? id with
  | none => (false, w)
  | some n =>
    let w := w.step (.offeringInput id)
    match n.behavior with
    | .recorder _ => (e.pressed, w.tell (.key id e.key))
    | _ => (false, w)

end World

end SceneGraph
