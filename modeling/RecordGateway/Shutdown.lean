/-! # The shutdown signal

Coordinators send a signal to everyone who has subscribed to their channel. A coordinator that is
cloned shares its channel. A channel keeps only the last signal: a subscriber who was slow is first
told how many it has missed, and receives that one then. A signal to nobody is lost, and so is every
signal before one subscribes.
-/

namespace RecordGateway

/-- A subscriber of a channel. -/
structure Subscriber where
  channel : Nat
  /-- The signals since the last one received; nothing once the subscriber is dropped. -/
  waiting : Option Nat := some 0
  deriving Repr, DecidableEq

/-- What a subscriber is told that asks for a signal. -/
inductive Reception where
  | signal
  | nothing
  | dropped
  /-- So many signals have been missed. -/
  | missed (count : Nat)
  deriving Repr, DecidableEq

def Reception.message : Reception → String
  | signal => "ok"
  | nothing => "empty"
  | dropped => "dropped"
  | missed k => "lagged " ++ toString k

namespace Subscriber

/-- Whether a subscriber of a channel is still there. -/
def listensTo (s : Subscriber) (channel : Nat) : Bool := s.channel == channel && s.waiting.isSome

/-- A signal arrives on a channel. -/
def notify (channel : Nat) (s : Subscriber) : Subscriber :=
  if s.channel = channel then { s with waiting := s.waiting.map (· + 1) } else s

/-- Asks for a signal. -/
def receive (s : Subscriber) : Reception × Subscriber :=
  match s.waiting with
  | none => (.dropped, s)
  | some 0 => (.nothing, s)
  | some 1 => (.signal, { s with waiting := some 0 })
  | some (k + 2) => (.missed (k + 1), { s with waiting := some 1 })

def drop (s : Subscriber) : Subscriber := { s with waiting := none }

end Subscriber

/-- Coordinators and subscribers, numbered in the order in which they came about. -/
structure Shutdown where
  /-- The channel of each coordinator. -/
  coordinators : List Nat := [0]
  channels : Nat := 1
  subscribers : List Subscriber := []
  deriving Repr

namespace Shutdown

inductive Step where
  | subscribe (coordinator : Nat)
  | trigger (coordinator : Nat)
  | clone (coordinator : Nat)
  /-- A coordinator with a channel of its own. -/
  | create
  | drop (subscriber : Nat)
  | receive (subscriber : Nat)
  deriving Repr, DecidableEq

inductive StepResult where
  | none
  /-- The number of the new coordinator or subscriber. -/
  | number (n : Nat)
  | reception (r : Reception)
  deriving Repr, DecidableEq

/-- The subscribers of a coordinator's channel that are still there. -/
def receiverCount (s : Shutdown) (channel : Nat) : Nat := s.subscribers.countP (·.listensTo channel)

def counts (s : Shutdown) : List Nat := s.coordinators.map s.receiverCount

/-- Changes a subscriber. -/
def update (s : Shutdown) (subscriber : Nat) (f : Subscriber → Subscriber) : Shutdown :=
  { s with subscribers := s.subscribers.modify subscriber f }

/-- A step. One that names a coordinator or subscriber which is not there changes nothing. -/
def step (s : Shutdown) : Step → StepResult × Shutdown
  | .subscribe c =>
    match s.coordinators[c]? with
    | some channel =>
      (.number s.subscribers.length, { s with subscribers := s.subscribers ++ [⟨channel, some 0⟩] })
    | none => (.none, s)
  | .trigger c =>
    match s.coordinators[c]? with
    | some channel =>
      (.none, { s with subscribers := s.subscribers.map (Subscriber.notify channel) })
    | none => (.none, s)
  | .clone c =>
    match s.coordinators[c]? with
    | some channel =>
      (.number s.coordinators.length, { s with coordinators := s.coordinators ++ [channel] })
    | none => (.none, s)
  | .create =>
    (.number s.coordinators.length,
      { s with coordinators := s.coordinators ++ [s.channels], channels := s.channels + 1 })
  | .drop r => (.none, s.update r Subscriber.drop)
  | .receive r =>
    match s.subscribers[r]? with
    | some sub => (.reception sub.receive.1, s.update r fun sub => sub.receive.2)
    | none => (.none, s)

/-- The results of steps, each with the subscribers that every coordinator has after it. -/
def run (s : Shutdown) : List Step → List (StepResult × List Nat)
  | [] => []
  | st :: sts =>
    let (r, s) := s.step st
    (r, s.counts) :: run s sts

end Shutdown

end RecordGateway
