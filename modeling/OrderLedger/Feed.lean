import OrderLedger.Stock

/-!
The feed of stock events. Every subscription has a stream of its own with a bounded
buffer. An event is offered to all subscribers and waits for none: where a buffer is
full, the event is dropped for that subscriber and counted.

A subscription ends when its subscriber leaves, when its name is subscribed again, or
when its receiver is found closed at a publication. What was buffered before stays in
the stream.
-/

namespace OrderLedger

/-- The reading end of a stream. A closed receiver still yields what is buffered. -/
inductive Receiver where
  | listening
  | closed
  | dropped
  deriving DecidableEq, Repr

structure EventStream where
  /-- The buffered events, oldest first. -/
  pending : List StockEvent
  /-- Whether a subscription feeds the stream. -/
  isFed : Bool
  receiver : Receiver
  deriving DecidableEq, Repr

structure Subscriber where
  name : String
  /-- The place of the subscription's stream in the feed. -/
  stream : Nat
  /-- The events that found the buffer full. The count is taken not to wrap around. -/
  dropped : Nat
  deriving DecidableEq, Repr

/-- Streams are listed in the order of subscription and keep their places. -/
structure Feed where
  capacity : Nat
  streams : List EventStream
  subscribers : List Subscriber
  deriving DecidableEq, Repr

/-- What a reader finds in a stream. -/
inductive Reading where
  | event (e : StockEvent)
  | empty
  /-- The stream ended and nothing is left in it. -/
  | ended
  deriving DecidableEq, Repr

namespace EventStream

def fresh : EventStream := ⟨[], true, .listening⟩

/-- Nothing will be buffered any more. -/
def isOver (s : EventStream) : Bool := !s.isFed || s.receiver != .listening

def push (s : EventStream) (e : StockEvent) : EventStream :=
  { s with pending := s.pending ++ [e] }

end EventStream

namespace Feed

/-- How many events a buffer holds unless the settings say otherwise. -/
def defaultBuffer : Nat := 64

/-- The most events for which a buffer can be made. -/
def largestBuffer : Nat := 2305843009213693951

/-- A feed without subscribers. A buffer holds at least one event. -/
def withBuffer (buffer : Nat) : Feed := ⟨max buffer 1, [], []⟩

def subscriber? (f : Feed) (name : String) : Option Subscriber :=
  f.subscribers.find? fun s => s.name == name

def updateStream (f : Feed) (place : Nat) (change : EventStream → EventStream) : Feed :=
  { f with streams := f.streams.modify place change }

/-- Cuts a subscription off from its stream. -/
def detach (f : Feed) (s : Subscriber) : Feed :=
  f.updateStream s.stream fun stream => { stream with isFed := false }

/-- Removes the subscription of a name, if there is one. -/
def remove (f : Feed) (name : String) : Feed :=
  match f.subscriber? name with
  | none => f
  | some s =>
      { f.detach s with subscribers := f.subscribers.filter fun other => other.name != name }

/-- Subscribes a name in place of its earlier subscription. -/
def withSubscriber (f : Feed) (name : String) : Feed :=
  let place := f.streams.length
  let f := f.remove name
  { f with
    streams := f.streams ++ [EventStream.fresh]
    subscribers := f.subscribers ++ [⟨name, place, 0⟩] }

/-- Subscribes a name, if a buffer can be made. Returns the place of the new stream. -/
def subscribe (f : Feed) (name : String) : Except Overflow Nat × Feed :=
  if largestBuffer < f.capacity then (.error .buffer, f)
  else (.ok f.streams.length, f.withSubscriber name)

/-- Ends the subscription of a name and tells whether there was one. -/
def unsubscribe (f : Feed) (name : String) : Bool × Feed :=
  ((f.subscriber? name).isSome, f.remove name)

def isListening (f : Feed) (s : Subscriber) : Bool :=
  (f.streams[s.stream]?).any fun stream => stream.receiver == .listening

/-- Whether the buffer of a subscription has room. -/
def hasRoom (f : Feed) (s : Subscriber) : Bool :=
  (f.streams[s.stream]?).any fun stream => stream.pending.length < f.capacity

/-- Offers an event to one subscriber, whose receiver listens. -/
def offerTo (e : StockEvent) (f : Feed) (s : Subscriber) : Feed :=
  if f.hasRoom s then f.updateStream s.stream fun stream => stream.push e
  else
    { f with
      subscribers := f.subscribers.map fun other =>
        if other.name == s.name then { other with dropped := other.dropped + 1 } else other }

/-- Offers an event to every subscriber that listens. Returns the names of the others. -/
def offer (f : Feed) (e : StockEvent) : List String × Feed :=
  let (listening, silent) := f.subscribers.partition f.isListening
  (silent.map (·.name), listening.foldl (offerTo e) f)

/-- Removes the subscriptions of the given names, those excepted that listen by now. -/
def prune (f : Feed) (names : List String) : Feed :=
  names.foldl
    (fun f name => if (f.subscriber? name).all f.isListening then f else f.remove name) f

/-- Offers an event and removes the subscriptions whose receivers are gone. -/
def publish (f : Feed) (e : StockEvent) : Feed :=
  let (silent, f) := f.offer e
  f.prune silent

def publishAll (f : Feed) (events : List StockEvent) : Feed := events.foldl publish f

def count (f : Feed) : Nat := f.subscribers.length

/-- The events that a subscription has missed. -/
def dropped? (f : Feed) (name : String) : Option Nat := (f.subscriber? name).map (·.dropped)

/-- Takes the oldest event out of a stream. -/
def take (f : Feed) (place : Nat) : Reading × Feed :=
  match f.streams[place]? with
  | none => (.ended, f)
  | some stream =>
      match stream.pending with
      | e :: rest => (.event e, f.updateStream place fun stream => { stream with pending := rest })
      | [] => (if stream.isOver then .ended else .empty, f)

/-- Takes everything out of a stream, and tells whether more may come. -/
def drain (f : Feed) (place : Nat) : (List StockEvent × Bool) × Feed :=
  match f.streams[place]? with
  | none => (([], false), f)
  | some stream =>
      ((stream.pending, !stream.isOver),
       f.updateStream place fun stream => { stream with pending := [] })

/-- Closes the receiver of a stream. What is buffered can still be taken. -/
def close (f : Feed) (place : Nat) : Feed :=
  f.updateStream place fun stream =>
    if stream.receiver = .listening then { stream with receiver := .closed } else stream

/-- Drops the receiver of a stream and all that is buffered in it. -/
def drop (f : Feed) (place : Nat) : Feed :=
  f.updateStream place fun stream => { stream with receiver := .dropped, pending := [] }

end Feed

end OrderLedger
