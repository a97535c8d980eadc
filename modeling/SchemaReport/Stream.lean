/-! Byte streams. A source hands out its bytes in pieces of any size and may be interrupted or fail
on the way; a sink takes them in portions of any size and may fail or take nothing. -/

namespace SchemaReport

inductive StreamError
  | device (reason : String)
  | nothingTaken
  deriving DecidableEq

def StreamError.message : StreamError → String
  | .device reason => reason
  | .nothingTaken => "failed to write whole buffer"

/-- What comes of one read. No bytes are the end of the stream. -/
inductive Delivery
  | bytes (bs : List UInt8)
  | interrupted
  | failed (reason : String)

/-- The reads of a stream, which ends where they end. -/
abbrev Source := List Delivery

/-- All bytes; an interrupted read is tried again. -/
def Source.readAll : Source → Except StreamError (List UInt8)
  | [] => .ok []
  | .bytes [] :: _ => .ok []
  | .bytes (b :: bs) :: ds => (Source.readAll ds).map fun r => b :: bs ++ r
  | .interrupted :: ds => Source.readAll ds
  | .failed reason :: _ => .error (.device reason)

/-- What a sink answers to a write. -/
inductive Portion
  /-- It takes this many bytes, or all that are offered if they are fewer. -/
  | upTo (n : Nat)
  | failed (reason : String)

structure Sink where
  /-- The answer to the write that comes after so many bytes. -/
  next : (taken : Nat) → Portion
  /-- Why it cannot be flushed, if it cannot. -/
  flushFault? : Option String

/-- The bytes that reached a sink, and whether these were all. -/
structure Written where
  bytes : List UInt8
  result : Except StreamError Unit

def Written.cons (b : UInt8) (w : Written) : Written := { w with bytes := b :: w.bytes }

/-- Writes until all bytes are taken. `taken` bytes went before, and the write that is under way
takes `room` more. -/
def Sink.writeFrom (s : Sink) (taken room : Nat) : List UInt8 → Written
  | [] => ⟨[], .ok ()⟩
  | b :: bs =>
    match room with
    | room + 1 => (s.writeFrom (taken + 1) room bs).cons b
    | 0 =>
      match s.next taken with
      | .failed reason => ⟨[], .error (.device reason)⟩
      | .upTo 0 => ⟨[], .error .nothingTaken⟩
      | .upTo (n + 1) => (s.writeFrom (taken + 1) n bs).cons b

def Sink.writeAll (s : Sink) (bs : List UInt8) : Written := s.writeFrom 0 0 bs

def Sink.flush (s : Sink) : Except StreamError Unit :=
  match s.flushFault? with
  | none => .ok ()
  | some reason => .error (.device reason)

end SchemaReport
