import Kdive.Console.Rotation
import Kdive.Domain
import Kdive.Lib.Trace

/-!
The remote console collector: it reads a stream into a buffer, uploads a redacted part when the
buffer reaches the rotation threshold, a crash marker shows up or the console falls quiet, and
assembles the parts on finalize. A size rotation holds back a tail of raw bytes for the next part.
-/
namespace Kdive.Console

structure Settings where
  rotationThreshold : Nat
  seamOverlap : Nat
  idleFlush : Duration
  minIdleSealInterval : Duration
  maxRetainedBytes : Nat

structure Collector where
  buffer : Bytes
  carry : Bytes
  nextIndex : Option Nat
  lastRx : Instant
  lastIdleSeal : Option Instant
  streaming : Bool
  finalized : Bool

/-- The numbered parts of one System in the order they were written, and its console artifact. -/
structure PartStore where
  parts : List (Nat × Bytes)
  artifact : Option Bytes

structure Host where
  collector : Collector
  store : PartStore

def Collector.new (now : Instant) : Collector := ⟨[], [], none, now, none, false, false⟩

inductive Received
  | refused
  | dropped
  | wouldBlock
  | data (chunk : Bytes)

/-- One call of `pump_once`: what opening or reading the stream gives, the clock, the redactor
seeded from the registry, and whether the store takes a part. -/
structure Pump where
  received : Received
  now : Instant
  redactor : Redactor
  lands : Bool

section Store

def PartStore.put (store : PartStore) (index : Nat) (data : Bytes) : PartStore :=
  { store with parts := store.parts.filter (fun part => part.1 != index) ++ [(index, data)] }

def PartStore.listPartIndices (store : PartStore) : List Nat := store.parts.map Prod.fst

def PartStore.readPart (store : PartStore) (index : Nat) : Bytes :=
  ((store.parts.find? (fun part => part.1 == index)).map Prod.snd).getD []

def PartStore.assembled (store : PartStore) : Bytes :=
  (store.listPartIndices.insertionSort (· ≤ ·)).flatMap store.readPart

end Store

/-- `kernel panic|BUG: unable to handle|Oops:|Call Trace:|general protection fault`, in any case. -/
def crashMarker : Regex UInt8 :=
  let letter (b found : UInt8) : Bool := (Utf8.toChar found).toLower == (Utf8.toChar b).toLower
  let phrase (letters : String) : Regex UInt8 :=
    Regex.word letter (letters.toList.map Utf8.toByte)
  .alt (phrase "kernel panic") (.alt (phrase "BUG: unable to handle") (.alt (phrase "Oops:")
    (.alt (phrase "Call Trace:") (phrase "general protection fault"))))

namespace Host

def takeIndex (h : Host) : Nat × Host :=
  let resume := match h.store.listPartIndices.max? with
    | some last => last + 1
    | none => 0
  let index := h.collector.nextIndex.getD resume
  (index, { h with collector := { h.collector with nextIndex := some (index + 1) } })

def putPart (h : Host) (pump : Pump) (index : Nat) (data : Bytes) : Host × Bool :=
  if pump.lands then ({ h with store := h.store.put index data }, false) else (h, true)

def rotate (settings : Settings) (h : Host) (pump : Pump) : Host × Bool :=
  let cut := holdBack settings.seamOverlap (h.collector.carry ++ h.collector.buffer)
  let held := { h with collector := { h.collector with buffer := [], carry := cut.2 } }
  if cut.1.isEmpty then (held, false)
  else
    let taken := held.takeIndex
    taken.2.putPart pump taken.1 (pump.redactor.redact cut.1)

def lastBytes (n : Nat) (data : Bytes) : Bytes :=
  if n = 0 then data else data.drop (data.length - n)

def trimRetained (settings : Settings) (h : Host) : Host :=
  let held := h.collector.carry ++ h.collector.buffer
  if settings.maxRetainedBytes < held.length then
    { h with collector := { h.collector with
        carry := []
        buffer := lastBytes settings.maxRetainedBytes held } }
  else h

def flushTail (settings : Settings) (h : Host) (pump : Pump) : Host × Bool :=
  let data := h.collector.carry ++ h.collector.buffer
  if data.isEmpty then (h, false)
  else
    let taken := h.takeIndex
    let put := taken.2.putPart pump taken.1 (pump.redactor.redact data)
    if put.2 then
      let back := { put.1 with collector := { put.1.collector with nextIndex := some taken.1 } }
      (back.trimRetained settings, true)
    else ({ put.1 with collector := { put.1.collector with buffer := [], carry := [] } }, false)

def isIdle (settings : Settings) (h : Host) (now : Instant) : Bool :=
  !decide (now - h.collector.lastRx < settings.idleFlush) &&
    !(h.collector.lastIdleSeal.any (fun last => decide (now - last < settings.minIdleSealInterval))) &&
    !(h.collector.carry ++ h.collector.buffer).isEmpty

def flushIfIdle (settings : Settings) (h : Host) (pump : Pump) : Host × Bool :=
  if h.isIdle settings pump.now then
    let flushed := h.flushTail settings pump
    if flushed.2 then flushed
    else ({ flushed.1 with
        collector := { flushed.1.collector with lastIdleSeal := some pump.now } }, false)
  else (h, false)

def maybeRotate (settings : Settings) (h : Host) (pump : Pump) : Host × Bool :=
  if crashMarker.search h.collector.buffer then h.flushTail settings pump
  else if settings.rotationThreshold ≤ h.collector.buffer.length then h.rotate settings pump
  else (h, false)

def dropStream (h : Host) : Host :=
  { h with collector := { h.collector with streaming := false } }

def receive (h : Host) (pump : Pump) (chunk : Bytes) : Host :=
  { h with collector := { h.collector with
      buffer := h.collector.buffer ++ chunk
      lastRx := pump.now } }

def openStream (h : Host) : Host :=
  { h with collector := { h.collector with streaming := true } }

def answer (arrived : Bool) (done : Host × Bool) : Host × Option Bool :=
  (done.1, if done.2 then none else some arrived)

def pumpOnce (settings : Settings) (h : Host) (pump : Pump) : Host × Option Bool :=
  if h.collector.finalized then (h, some false)
  else match pump.received with
    | .refused => (h, none)
    | .dropped => (h.dropStream, some false)
    | .wouldBlock => answer false (h.openStream.flushIfIdle settings pump)
    | .data [] => (h.dropStream, some false)
    | .data chunk => answer true ((h.openStream.receive pump chunk).maybeRotate settings pump)

def finalize (settings : Settings) (h : Host) (pump : Pump) : Host × Bool :=
  if h.collector.finalized then (h, false)
  else
    let flushed := h.dropStream.flushTail settings pump
    if flushed.2 then flushed
    else
      let artifact := pump.redactor.redact flushed.1.store.assembled
      (⟨{ flushed.1.collector with finalized := true },
        { flushed.1.store with artifact := some artifact }⟩, false)

end Host

/-- One turn of the hosting loop: a pump that raises is logged and the next one follows. -/
def pumpStep (settings : Settings) (h : Host) (pump : Pump) : Host := (h.pumpOnce settings pump).1

end Kdive.Console
