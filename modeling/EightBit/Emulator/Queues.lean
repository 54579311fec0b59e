/-
  EightBit.Emulator.Queues
  ────────────────────────
  **DATA WAITING ON CHANNELS.**

  Each channel has a queue of data for the input instructions that will read
  it.

  Main results:
    • `queue_take?`       — a datum is taken from the head of its own queue;
    • `queue_take?_of_ne` — other queues stay as they are.
-/
import EightBit.Machine.Signals
import EightBit.OrderedMap

namespace EightBit

/-- A queue of data for each channel that has one. -/
abbrev Queues := OrderedMap Byte (List UInt16)

namespace Queues

/-- The data waiting on the channel, in order. -/
def queue (q : Queues) (channel : Byte) : List UInt16 := (q.get? channel).getD []

/-- The first datum waiting on the channel, and the queues without it. -/
def take? (q : Queues) (channel : Byte) : Option (UInt16 × Queues) :=
  match q.queue channel with
  | [] => none
  | datum :: rest => some (datum, q.insert channel rest)

/-- Number of data waiting on all channels. -/
def total (q : Queues) : Nat := (q.entries.map fun e => e.2.length).foldr (· + ·) 0

/-- The channels with a queue that no instruction can read, in ascending
order. -/
def unreadable (q : Queues) : List Byte :=
  (q.keys.filter fun channel => maxChannel < channel).mergeSort (· ≤ ·)

/-- A datum is taken from the head of its own queue. -/
theorem queue_take? {q q' : Queues} {channel : Byte} {datum : UInt16}
    (h : q.take? channel = some (datum, q')) :
    q.queue channel = datum :: q'.queue channel := by
  unfold take? at h
  split at h
  · exact absurd h (by simp)
  · next hq =>
    obtain ⟨rfl, rfl⟩ := Prod.mk.inj (Option.some.inj h)
    rw [hq]
    simp [queue, OrderedMap.get?_insert]

/-- Other queues stay as they are. -/
theorem queue_take?_of_ne {q q' : Queues} {channel other : Byte} {datum : UInt16}
    (h : q.take? channel = some (datum, q')) (hne : other ≠ channel) :
    q'.queue other = q.queue other := by
  unfold take? at h
  split at h
  · exact absurd h (by simp)
  · obtain ⟨_, rfl⟩ := Prod.mk.inj (Option.some.inj h)
    simp [queue, OrderedMap.get?_insert, hne]

end Queues

end EightBit
