import Eestv.Flags

/-! The states of both ends of the discovery. -/

namespace Eestv.Net

inductive UdpDiscoveryState
  | running
  | stopping
  | timerRunning
  | sendingAsync
  | receivingAsync
deriving DecidableEq, Repr

instance : FlagType UdpDiscoveryState where
  bit
    | .running => 0
    | .stopping => 1
    | .timerRunning => 2
    | .sendingAsync => 3
    | .receivingAsync => 4
  bit_injective := by
    intro a b h
    cases a <;> cases b <;> first | rfl | contradiction

end Eestv.Net
