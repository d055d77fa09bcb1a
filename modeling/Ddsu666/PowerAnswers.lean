/- The device from end to end: a request for the readings in any run of it, and what whoever parses
   the answer finds there of the registers of the meter. -/
import Ddsu666.AnswerReadBack
import Ddsu666.EnergyClears

namespace Ddsu666
open StringHeap

/-- The registers that the last reply with this reading was made from. -/
def Reading.told (r : Reading) (told : Told) : Option (UInt16 → UInt16) :=
  match r with
  | .totalEngery => told.energy
  | _ => told.params

section Answers

variable {F : Type} [FloatArith F] (P : Platform F) (d : Device F)

end Answers

section Devices

variable {σ F : Type} [SingleArith F] {P : Platform F} {server : Meter σ} {d : Device F} {s : σ}
  {tr : List (NodeLabel σ F)} {n : Node σ F}

omit [SingleArith F] in
/-- What the board reports of its network is not longer than a name can be. -/
def NodeLabel.ShortSsid : NodeLabel σ F → Prop
  | .others d => d.ShortSsid
  | .mqtt _ | .uart _ _ | .meter _ => True

end Devices

end Ddsu666
